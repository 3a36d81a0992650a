import HookRelay.Provenance

/-!
# Events are routed to subscribed endpoints

A fan-out resolves to the endpoints that are enabled and subscribed when it is processed. A targeted
retry resolves to its endpoint if that is enabled, whatever it is subscribed to by then: it was
subscribed when the retry chain began. So the two paths agree as long as no update takes an event
type away from an endpoint that has a retry of such an event outstanding.
-/

namespace HookRelay

/-- The message is a retry of the event to the endpoint. -/
def Message.targets (eventId endpointId : UUID) (m : Message) : Bool :=
  m.eventId = eventId && m.endpointId = some endpointId

/-- The delivery may still schedule a retry. -/
def Stage.mayRetry : Stage → Bool
  | .checking | .posting | .recording _ | .failed _ => true
  | .cancelling | .notifying => false

/-- The call has the event to deliver to the endpoint and may schedule a retry of it. -/
def Call.mayRetry (eventId endpointId : UUID) : Call → Bool
  | .delivering d => d.event.id = eventId &&
      (endpointId ∈ d.rest.map (·.id) || (d.endpoint.id = endpointId && d.stage.mayRetry))
  | _ => false

/-- A retry of the event to the endpoint is outstanding: its message is in the topic, in Redis or in
the hands of a scheduler, or a call may still schedule one. -/
def State.outstanding (s : State) (eventId endpointId : UUID) : Bool :=
  s.group.log.any (·.value.targets eventId endpointId) ||
    s.store.redis.data.entries.any (·.2.targets eventId endpointId) ||
    s.schedulers.any (·.messages.any (·.targets eventId endpointId)) ||
    s.group.tasks.any (·.data.mayRetry eventId endpointId)

/-- The update takes an event type away from an endpoint that has a retry of such an event
outstanding. -/
def State.strands (s : State) : Action → Bool
  | .updateEndpoint id body => (s.store.db.getEndpoint id).any fun p => (body.apply p).any fun p' =>
      s.store.db.events.any fun event => p.eventTypes.contains event.eventType &&
        !p'.eventTypes.contains event.eventType && s.outstanding event.id id
  | _ => false

abbrev Unstranding (s : State) (a : Action) : Prop := s.strands a = false

/-- The endpoint of an outstanding retry, as long as it exists, is subscribed to the event's type. -/
structure Subscribed (e p : UUID) (s : State) : Prop where
  event : s.outstanding e p = true → e ∈ s.store.db.eventIds
  issued : s.outstanding e p = true → p ∈ s.store.db.issued
  types : s.outstanding e p = true → ∀ event ∈ s.store.db.events, event.id = e →
    ∀ q ∈ s.store.db.endpoints, q.id = p → event.eventType ∈ q.eventTypes

section

variable {cfg : Settings} {s s' : State} {a : Action} {e p : UUID}

theorem Message.targets_iff {m : Message} :
    m.targets e p = true ↔ m.eventId = e ∧ m.endpointId = some p := by
  simp [Message.targets]

theorem State.outstanding_iff : s.outstanding e p = true ↔
    (∃ m, s.Carries m ∧ m.targets e p = true) ∨ ∃ t ∈ s.group.tasks, t.data.mayRetry e p = true := by
  simp only [State.outstanding, Bool.or_eq_true, List.any_eq_true, State.Carries]
  constructor
  · rintro (((⟨r, hr, hm⟩ | ⟨x, hx, hm⟩) | ⟨sch, hsch, m, hm, ht⟩) | task)
    · exact .inl ⟨_, .inl ⟨r, hr, rfl⟩, hm⟩
    · exact .inl ⟨_, .inr (.inl ⟨x.1, AList.mem_lookup_iff.2 hx⟩), hm⟩
    · exact .inl ⟨m, .inr (.inr ⟨sch, hsch, hm⟩), ht⟩
    · exact .inr task
  · rintro (⟨m, ⟨r, hr, rfl⟩ | ⟨k, hk⟩ | ⟨sch, hsch, hm⟩, ht⟩ | task)
    · exact .inl (.inl (.inl ⟨r, hr, ht⟩))
    · exact .inl (.inl (.inr ⟨⟨k, m⟩, AList.mem_lookup_iff.1 hk, ht⟩))
    · exact .inl (.inr ⟨sch, hsch, m, hm, ht⟩)
    · exact .inr task

/-- The rest of the targets is delivered to with retries to come. -/
theorem mayRetry_deliverNext {event : Event} {n : Nat} {ps : List Endpoint} :
    (deliverNext event n ps).mayRetry e p = true ↔ event.id = e ∧ p ∈ ps.map (·.id) := by
  cases ps with
  | nil => simp [deliverNext, Call.mayRetry]
  | cons q ps =>
    simp only [deliverNext, Call.mayRetry, Stage.mayRetry, Bool.and_true, Bool.and_eq_true,
      Bool.or_eq_true, decide_eq_true_eq, List.map_cons, List.mem_cons]
    constructor
    · rintro ⟨he, hp | hp⟩
      · exact ⟨he, .inr hp⟩
      · exact ⟨he, .inl hp.symm⟩
    · rintro ⟨he, hp | hp⟩
      · exact ⟨he, .inr hp.symm⟩
      · exact ⟨he, .inl hp⟩

/-- A call comes to a delivery it may retry only by resolving its targets. -/
theorem Moves.mayRetry {st st' : Store} {r : Record Message} {c c' : Call} {b : TaskAction}
    (h : Moves cfg st r c b st' c') (after : c'.mayRetry e p = true) :
    c.mayRetry e p = true ∨ (c' = resolveTargets st.db.toTables r.value ∧ st' = st) := by
  have next : ∀ {d : Delivery}, d.next.mayRetry e p = true →
      (Call.delivering d).mayRetry e p = true := by
    intro d hd
    obtain ⟨he, hp⟩ := mayRetry_deliverNext.1 hd
    simp only [Call.mayRetry, Bool.and_eq_true, Bool.or_eq_true, decide_eq_true_eq]
    exact ⟨he, .inl hp⟩
  have goto : ∀ {d : Delivery} {stage : Stage}, (stage.mayRetry = true → d.stage.mayRetry = true) →
      (d.goto stage).mayRetry e p = true → (Call.delivering d).mayRetry e p = true := by
    intro d stage back hd
    simp only [Delivery.goto, Call.mayRetry, Bool.and_eq_true, Bool.or_eq_true,
      decide_eq_true_eq] at hd ⊢
    exact ⟨hd.1, hd.2.imp_right fun here => ⟨here.1, back here.2⟩⟩
  cases h with
  | resolve => exact .inr ⟨rfl, rfl⟩
  | skip | schedule | notify | notifyFailed => exact .inl (next after)
  | pass stage | post stage =>
    exact .inl (goto (fun _ => by rw [stage]; rfl) after)
  | dlqConflict | insertDlq | cancel | cancelFailed => exact .inl (goto (fun h => by cases h) after)
  | conflict stage | record stage =>
    split at after
    · exact .inl (next after)
    · exact .inl (goto (fun _ => by rw [stage]; rfl) after)

/-- A record resolves to its own endpoint, or to endpoints that are subscribed at that moment. -/
theorem mayRetry_resolve {t : Tables} (v : t.Valid) {m : Message}
    (h : (resolveTargets t m).mayRetry e p = true) :
    e ∈ t.eventIds ∧ p ∈ t.endpointIds ∧ (m.targets e p = true ∨
      ∀ event ∈ t.events, event.id = e → ∀ q ∈ t.endpoints, q.id = p →
        event.eventType ∈ q.eventTypes) := by
  unfold resolveTargets at h
  split at h
  · cases h
  rename_i event found
  obtain ⟨he, same⟩ := Tables.getEvent_some found
  obtain ⟨rfl, hp⟩ := mayRetry_deliverNext.1 h
  obtain ⟨q, hq, rfl⟩ := List.mem_map.1 hp
  refine ⟨Tables.mem_eventIds.2 ⟨event, he, rfl⟩,
    Tables.mem_endpointIds.2 ⟨q, targets_exist hq, rfl⟩, ?_⟩
  rcases mem_targets.1 hq with ⟨endpointId, target, found, -⟩ | ⟨-, matching⟩
  · rw [← (Tables.getEndpoint_some found).2] at target
    exact .inl (Message.targets_iff.2 ⟨same.symm, target⟩)
  · right
    intro event' he' hid q' hq' hqid
    obtain ⟨hq, -, subscribed⟩ := Tables.mem_matching.1 matching
    rwa [Tables.eq_of_nodup_map v.events_pkey he' he hid,
      Tables.eq_of_nodup_map v.endpoints_pkey hq' hq hqid]

/-! ## The invariant -/

/-- A retry that is outstanding after a step was so before, or its event has just been resolved to
an endpoint subscribed to it. -/
theorem Transition.outstanding_cases (hs : Transition cfg s a s')
    (inv : ConsumerGroup.Inv (fun _ => 0) s.group) (h : s'.outstanding e p = true) :
    s.outstanding e p = true ∨ (s'.store = s.store ∧ e ∈ s.store.db.eventIds ∧
      p ∈ s.store.db.endpointIds ∧ ∀ event ∈ s.store.db.events, event.id = e →
        ∀ q ∈ s.store.db.endpoints, q.id = p → event.eventType ∈ q.eventTypes) := by
  rcases State.outstanding_iff.1 h with ⟨m, hm, target⟩ | ⟨t', ht, retry⟩
  · left
    rcases hs.message_cases hm with hm | ⟨_, -, rfl⟩ | ⟨i, t, d, result, found, hd, stage, -, rfl⟩
    · exact State.outstanding_iff.2 (.inl ⟨m, hm, target⟩)
    · simp [Message.targets] at target
    · -- The delivery that schedules the message was itself one that may retry.
      obtain ⟨he, hp⟩ := Message.targets_iff.1 target
      have hp : d.endpoint.id = p := Option.some.inj hp
      refine State.outstanding_iff.2 (.inr ⟨t, List.mem_of_getElem? found, ?_⟩)
      rw [hd]
      have he : d.event.id = e := he
      simp [Call.mayRetry, he, hp, stage, Stage.mayRetry]
  · rcases hs.task_cases inv ht with old | ⟨new, -⟩ | ⟨i, b, t, -, found, record, moved⟩
    · exact .inl (State.outstanding_iff.2 (.inr ⟨t', old, retry⟩))
    · rw [new] at retry
      cases retry
    · have ht := List.mem_of_getElem? found
      rcases moved.mayRetry retry with before | ⟨resolved, same⟩
      · exact .inl (State.outstanding_iff.2 (.inr ⟨t, ht, before⟩))
      · rw [resolved] at retry
        obtain ⟨he, hp, target | subscribed⟩ := mayRetry_resolve s.store.db.valid retry
        · exact .inl (State.outstanding_iff.2 (.inl
            ⟨_, .inl ⟨t.record, inv.tasks t ht, rfl⟩, target⟩))
        · exact .inr ⟨same, he, hp, subscribed⟩

theorem Subscribed.step (h : Subscribed e p s) (inv : ConsumerGroup.Inv (fun _ => 0) s.group)
    (hs : Transition cfg s a s') (kept : s.strands a = false) : Subscribed e p s' := by
  refine ⟨fun now => ?_, fun now => ?_, fun now event he hid q hq hqid => ?_⟩ <;>
    rcases hs.outstanding_cases inv now with before | ⟨same, known, exist, subscribed⟩
  · exact hs.evolves.eventIds (h.event before)
  · rwa [same]
  · exact hs.evolves.issued p (h.issued before)
  · rw [same]
    obtain ⟨x, hx, rfl⟩ := Tables.mem_endpointIds.1 exist
    exact s.store.db.valid.endpoints_issued x hx
  · -- The event is the old row, whose type a step keeps.
    obtain ⟨event₀, he₀, hid₀⟩ := Tables.mem_eventIds.1 (h.event before)
    obtain ⟨event', he', hid', type⟩ := hs.evolves.events event₀ he₀
    have same : event = event' := Tables.eq_of_nodup_map s'.store.db.valid.events_pkey he he'
      (hid.trans (hid'.trans hid₀).symm)
    rw [same, type]
    rcases hs.endpoint_cases hq with old | fresh | ⟨id, body, x, x', rfl, found, applied, rfl⟩
    · exact h.types before event₀ he₀ hid₀ q old hqid
    · exact absurd (hqid ▸ h.issued before) fresh
    · have hqid : id = p := hqid
      subst hqid
      obtain ⟨hx, hxid⟩ := Tables.getEndpoint_some found
      have had := h.types before event₀ he₀ hid₀ x hx hxid
      by_contra gone
      simp only [State.strands, found, applied, Option.any_some, List.any_eq_false,
        Bool.and_eq_true, not_and] at kept
      have gone : event₀.eventType ∉ x'.eventTypes := gone
      exact kept event₀ he₀ ⟨by simpa using had, by simpa using gone⟩ (hid₀ ▸ before)
  · rw [same] at he hq
    exact subscribed event he hid q hq hqid

theorem subscribed {as : List Action} (run : Lts.Run (State.step cfg) Unstranding initial as s)
    (e p : UUID) : Subscribed e p s := by
  refine run.invariant_from (I := Subscribed e p) (fun s a s' reach h kept hs => ?_) (.refl initial) ?_
  · exact h.step (group_inv reach) (step_transition hs) kept
  · have none : initial.outstanding e p ≠ true := by
      rw [show initial.outstanding e p = false from rfl]
      exact Bool.false_ne_true
    exact ⟨fun h => absurd h none, fun h => absurd h none, fun h => absurd h none⟩

/-- **When events are routed to subscribed endpoints.** In every run in which no update takes an event
type away from an endpoint that has a retry of such an event outstanding: when a call resolves its
targets, for a fan-out as for a targeted retry, each of them is at that moment an enabled endpoint
with the event's type among its event types. -/
theorem routed_to_subscribed {as : List Action}
    (run : Lts.Run (State.step cfg) Unstranding initial as s) {i : Nat}
    (hs : s.step cfg (.task i .resolve) = some s') {d : Delivery} (routed : s'.delivery i = some d)
    {q : Endpoint} (hq : q ∈ d.endpoint :: d.rest) :
    q ∈ s.store.db.endpoints ∧ q.enabled = true ∧ d.event.eventType ∈ q.eventTypes := by
  have reach : Reachable cfg s := ⟨as, run.any⟩
  cases step_transition hs with
  | @task _ _ t _ call found moved =>
    obtain ⟨worker, r, c⟩ := t
    obtain ⟨t', found', hd⟩ := State.delivery_eq_some.1 routed
    have bound := (List.getElem?_eq_some_iff.1 found).1
    rw [List.getElem?_set_self bound, Option.some.injEq] at found'
    subst found'
    cases moved with
    | resolve =>
      obtain ⟨known, -, -, ht⟩ := resolveTargets_eq hd
      obtain ⟨he, hid⟩ := Tables.getEvent_some known
      rw [ht] at hq
      rcases mem_targets.1 hq with ⟨p, target, here, enabled⟩ | ⟨-, matching⟩
      · obtain ⟨exist, rfl⟩ := Tables.getEndpoint_some here
        have present := (group_inv reach).tasks _ (List.mem_of_getElem? found)
        have outstanding : s.outstanding d.event.id q.id = true := State.outstanding_iff.2
          (.inl ⟨r.value, .inl ⟨r, present, rfl⟩, Message.targets_iff.2 ⟨hid.symm, target⟩⟩)
        exact ⟨exist, enabled, (subscribed run _ _).types outstanding _ he rfl q exist rfl⟩
      · exact Tables.mem_matching.1 matching

end

/-- A retry is scheduled, the endpoint is unsubscribed, and the retry is routed to it all the same. -/
theorem routed_to_unsubscribed :
    ¬ ∀ (cfg : Settings) (s s' : State) (i : Nat) (d : Delivery) (q : Endpoint), Reachable cfg s →
      s.step cfg (.task i .resolve) = some s' → s'.delivery i = some d → q ∈ d.endpoint :: d.rest →
      q.enabled = true ∧ d.event.eventType ∈ q.eventTypes := by
  intro claim
  obtain ⟨s, run, h⟩ := Lts.Run.of_check_any (C := fun _ _ => true) (s := initial)
    (p := fun s => (s.step {} (.task 0 .resolve)).any fun s' => (s'.delivery 0).any fun d =>
      !d.endpoint.eventTypes.contains d.event.eventType)
    (show (Lts.check (State.step {}) _ _ (samplePublished ++
      handOut 0 [sampleRecord 0 (.fanOut (.ofNat 2))] ++ [.task 0 .resolve] ++ attempt 0 500 ++
      [.task 0 (.schedule 10), .finish 0 .returned,
        .updateEndpoint (.ofNat 1) { eventTypes := some (some ["order.deleted"]) },
        .scheduler 0 (.poll 10), .scheduler 0 (.publish 0 1), .scheduler 0 .cancel] ++
      handOut 0 [sampleRecord 1 (.retry (.ofNat 2) (.ofNat 1) 1)])).any _ = true by decide +kernel)
  simp only [Option.any_eq_true, Bool.not_eq_true', List.contains_eq_mem,
    decide_eq_false_iff_not] at h
  obtain ⟨s', step, d, routed, unsubscribed⟩ := h
  exact unsubscribed (claim {} s s' 0 d d.endpoint ⟨_, run.any⟩ step routed List.mem_cons_self).2

/-- The retry of an endpoint whose subscription stays is routed to it. -/
theorem routed_to_subscribed_retry :
    ∃ (s s' : State) (d : Delivery), s.step {} (.task 0 .resolve) = some s' ∧
      s'.delivery 0 = some d ∧ d.endpoint ∈ s.store.db.endpoints ∧ d.endpoint.enabled = true ∧
      d.event.eventType ∈ d.endpoint.eventTypes := by
  obtain ⟨s, run, h⟩ := Lts.Run.of_check_any (C := fun s a => !s.strands a) (s := initial)
    (p := fun s => (s.step {} (.task 0 .resolve)).any fun s' => (s'.delivery 0).isSome)
    (show (Lts.check (State.step {}) _ _ (samplePublished ++
      handOut 0 [sampleRecord 0 (.fanOut (.ofNat 2))] ++ [.task 0 .resolve] ++ attempt 0 500 ++
      [.task 0 (.schedule 10), .finish 0 .returned,
        .updateEndpoint (.ofNat 1) { eventTypes := some (some ["order.created", "order.deleted"]) },
        .scheduler 0 (.poll 10), .scheduler 0 (.publish 0 1), .scheduler 0 .cancel] ++
      handOut 0 [sampleRecord 1 (.retry (.ofNat 2) (.ofNat 1) 1)])).any _ = true by decide +kernel)
  simp only [Option.any_eq_true, Option.isSome_iff_exists] at h
  obtain ⟨s', step, d, routed⟩ := h
  have run := run.mono (D := Unstranding) fun s a h => by simpa using h
  exact ⟨s, s', d, step, routed, routed_to_subscribed run step routed List.mem_cons_self⟩

end HookRelay
