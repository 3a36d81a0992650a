import HookRelay.Evolution

/-!
# Where calls, cancels and successes come from

What is true of every call, scheduler and relay because of the record, message or row it works
on: a call delivers the event of its record to endpoints its record addresses, a scheduler about
to cancel an entry has published its message, a relay that deletes a row has published its event,
and a success row stands for a POST that was answered with success.
-/

namespace HookRelay

/-- Some POST of the event to the endpoint was answered with success. -/
def Store.Answered (st : Store) (eventId endpointId : UUID) : Prop :=
  ∃ r post, .posted r post ∈ st.history ∧ post.eventId = eventId ∧ post.endpointId = endpointId ∧
    post.result.succeeded = true

/-- The happening is a POST of the event to the endpoint that was answered with success. -/
def Happening.answers (eventId endpointId : UUID) : Happening → Bool
  | .posted _ post =>
    post.eventId = eventId && post.endpointId = endpointId && post.result.succeeded
  | _ => false

theorem Store.answered_iff {st : Store} {e p : UUID} :
    st.Answered e p ↔ ∃ x ∈ st.history, x.answers e p = true := by
  constructor
  · rintro ⟨r, post, hx, rfl, rfl, success⟩
    exact ⟨_, hx, by simp [Happening.answers, success]⟩
  · rintro ⟨x, hx, ha⟩
    cases x with
    | posted r post =>
      simp only [Happening.answers, Bool.and_eq_true, decide_eq_true_eq] at ha
      exact ⟨r, post, hx, ha.1.1, ha.1.2, ha.2⟩
    | recorded | scheduled | published => cases ha

instance (st : Store) (e p : UUID) : Decidable (st.Answered e p) :=
  decidable_of_iff _ Store.answered_iff.symm

/-- The delivery and the ones behind it in the loop are what the message asks for. -/
structure Delivery.From (d : Delivery) (m : Message) : Prop where
  event : d.event.id = m.eventId
  attempt : d.attemptNumber = m.attempt
  target : ∀ q ∈ d.endpoint :: d.rest, ∀ p, m.endpointId = some p → q.id = p
  nodup : ((d.endpoint :: d.rest).map (·.id)).Nodup

def Call.From (c : Call) (m : Message) : Prop := ∀ d, c = .delivering d → d.From m

/-- A delivery behind its POST has the POST in the history. -/
def Call.Posted (c : Call) (r : Record Message) (history : List Happening) : Prop :=
  ∀ d, c = .delivering d → d.stage.requested = true →
    ∃ result, .posted r (d.post result) ∈ history ∧ ∀ x, d.stage.result = some x → x = result

/-- The row was read from the outbox: its event exists and no other row has its identifier. -/
structure Tables.Owns (t : Tables) (o : OutboxEntry) : Prop where
  event : o.eventId ∈ t.eventIds
  issued : o.id ∈ t.issued
  unique : ∀ o' ∈ t.outbox, o'.id = o.id → o' = o

structure Provenance (s : State) : Prop where
  processed : ∀ r ∈ s.group.processed, r ∈ s.group.log
  messages : ∀ m, s.Carries m → m.eventId ∈ s.store.db.eventIds
  fansOut : ∀ e, s.FansOut e → e ∈ s.store.db.eventIds
  calls : ∀ t ∈ s.group.tasks, t.data.From t.record.value
  posted : ∀ t ∈ s.group.tasks, t.data.Posted t.record s.store.history
  answered : ∀ a ∈ s.store.db.attempts, a.status = .success →
    s.store.Answered a.eventId a.endpointId
  cancelling : ∀ m rest, .cancelling m rest ∈ s.schedulers → ∃ r ∈ s.group.log, r.value = m
  relayed : ∀ relay ∈ s.relays, ∀ o ∈ relay.published,
    ∃ r ∈ s.group.log, r.value = .fanOut o.eventId
  locked : ∀ relay ∈ s.relays, ∀ o ∈ relay.locked, s.store.db.Owns o

/-! ## Calls -/

section Calls

variable {cfg : Settings} {st st' : Store} {r : Record Message} {c c' : Call} {a : TaskAction}

theorem deliverNext_from {event : Event} {n : Nat} {ps : List Endpoint} {m : Message}
    (he : event.id = m.eventId) (hn : n = m.attempt)
    (ht : ∀ q ∈ ps, ∀ p, m.endpointId = some p → q.id = p) (hd : (ps.map (·.id)).Nodup) :
    (deliverNext event n ps).From m := by
  intro d h
  obtain ⟨rfl, rfl, -, rfl⟩ := deliverNext_eq h
  exact ⟨he, hn, ht, hd⟩

theorem Delivery.From.next {d : Delivery} {m : Message} (h : d.From m) : d.next.From m :=
  deliverNext_from h.event h.attempt (fun q hq => h.target q (List.mem_cons_of_mem _ hq))
    (List.nodup_cons.1 h.nodup).2

theorem targets_nodup {db : Tables} (v : db.Valid) (event : Event) (m : Message) :
    ((targets db event m).map (·.id)).Nodup := by
  unfold targets
  split
  · apply Tables.nodup_map_filter
    cases db.getEndpoint _ <;> simp
  · exact Tables.nodup_map_filter _ v.endpoints_pkey

theorem resolveTargets_from {db : Tables} (v : db.Valid) (m : Message) :
    (resolveTargets db m).From m := by
  intro d h
  obtain ⟨found, hn, -, ht⟩ := resolveTargets_eq h
  refine ⟨(Tables.getEvent_some found).2, hn, fun q hq p hp => ?_, ht ▸ targets_nodup v _ _⟩
  rw [ht] at hq
  rcases mem_targets.1 hq with ⟨p', target, hf, -⟩ | ⟨untargeted, -⟩
  · rw [hp, Option.some.injEq] at target
    exact target ▸ (Tables.getEndpoint_some hf).2
  · rw [hp] at untargeted; cases untargeted

theorem Moves.from (h : Moves cfg st r c a st' c') (hc : c.From r.value) : c'.From r.value := by
  have goto : ∀ {d : Delivery} {stage : Stage}, d.From r.value → (d.goto stage).From r.value := by
    rintro d stage hd _ ⟨⟩
    exact ⟨hd.event, hd.attempt, hd.target, hd.nodup⟩
  cases h with
  | resolve => exact resolveTargets_from st.db.valid _
  | skip | schedule | notify | notifyFailed => exact (hc _ rfl).next
  | pass | post | dlqConflict | insertDlq | cancel | cancelFailed => exact goto (hc _ rfl)
  | conflict | record =>
    split
    · exact (hc _ rfl).next
    · exact goto (hc _ rfl)

theorem deliverNext_posted {event : Event} {n : Nat} {ps : List Endpoint} {H : List Happening} :
    (deliverNext event n ps).Posted r H := by
  intro d h requested
  rw [(deliverNext_eq h).2.2.1] at requested
  cases requested

theorem Moves.posted (h : Moves cfg st r c a st' c') (hc : c.Posted r st.history) :
    c'.Posted r st'.history := by
  have keep := fun {x : Happening} => h.history_mono (x := x)
  -- Behind the POST every stage is entered from one that has the same result or had it.
  have goto : ∀ {d : Delivery} {stage : Stage}, c = .delivering d → d.stage.requested = true →
      (∀ x, stage.result = some x → d.stage.result = some x) →
      (d.goto stage).Posted r st'.history := by
    rintro d stage hd requested same _ ⟨⟩ -
    obtain ⟨result, posted, hr⟩ := hc d hd requested
    exact ⟨result, keep posted, fun x hx => hr x (same x hx)⟩
  cases h with
  | resolve =>
    intro d h requested
    rw [(resolveTargets_eq h).2.2.1] at requested
    cases requested
  | skip | schedule | notify | notifyFailed => exact deliverNext_posted
  | pass => rintro _ ⟨⟩ ⟨⟩
  | @post d result =>
    rintro _ ⟨⟩ -
    exact ⟨result, List.mem_cons_self, fun x hx => (Option.some.inj hx).symm⟩
  | conflict stage | record stage =>
    split
    · exact deliverNext_posted
    · exact goto rfl (by simp [stage, Stage.requested]) (by simp [stage, Stage.result])
  | dlqConflict stage | insertDlq stage | cancel stage | cancelFailed stage =>
    exact goto rfl (by simp [stage, Stage.requested]) (by simp [Stage.result])

end Calls

/-! ## The invariant -/

section Step

variable {cfg : Settings} {s s' : State} {a : Action}

theorem Store.Answered.mono (hs : Transition cfg s a s') {e p : UUID}
    (h : s.store.Answered e p) : s'.store.Answered e p := by
  obtain ⟨r, post, hp, hx⟩ := h
  exact ⟨r, post, hs.history_mono hp, hx⟩

namespace Provenance

variable (h : Provenance s) (inv : ConsumerGroup.Inv (fun _ => 0) s.group)
  (hs : Transition cfg s a s')
include h hs

include inv in
omit h in
theorem processed_step (h : ∀ r ∈ s.group.processed, r ∈ s.group.log) :
    ∀ r ∈ s'.group.processed, r ∈ s'.group.log := by
  intro r hr
  apply hs.log_mono
  rcases hs.processed_cases hr with old | ⟨i, t, -, found, rfl, -⟩
  · exact h r old
  · exact inv.tasks t (List.mem_of_getElem? found)

include inv in
theorem calls_step : ∀ t ∈ s'.group.tasks, t.data.From t.record.value := by
  intro t' ht
  rcases hs.task_cases inv ht with old | ⟨new, -⟩ | ⟨i, b, t, -, found, record, moved⟩
  · exact h.calls t' old
  · intro d hd; rw [new] at hd; cases hd
  · exact record ▸ moved.from (h.calls t (List.mem_of_getElem? found))

include inv in
theorem posted_step : ∀ t ∈ s'.group.tasks, t.data.Posted t.record s'.store.history := by
  intro t' ht
  rcases hs.task_cases inv ht with old | ⟨new, -⟩ | ⟨i, b, t, -, found, record, moved⟩
  · intro d hd requested
    obtain ⟨result, posted, hr⟩ := h.posted t' old d hd requested
    exact ⟨result, hs.history_mono posted, hr⟩
  · intro d hd; rw [new] at hd; cases hd
  · exact record ▸ moved.posted (h.posted t (List.mem_of_getElem? found))

theorem answered_step : ∀ a ∈ s'.store.db.attempts, a.status = .success →
    s'.store.Answered a.eventId a.endpointId := by
  intro row hr success
  rcases hs.attempt_cases hr with old | ⟨i, t, d, result, -, found, hd, stage, rfl, -⟩
  · exact (h.answered row old success).mono hs
  · have ht := List.mem_of_getElem? found
    obtain ⟨_, posted, same⟩ := h.posted t ht d hd (by simp [stage, Stage.requested])
    cases same result (by simp [stage, Stage.result])
    exact ⟨_, _, hs.history_mono posted, rfl, rfl, HttpResult.succeeded_iff.2 success⟩

theorem cancelling_step : ∀ m rest, .cancelling m rest ∈ s'.schedulers →
    ∃ r ∈ s'.group.log, r.value = m := by
  intro m rest hm
  rcases hs.cancelling_cases hm with old | ⟨p, o, appended, -⟩
  · obtain ⟨r, hr, he⟩ := h.cancelling m rest old
    exact ⟨r, hs.log_mono hr, he⟩
  · exact ⟨⟨p, o, m⟩, ConsumerGroup.append_mem appended, rfl⟩

theorem relayed_step : ∀ relay ∈ s'.relays, ∀ o ∈ relay.published,
    ∃ r ∈ s'.group.log, r.value = .fanOut o.eventId := by
  intro relay hr o ho
  have old : ∀ relay ∈ s.relays, o ∈ relay.published →
      ∃ r ∈ s'.group.log, r.value = .fanOut o.eventId := fun relay hr ho => by
    obtain ⟨r, hr, he⟩ := h.relayed relay hr o ho
    exact ⟨r, hs.log_mono hr, he⟩
  rcases hs.relay_cases hr with hr | rfl | rfl | ⟨p, q, entry, todo, done, before, rfl, appended⟩
  · exact old relay hr ho
  · cases ho
  · cases ho
  · rcases List.mem_append.1 ho with ho | ho
    · exact old _ before ho
    · rw [List.mem_singleton.1 ho]
      exact ⟨⟨p, q, .fanOut entry.eventId⟩, ConsumerGroup.append_mem appended, rfl⟩

theorem locked_step : ∀ relay ∈ s'.relays, ∀ o ∈ relay.locked, s'.store.db.Owns o := by
  intro relay hr o ho
  -- Rows only leave the outbox, or come with an identifier that no relay has seen.
  have keep : ∀ {o}, s.store.db.Owns o → s'.store.db.Owns o := by
    intro o own
    refine ⟨hs.evolves.eventIds own.event, hs.evolves.issued _ own.issued, fun o' ho' he => ?_⟩
    rcases hs.outbox_cases ho' with ho' | ⟨fresh, -⟩
    · exact own.unique o' ho' he
    · exact absurd (he ▸ own.issued) fresh
  have old : ∀ relay ∈ s.relays, o ∈ relay.locked → s'.store.db.Owns o := fun relay hr ho =>
    keep (h.locked relay hr o ho)
  rcases hs.relay_cases hr with hr | rfl | rfl | ⟨_, _, entry, todo, done, before, rfl, -⟩
  · exact old relay hr ho
  · cases ho
  · have ho : o ∈ s.selectable := by simpa [Relay.locked] using ho
    have ho := (List.mem_filter.1 (List.mem_of_mem_take ho)).1
    have v := s.store.db.valid
    exact keep ⟨v.outbox_event_fkey o ho, v.outbox_issued o ho, fun o' ho' he =>
      Tables.eq_of_nodup_map v.outbox_pkey ho' ho he⟩
  · apply old _ before
    simp only [Relay.locked, List.mem_append, List.mem_cons, List.not_mem_nil, or_false] at ho ⊢
    tauto

include inv in
theorem messages_step : ∀ m, s'.Carries m → m.eventId ∈ s'.store.db.eventIds := by
  intro m hm
  apply hs.evolves.eventIds
  rcases hs.message_cases hm with hm | ⟨e, he, rfl⟩ | ⟨i, t, d, result, found, hd, -, -, rfl⟩
  · exact h.messages m hm
  · exact h.fansOut e he
  · have ht := List.mem_of_getElem? found
    change d.event.id ∈ _
    rw [(h.calls t ht d hd).event]
    exact h.messages _ (.inl ⟨_, inv.tasks t ht, rfl⟩)

theorem fansOut_step : ∀ e, s'.FansOut e → e ∈ s'.store.db.eventIds := by
  rintro e (⟨q, hq, rfl⟩ | ⟨relay, hr, o, ho, rfl⟩)
  · apply hs.evolves.eventIds
    rcases hs.request_cases hq with ⟨_, q, stage, found, rfl, -⟩ | ⟨_, found, -, rfl, -⟩ |
      ⟨d, found, -, rfl, -⟩
    · exact h.fansOut _ (.inl ⟨q, List.mem_of_getElem? found, rfl⟩)
    · exact found
    · exact s.store.db.valid.dlq_event_fkey d found
  · exact (h.locked_step hs relay hr o ho).event

end Provenance

theorem Provenance.initial : Provenance initial where
  processed r hr := by cases hr
  messages m hm := by rcases hm with ⟨r, hr, -⟩ | ⟨k, hk⟩ | ⟨sch, hsch, -⟩ <;> contradiction
  fansOut e he := by rcases he with ⟨q, hq, -⟩ | ⟨relay, hr, -⟩ <;> contradiction
  calls t ht := by cases ht
  posted t ht := by cases ht
  answered a ha := by cases ha
  cancelling m rest hm := by cases hm
  relayed relay hr := by cases hr
  locked relay hr := by cases hr

theorem Provenance.step (h : Provenance s) (inv : ConsumerGroup.Inv (fun _ => 0) s.group)
    (hs : Transition cfg s a s') : Provenance s' where
  processed := processed_step inv hs h.processed
  messages := h.messages_step inv hs
  fansOut := h.fansOut_step hs
  calls := h.calls_step inv hs
  posted := h.posted_step inv hs
  answered := h.answered_step hs
  cancelling := h.cancelling_step hs
  relayed := h.relayed_step hs
  locked := h.locked_step hs

theorem provenance {C : State → Action → Prop}
    (h : Lts.Reachable (State.step cfg) C HookRelay.initial s) : Provenance s :=
  h.invariant_with (fun _ => group_inv)
    (fun _ _ _ inv h _ hs => h.step inv (step_transition hs)) .initial

/-- A success row of the pair stands for a POST answered with success. -/
theorem Provenance.of_hasSuccess (h : Provenance s) {e p : UUID}
    (prior : s.store.db.hasSuccess e p = true) : s.store.Answered e p := by
  obtain ⟨a, ha, rfl, rfl, success⟩ := Tables.hasSuccess_iff.1 prior
  exact h.answered a ha success

/-- A delivery with a successful response in hand has made its POST. -/
theorem Provenance.of_succeeded (h : Provenance s) {t : Task Message Call} (ht : t ∈ s.group.tasks)
    {d : Delivery} (hd : t.data = .delivering d) {result : HttpResult}
    (stage : d.stage = .recording result) (success : result.succeeded = true) :
    s.store.Answered d.event.id d.endpoint.id := by
  obtain ⟨_, posted, same⟩ := h.posted t ht d hd (by simp [stage, Stage.requested])
  cases same result (by simp [stage, Stage.result])
  exact ⟨_, _, posted, rfl, rfl, success⟩

end Step
end HookRelay
