import HookRelay.Lib.Handover
import HookRelay.Provenance

/-!
# No accepted event is lost for an endpoint

The duty to deliver is handed over along the attempt numbers: a record of attempt `n` is only
done with when the pair is settled, or when attempt `n + 1` waits in Redis or was published. A
scheduler may cancel an entry that another chain has just written again, but it has published
that number before, so the highest number ever published has an unprocessed record or a retry
entry. A record that was not processed lies at or after its partition's committed position.
-/

namespace HookRelay

/-- The message asks for a delivery of the event to the endpoint, or to all that match. -/
def Message.Concerns (m : Message) (eventId endpointId : UUID) : Prop :=
  m.eventId = eventId ∧ (m.endpointId = none ∨ m.endpointId = some endpointId)

/-- The call is through with the endpoint. -/
def Call.Past (endpointId : UUID) : Call → Prop
  | .resolving => False
  | .delivering d => ∀ q ∈ d.endpoint :: d.rest, q.id ≠ endpointId
  | .finished => True

theorem Call.past_iff {c : Call} {p : UUID} : c.Past p ↔ c ≠ .resolving ∧ p ∉ c.ahead := by
  cases c <;> simp [Call.Past, Call.ahead, eq_comm]

/-! ## Getting past an endpoint -/

section Calls

variable {cfg : Settings} {st st' : Store} {r : Record Message} {c c' : Call} {a : TaskAction}
  {e p : UUID}

theorem deliverNext_past {event : Event} {n : Nat} {ps : List Endpoint} :
    (deliverNext event n ps).Past p ↔ ∀ q ∈ ps, q.id ≠ p := by
  cases ps <;> simp [deliverNext, Call.Past]

theorem Delivery.past_of_next {d : Delivery} (h : d.next.Past p) (ne : d.endpoint.id ≠ p) :
    (Call.delivering d).Past p := by
  rw [Delivery.next, deliverNext_past] at h
  intro q hq
  rcases List.mem_cons.1 hq with rfl | hq
  · exact ne
  · exact h q hq

/-- The event exists, and the endpoint is enabled and subscribed to its type. -/
def Tables.Matches (t : Tables) (e p : UUID) : Prop :=
  ∃ event ∈ t.events, event.id = e ∧ ∃ q ∈ t.matching event.eventType, q.id = p

instance (t : Tables) (e p : UUID) : Decidable (t.Matches e p) :=
  inferInstanceAs (Decidable (∃ event ∈ t.events, event.id = e ∧
    ∃ q ∈ t.matching event.eventType, q.id = p))

/-- A message that concerns a matching pair resolves to its endpoint. -/
theorem Tables.Matches.not_past {t : Tables} (v : t.Valid) (h : t.Matches e p) {m : Message}
    (hm : m.Concerns e p) : ¬ (resolveTargets t m).Past p := by
  obtain ⟨event, he, rfl, q, hq, rfl⟩ := h
  have here : q ∈ targets t event m := by
    rcases hm.2 with none | target
    · exact mem_targets.2 (.inr ⟨none, hq⟩)
    · exact mem_targets.2 (.inl ⟨q.id, target, v.getEndpoint_eq (Tables.mem_matching.1 hq).1,
        (Tables.mem_matching.1 hq).2.1⟩)
  rw [resolveTargets, hm.1, v.getEvent_eq he]
  exact fun past => deliverNext_past.1 past q here rfl

/-- What the delivery to the endpoint was when the call got past it: a prior success, a POST just
answered with success, a scheduled retry, or a dead letter. -/
inductive Passes (st st' : Store) (e p : UUID) (n : Nat) : Call → Prop where
  | prior {d : Delivery} (success : st.db.hasSuccess e p = true) : Passes st st' e p n (.delivering d)
  | success {d : Delivery} {result : HttpResult} (endpoint : d.endpoint.id = p)
      (stage : d.stage = .recording result) (success : result.succeeded = true) :
      Passes st st' e p n (.delivering d)
  | scheduled {d : Delivery} {result : HttpResult} (endpoint : d.endpoint.id = p)
      (stage : d.stage = .failed result) (held : st'.redis.Holds ⟨e, p, n + 1⟩) :
      Passes st st' e p n (.delivering d)
  | deadLettered {d : Delivery} (endpoint : d.endpoint.id = p) (stage : d.stage = .notifying) :
      Passes st st' e p n (.delivering d)

theorem Moves.past (h : Moves cfg st r c a st' c') (hc : c.From r.value) (event : r.value.eventId = e)
    (resolved : c = .resolving → ¬ c'.Past p) (past : c'.Past p) :
    c.Past p ∨ Passes st st' e p r.value.attempt c := by
  have split : ∀ {d : Delivery}, d.next.Past p →
      (d.endpoint.id = p → Passes st st' e p r.value.attempt (.delivering d)) →
      (Call.delivering d).Past p ∨ Passes st st' e p r.value.attempt (.delivering d) := by
    intro d hn here
    by_cases he : d.endpoint.id = p
    · exact .inr (here he)
    · exact .inl (d.past_of_next hn he)
  cases h with
  | resolve => exact absurd past (resolved rfl)
  | skip stage prior =>
    refine split past fun he => .prior ?_
    rwa [← event, ← (hc _ rfl).event, ← he]
  | pass | post | dlqConflict | insertDlq | cancel | cancelFailed => exact .inl past
  | conflict stage | record stage =>
    split at past
    · exact split past fun he => .success he stage ‹_›
    · exact .inl past
  | schedule stage =>
    refine split past fun he => .scheduled he stage (RedisRetryScheduler.holds_schedule.2 (.inl ?_))
    simp [Delivery.nextMember, (hc _ rfl).event, (hc _ rfl).attempt, he, event]
  | notify stage | notifyFailed stage => exact split past fun he => .deadLettered he stage

/-- A call in `move_to_dlq` behind its insert was there before the step, or the step was the insert:
the pair has a dead letter, and one that it had before was not being deleted. -/
theorem Moves.deadLettered (h : Moves cfg st r c a st' c') {d' : Delivery}
    (hd : c' = .delivering d') (stage : d'.stage = .cancelling ∨ d'.stage = .notifying) :
    ∃ d, c = .delivering d ∧ d'.event = d.event ∧ d'.endpoint = d.endpoint ∧
      (d.stage = .cancelling ∨ (∃ id, a = .insertDlq id) ∧
        st'.db.HasDlq d.event.id d.endpoint.id ∧
        ∀ x ∈ st.db.dlq, x.eventId = d.event.id → x.endpointId = d.endpoint.id →
          st.dlqDeleting x.id = false) := by
  have new : ∀ {event : Event} {n : Nat} {ps : List Endpoint},
      deliverNext event n ps ≠ .delivering d' := by
    intro event n ps h
    rw [(deliverNext_eq h).2.2.1] at stage
    simp at stage
  cases h with
  | resolve =>
    rw [(resolveTargets_eq hd).2.2.1] at stage
    simp at stage
  | skip | schedule | notify | notifyFailed => exact absurd hd new
  | pass | post => cases hd; simp at stage
  | conflict | record =>
    split at hd
    · exact absurd hd new
    · cases hd; simp at stage
  | dlqConflict _ _ taken settled => cases hd; exact ⟨_, rfl, rfl, rfl, .inr ⟨⟨_, rfl⟩, taken, settled⟩⟩
  | insertDlq _ _ free _ _ _ tables =>
    cases hd
    refine ⟨_, rfl, rfl, rfl, .inr ⟨⟨_, rfl⟩, ?_, fun x hx he hp => absurd ⟨x, hx, he, hp⟩ free⟩⟩
    rw [tables]
    exact ⟨_, List.mem_append_right _ (List.mem_singleton_self _), rfl, rfl⟩
  | cancel here | cancelFailed here => cases hd; exact ⟨_, rfl, rfl, rfl, .inl here⟩

end Calls

/-! ## The duty to deliver -/

/-- The pair needs no further delivery. -/
def Store.Settled (st : Store) (e p : UUID) : Prop := st.db.HasDlq e p ∨ st.Answered e p

/-- A record of attempt `n` of the pair is in the topic. -/
def State.Published (s : State) (e p : UUID) (n : Nat) : Prop :=
  ∃ r ∈ s.group.log, r.value.Concerns e p ∧ r.value.attempt = n

/-- Attempt `n` is done with. -/
def State.HandedOn (s : State) (e p : UUID) (n : Nat) : Prop :=
  s.store.Settled e p ∨ s.store.redis.Holds ⟨e, p, n + 1⟩ ∨ s.Published e p (n + 1)

/-- No operator asks for a retry, a replay or the deletion of a dead letter. -/
def Action.unattended : Action → Bool
  | .retryEvent _ | .replayDlq _ | .deleteDlq _ => false
  | _ => true

/-- The endpoint is neither patched nor deleted. -/
def Action.spares (p : UUID) : Action → Bool
  | .updateEndpoint id _ | .deleteEndpoint id => id ≠ p
  | _ => true

abbrev Unattended (_ : State) (a : Action) : Prop := a.unattended = true

abbrev Undisturbed (p : UUID) (_ : State) (a : Action) : Prop :=
  (a.unattended && a.spares p) = true

structure Owed (e p : UUID) (s : State) : Prop where
  requests : s.store.requests = []
  pair : s.store.db.Matches e p
  processed : ∀ r ∈ s.group.processed, r.value.Concerns e p → s.HandedOn e p r.value.attempt
  past : ∀ t ∈ s.group.tasks, t.record.value.Concerns e p → t.data.Past p →
    s.HandedOn e p t.record.value.attempt
  deadLettered : ∀ t ∈ s.group.tasks, ∀ d, t.data = .delivering d →
    d.stage = .cancelling ∨ d.stage = .notifying → d.event.id = e → d.endpoint.id = p →
    s.store.db.HasDlq e p
  outbox : (∃ o ∈ s.store.db.outbox, o.eventId = e) ∨ ∃ r ∈ s.group.log, r.value = .fanOut e

section Step

variable {cfg : Settings} {s s' : State} {a : Action} {e p : UUID}

/-- Without operators no request is ever opened. -/
theorem requests_step (h : s.store.requests = []) (hs : Transition cfg s a s')
    (quiet : a.unattended = true) : s'.store.requests = [] := by
  cases hs with
  | retryEvent | replayDlq | deleteDlq => cases quiet
  | requestPublish found | requestDelete found | requestCommit found | requestAbort found =>
    rw [h] at found; cases found
  | task _ moved => rw [← h]; exact moved.requests_eq
  | _ => exact h

/-- The endpoint stays as it is, and the event keeps its type. -/
theorem matches_step (hs : Transition cfg s a s') (spared : a.spares p = true)
    (h : s.store.db.Matches e p) : s'.store.db.Matches e p := by
  obtain ⟨event, he, rfl, q, hq, rfl⟩ := h
  obtain ⟨event', he', hid, ht⟩ := hs.evolves.events event he
  obtain ⟨hq, rest⟩ := Tables.mem_matching.1 hq
  refine ⟨event', he', hid, q, Tables.mem_matching.2 ⟨?_, ht ▸ rest⟩, rfl⟩
  cases hs with
  | createEndpoint _ tables => rw [State.setDb, tables]; exact List.mem_append_left _ hq
  | @updateEndpoint id =>
    have ne : q.id ≠ id := fun he => by simp [Action.spares, he] at spared
    exact List.mem_map.2 ⟨q, hq, if_neg ne⟩
  | @deleteEndpoint id =>
    have ne : q.id ≠ id := fun he => by simp [Action.spares, he] at spared
    exact List.mem_filter.2 ⟨hq, decide_eq_true ne⟩
  | ingest _ _ tables => rw [State.setDb, tables]; exact hq
  | task _ moved => exact moved.endpoints_eq ▸ hq
  | _ => exact hq

/-- Nothing removes a dead letter of the pair. -/
theorem hasDlq_step (none : s.store.requests = []) (hs : Transition cfg s a s')
    (quiet : (a.unattended && a.spares p) = true) (h : s.store.db.HasDlq e p) :
    s'.store.db.HasDlq e p := by
  obtain ⟨d, hd, he, rfl⟩ := h
  rcases hs.dlq_kept hd with kept | rfl | ⟨rfl, -⟩ | ⟨i, q, r, rows, -, found, -⟩
  · exact ⟨d, kept, he, rfl⟩
  · simp [Action.spares] at quiet
  · cases quiet
  · rw [none] at found; cases found

section Owed

variable (h : Owed e p s) (inv : ConsumerGroup.Inv (fun _ => 0) s.group)
  (prov : Provenance s) (hs : Transition cfg s a s') (quiet : Undisturbed p s a)
include h hs quiet

theorem Owed.settled_mono (hset : s.store.Settled e p) : s'.store.Settled e p :=
  hset.imp (hasDlq_step h.requests hs quiet) (·.mono hs)

include prov in
/-- What is handed on stays so: an entry is cancelled only after its message was published, or
when the pair has a dead letter. -/
theorem Owed.handedOn_mono {n : Nat} (hn : s.HandedOn e p n) : s'.HandedOn e p n := by
  rcases hn with settled | held | ⟨r, hr, hx⟩
  · exact .inl (h.settled_mono hs quiet settled)
  · rcases hs.holds_cases held with held | ⟨i, t, d, -, found, hd, stage, key⟩ |
      ⟨w, m, rest, -, found, he, target, hn⟩
    · exact .inr (.inl held)
    · left
      refine h.settled_mono hs quiet (.inl ?_)
      simp only [Delivery.member, Member.mk.injEq] at key
      exact h.deadLettered t (List.mem_of_getElem? found) d hd (.inl stage) key.1 key.2.1
    · obtain ⟨r, hr, rfl⟩ := prov.cancelling m rest (List.mem_of_getElem? found)
      exact .inr (.inr ⟨r, hs.log_mono hr, ⟨he, .inr target⟩, hn⟩)
  · exact .inr (.inr ⟨r, hs.log_mono hr, hx⟩)

include prov in
theorem Owed.processed_step : ∀ r ∈ s'.group.processed, r.value.Concerns e p →
    s'.HandedOn e p r.value.attempt := by
  intro r hr hc
  apply h.handedOn_mono prov hs quiet
  rcases hs.processed_cases hr with old | ⟨i, t, -, found, rfl, ended⟩
  · exact h.processed r old hc
  · exact h.past t (List.mem_of_getElem? found) hc (by rw [ended]; trivial)

include inv prov in
theorem Owed.past_step : ∀ t ∈ s'.group.tasks, t.record.value.Concerns e p → t.data.Past p →
    s'.HandedOn e p t.record.value.attempt := by
  intro t' ht concerns past
  rcases hs.task_cases inv ht with old | ⟨new, -⟩ | ⟨i, b, t, -, found, record, moved⟩
  · exact h.handedOn_mono prov hs quiet (h.past t' old concerns past)
  · rw [new] at past; cases past
  rw [record] at concerns ⊢
  have ht := List.mem_of_getElem? found
  have settled := h.settled_mono hs quiet
  -- The endpoint is among the targets whenever the record is resolved.
  have resolved : t.data = .resolving → ¬ t'.data.Past p := by
    intro hr
    rw [hr] at moved
    rw [moved.resolving.2]
    exact h.pair.not_past s.store.db.valid concerns
  rcases moved.past (prov.calls t ht) concerns.1 resolved past with already | passes
  · exact h.handedOn_mono prov hs quiet (h.past t ht concerns already)
  generalize hc : t.data = c at passes moved
  cases passes with
  | prior success => exact .inl (settled (.inr (prov.of_hasSuccess success)))
  | success endpoint stage success =>
    have answered := prov.of_succeeded ht hc stage success
    rw [(prov.calls t ht _ hc).event, concerns.1, endpoint] at answered
    exact .inl (settled (.inr answered))
  | scheduled _ _ held => exact .inr (.inl held)
  | @deadLettered d endpoint stage =>
    refine .inl (settled (.inl (h.deadLettered t ht d hc (.inr stage) ?_ endpoint)))
    exact ((prov.calls t ht d hc).event).trans concerns.1

include inv in
theorem Owed.deadLettered_step : ∀ t ∈ s'.group.tasks, ∀ d, t.data = .delivering d →
    d.stage = .cancelling ∨ d.stage = .notifying → d.event.id = e → d.endpoint.id = p →
    s'.store.db.HasDlq e p := by
  intro t' ht d' hd stage he hp
  rcases hs.task_cases inv ht with old | ⟨new, -⟩ | ⟨i, b, t, -, found, -, moved⟩
  · exact hasDlq_step h.requests hs quiet (h.deadLettered t' old d' hd stage he hp)
  · rw [new] at hd; cases hd
  · obtain ⟨d, hd, event, endpoint, here⟩ := moved.deadLettered hd stage
    rw [event] at he
    rw [endpoint] at hp
    rcases here with stage | ⟨-, here, -⟩
    · exact hasDlq_step h.requests hs quiet
        (h.deadLettered t (List.mem_of_getElem? found) d hd (.inl stage) he hp)
    · rwa [he, hp] at here

include prov in
omit quiet in
theorem Owed.outbox_step :
    (∃ o ∈ s'.store.db.outbox, o.eventId = e) ∨ ∃ r ∈ s'.group.log, r.value = .fanOut e := by
  rcases h.outbox with ⟨o, ho, rfl⟩ | ⟨r, hr, he⟩
  · rcases hs.outbox_kept ho with ho | ⟨w, done, -, found, o', ho', same⟩
    · exact .inl ⟨o, ho, rfl⟩
    · -- The relay published the very row it deletes.
      have hr := List.mem_of_getElem? found
      obtain ⟨r, hlog, he⟩ := prov.relayed _ hr o' ho'
      rw [(prov.locked _ hr o' (List.mem_append_right _ ho')).unique o ho same.symm]
      exact .inr ⟨r, hs.log_mono hlog, he⟩
  · exact .inr ⟨r, hs.log_mono hr, he⟩

include inv prov in
theorem Owed.step : Owed e p s' where
  requests := requests_step h.requests hs (Bool.and_eq_true_iff.1 quiet).1
  pair := matches_step hs (Bool.and_eq_true_iff.1 quiet).2 h.pair
  processed := h.processed_step prov hs quiet
  past := h.past_step inv prov hs quiet
  deadLettered := h.deadLettered_step inv hs quiet
  outbox := h.outbox_step prov hs

end Owed

/-- At its ingestion the event is owed to the endpoint: nothing names it yet. -/
theorem Owed.of_ingest {s₀ s₁ : State} {outboxId : UUID} {body : EventCreate}
    (inv : ConsumerGroup.Inv (fun _ => 0) s₀.group) (prov : Provenance s₀)
    (none : s₀.store.requests = []) (endpoint : ∃ q ∈ s₀.store.db.matching body.eventType, q.id = p)
    (hs : Transition cfg s₀ (.ingest e outboxId body) s₁) (new : e ∉ s₀.store.db.eventIds)
    (committed : e ∈ s₁.store.db.eventIds) : Owed e p s₁ := by
  have unnamed : ∀ r ∈ s₀.group.log, r.value.eventId ≠ e := fun r hr he =>
    new (he ▸ prov.messages _ (.inl ⟨r, hr, rfl⟩))
  obtain ⟨q, hq, rfl⟩ := endpoint
  cases hs with
  | ingestKnown => exact absurd committed new
  | @ingest id outboxId body db fresh freshOutbox tables =>
    exact {
      requests := none
      pair := ⟨body.event e, by rw [State.setDb, tables]; simp, rfl, q, by
        rw [State.setDb, Tables.matching, tables]; exact hq, rfl⟩
      processed := fun r hr hc => absurd hc.1 (unnamed r (prov.processed r hr))
      past := fun t ht hc => absurd hc.1 (unnamed _ (inv.tasks t ht))
      deadLettered := fun t ht d hd _ he _ => by
        rw [(prov.calls t ht d hd).event] at he
        exact absurd he (unnamed _ (inv.tasks t ht))
      outbox := .inl ⟨⟨outboxId, e⟩, by rw [State.setDb, tables]; simp, rfl⟩ }

/-- While the event is owed, the duty is passed along the attempt numbers published. -/
theorem Owed.passed (h : Owed e p s) :
    Handover.Passed (s.Published e p)
      (fun n => (∃ r ∈ s.group.log, r.value.Concerns e p ∧ r ∉ s.group.processed) ∨
        s.store.redis.Holds ⟨e, p, n + 1⟩)
      (s.store.Settled e p) := by
  rintro n ⟨r, hr, hc, rfl⟩
  by_cases hp : r ∈ s.group.processed
  · rcases h.processed r hp hc with settled | held | next
    · exact .inl settled
    · exact .inr (.inl (.inr held))
    · exact .inr (.inr next)
  · exact .inr (.inl (.inl ⟨r, hr, hc, hp⟩))

end Step

/-- **No accepted event is lost for an endpoint.** An event is accepted for an endpoint that is
enabled and subscribed to its type. Then, as long as the endpoint is left as it is and no operator
intervenes, in every state some run reaches an outbox row of the event exists, or a record for the
pair lies at or after its partition's committed position, or Redis holds a retry entry of the
pair, or the pair has a dead letter, or a POST of it was answered with success. -/
theorem accepted_event_never_lost {cfg : Settings} {s₀ s₁ s : State} {e outboxId : UUID}
    {body : EventCreate} {q : Endpoint} {as : List Action}
    (reach : Lts.Reachable (State.step cfg) Unattended initial s₀)
    (endpoint : q ∈ s₀.store.db.endpoints) (enabled : q.enabled = true)
    (subscribed : body.eventType ∈ q.eventTypes)
    (accepted : s₀.step cfg (.ingest e outboxId body) = some s₁)
    (new : e ∉ s₀.store.db.eventIds) (committed : e ∈ s₁.store.db.eventIds)
    (run : Lts.Run (State.step cfg) (Undisturbed q.id) s₁ as s) :
    (∃ o ∈ s.store.db.outbox, o.eventId = e) ∨
      (∃ r ∈ s.group.log, r.value.Concerns e q.id ∧ s.group.committed r.partition ≤ r.offset) ∨
      (∃ n, s.store.redis.Holds ⟨e, q.id, n⟩) ∨ s.store.db.HasDlq e q.id ∨
      s.store.Answered e q.id := by
  have none : s₀.store.requests = [] :=
    reach.invariant (I := fun s => s.store.requests = [])
      (fun _ _ _ h quiet hs => requests_step h (step_transition hs) quiet) rfl
  have owed : Owed e q.id s₁ :=
    .of_ingest (group_inv reach) (provenance reach) none
      ⟨q, Tables.mem_matching.2 ⟨endpoint, enabled, subscribed⟩, rfl⟩ (step_transition accepted)
      new committed
  have reach₁ : Reachable cfg s₁ := reach.any.next trivial accepted
  have owed : Owed e q.id s :=
    run.invariant_from (fun _ _ _ reach h quiet hs =>
      h.step (group_inv reach) (provenance reach) (step_transition hs) quiet) reach₁ owed
  have inv := group_inv (run.any.reachable reach₁)
  rcases owed.outbox with row | ⟨r, hr, he⟩
  · exact .inl row
  obtain ⟨bound, hb⟩ := (s.group.log.map (·.value.attempt)).toFinset.exists_nat_subset_range
  have bounded : ∀ n, s.Published e q.id n → n < bound := by
    rintro n ⟨r, hr, -, rfl⟩
    exact Finset.mem_range.1 (hb (List.mem_toFinset.2 (List.mem_map_of_mem hr)))
  have first : s.Published e q.id 0 := ⟨r, hr, by rw [he]; exact ⟨rfl, .inl rfl⟩, by rw [he]; rfl⟩
  rcases owed.passed.exists_held bounded first with (dlq | answered) | ⟨n, ⟨r, hr, hc, open_⟩ | held⟩
  · exact .inr (.inr (.inr (.inl dlq)))
  · exact .inr (.inr (.inr (.inr answered)))
  · refine .inr (.inl ⟨r, hr, hc, Nat.le_of_not_lt fun below => open_ ?_⟩)
    exact (inv.committed r.partition).below r hr rfl (Nat.zero_le _) below
  · exact .inr (.inr (.inl ⟨_, held⟩))

/-- The worker dies after its relay has published and before it commits, so the event is published
twice; the delivery of the first copy waits for a retry and its commit request is lost. -/
theorem accepted_event_not_lost_sample :
    ∃ s : State, s.store.db.outbox = [] ∧
      ((∃ o ∈ s.store.db.outbox, o.eventId = .ofNat 2) ∨
        (∃ r ∈ s.group.log, r.value.Concerns (.ofNat 2) (.ofNat 1) ∧
          s.group.committed r.partition ≤ r.offset) ∨
        (∃ n, s.store.redis.Holds ⟨.ofNat 2, .ofNat 1, n⟩) ∨
        s.store.db.HasDlq (.ofNat 2) (.ofNat 1) ∨ s.store.Answered (.ofNat 2) (.ofNat 1)) := by
  obtain ⟨s₀, run₀, h⟩ := Lts.Run.of_check_any (C := fun _ a => a.unattended) (s := initial)
    (p := fun s₀ => s₀.store.db.endpoints.any fun q =>
      decide (q.enabled = true ∧ "order.created" ∈ q.eventTypes ∧ q.id = .ofNat 1 ∧
        .ofNat 2 ∉ s₀.store.db.eventIds) &&
      (s₀.step {} (.ingest (.ofNat 2) (.ofNat 3) sampleEvent)).any fun s₁ =>
        decide (.ofNat 2 ∈ s₁.store.db.eventIds) &&
        (Lts.check (State.step {}) (fun _ a => a.unattended && a.spares q.id) s₁
          ([.loop .spawn, .relay 0 .select, .relay 0 (.publish 0 0), .loop (.crash 0),
            .relay 0 .select, .relay 0 (.publish 0 1), .relay 0 .commit, .loop (.assign 0 0)] ++
            handOut 0 [sampleRecord 0 (.fanOut (.ofNat 2))] ++ [.task 0 .resolve] ++
            attempt 0 500 ++
            [.task 0 (.schedule 5), .finish 0 .returned, .loop (.commitDrop 0)])).any fun s =>
          s.store.db.outbox.isEmpty)
    (show (Lts.check (State.step {}) _ _ [.createEndpoint (.ofNat 1) sampleEndpoint]).any _ = true by
      decide +kernel)
  simp only [Option.any_eq_true, List.any_eq_true, Bool.and_eq_true, decide_eq_true_eq,
    List.isEmpty_iff] at h
  obtain ⟨q, hq, ⟨enabled, subscribed, hp, new⟩, s₁, accepted, committed, s, run, empty⟩ := h
  exact ⟨s, empty, hp ▸ accepted_event_never_lost ⟨_, run₀⟩ hq enabled subscribed accepted new
    committed (.of_check run)⟩

end HookRelay
