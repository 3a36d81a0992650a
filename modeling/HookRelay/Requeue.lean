import HookRelay.NoLoss

/-!
# Re-queueing drops only what it redelivers, where the endpoints still match

A `retry_event` or `replay_dlq_entry` request deletes dead letters by event or by identifier; the
record it publishes is delivered to the endpoints that match the event when it is resolved. The
two sets agree exactly on the dead letters whose endpoint is enabled and subscribed.
-/

namespace HookRelay

/-! ## What a request holds -/

/-- The record the request has published. -/
def Request.record (q : Request) : Option (Record Message) :=
  match q.stage with
  | .published r | .deleted r _ | .committed r _ => some r
  | .locked | .aborted => none

/-- The request publishes the fan-out of its event, and every dead letter it deletes is of that
event. -/
structure Request.Consistent (t : Tables) (q : Request) : Prop where
  record : ∀ r, q.record = some r → r.value = .fanOut q.eventId
  replay : ∀ id, q.kind = .replay id → id ∈ t.issued ∧ ∀ d ∈ t.dlq, d.id = id → d.eventId = q.eventId
  deleting : ∀ id ∈ q.deleting, id ∈ t.issued ∧ ∀ d ∈ t.dlq, d.id = id → d.eventId = q.eventId

section Requests

variable {cfg : Settings} {s s' : State} {a : Action}

/-- An identifier known of the event's dead letters stays so: new dead letters have new ones. -/
theorem dlqEvent_mono (hs : Transition cfg s a s') {id e : UUID}
    (h : id ∈ s.store.db.issued ∧ ∀ d ∈ s.store.db.dlq, d.id = id → d.eventId = e) :
    id ∈ s'.store.db.issued ∧ ∀ d ∈ s'.store.db.dlq, d.id = id → d.eventId = e := by
  refine ⟨hs.evolves.issued _ h.1, fun d hd he => ?_⟩
  rcases hs.dlq_cases hd with hd | ⟨_, _, _, _, -, -, -, -, -, -, fresh, -⟩
  · exact h.2 d hd he
  · exact absurd (he ▸ h.1) fresh

theorem deletes_consistent {t : Tables} {q : Request} (v : t.Valid) (h : q.Consistent t) {id : UUID}
    (hid : id ∈ State.deletes t q) :
    id ∈ t.issued ∧ ∀ d ∈ t.dlq, d.id = id → d.eventId = q.eventId := by
  cases hk : q.kind with
  | replay dlqId =>
    simp only [State.deletes, hk, List.mem_singleton] at hid
    exact hid ▸ h.replay dlqId hk
  | retry =>
    simp only [State.deletes, hk, List.mem_map, List.mem_filter, decide_eq_true_eq] at hid
    obtain ⟨d, ⟨hd, he⟩, rfl⟩ := hid
    refine ⟨v.dlq_issued d hd, fun d' hd' same => ?_⟩
    rw [Tables.eq_of_nodup_map v.dlq_pkey hd' hd same, he]

theorem requests_consistent_step (h : ∀ q ∈ s.store.requests, q.Consistent s.store.db.toTables)
    (hs : Transition cfg s a s') : ∀ q ∈ s'.store.requests, q.Consistent s'.store.db.toTables := by
  intro q' hq
  rcases hs.request_cases hq with ⟨i, q, stage, found, rfl, moved⟩ | ⟨id, -, -, rfl, -⟩ |
    ⟨d, hd, -, rfl, -⟩
  · have ok := h q (List.mem_of_getElem? found)
    refine ⟨?_, fun id hk => dlqEvent_mono hs (ok.replay id hk), fun id hid => ?_⟩
    · rcases moved with rfl | ⟨b, -, moved⟩
      · exact ok.record
      · cases moved with
        | publish => rintro _ ⟨⟩; rfl
        | delete stage | commit stage => rintro _ ⟨⟩; exact ok.record _ (by simp [Request.record, stage])
        | abort => rintro _ ⟨⟩
    · apply dlqEvent_mono hs
      rcases moved with rfl | ⟨b, -, moved⟩
      · exact ok.deleting id hid
      · cases moved with
        | publish | commit | abort => cases hid
        | delete => exact deletes_consistent s.store.db.valid ok hid
  · exact ⟨by rintro _ ⟨⟩, by rintro _ ⟨⟩, by rintro _ ⟨⟩⟩
  · refine ⟨by rintro _ ⟨⟩, ?_, by rintro _ ⟨⟩⟩
    rintro _ ⟨⟩
    have v := s.store.db.valid
    refine dlqEvent_mono hs ⟨v.dlq_issued d hd, fun d' hd' same => ?_⟩
    rw [Tables.eq_of_nodup_map v.dlq_pkey hd' hd same]

theorem requests_consistent (h : Reachable cfg s) :
    ∀ q ∈ s.store.requests, q.Consistent s.store.db.toTables :=
  h.invariant (I := fun s => ∀ q ∈ s.store.requests, q.Consistent s.store.db.toTables)
    (fun _ _ _ h _ hs => requests_consistent_step h (step_transition hs)) fun q hq => by cases hq

/-- A request that has published a record keeps it until it is rolled back. -/
theorem Transition.record_at (h : Transition cfg s a s') {i : Nat} {r : Record Message}
    (hq : ∃ q, s.store.requests[i]? = some q ∧ (q.record = some r ∨ q.stage = .aborted)) :
    ∃ q, s'.store.requests[i]? = some q ∧ (q.record = some r ∨ q.stage = .aborted) := by
  obtain ⟨q, hq, hr⟩ := hq
  obtain ⟨stage, found, moved⟩ := h.request_at hq
  refine ⟨_, found, ?_⟩
  rcases moved with ⟨rfl, -⟩ | ⟨b, -, moved⟩
  · exact hr
  · cases moved with
    | publish _ _ stage => simp [Request.record, stage] at hr
    | delete stage | commit stage => simpa [Request.record, stage] using hr
    | abort => exact .inr rfl

end Requests

/-! ## Endpoints that do not change -/

/-- No endpoint is created, patched or deleted. -/
def Action.fixesEndpoints : Action → Bool
  | .createEndpoint _ _ | .updateEndpoint _ _ | .deleteEndpoint _ => false
  | _ => true

abbrev FixedEndpoints (_ : State) (a : Action) : Prop := a.fixesEndpoints = true

section

variable {cfg : Settings} {s s' : State} {a : Action}

theorem endpoints_step (hs : Transition cfg s a s') (fixed : a.fixesEndpoints = true) :
    s'.store.db.endpoints = s.store.db.endpoints := by
  cases hs with
  | createEndpoint | updateEndpoint | deleteEndpoint => cases fixed
  | ingest _ _ tables => rw [State.setDb, tables]
  | task _ moved => exact moved.endpoints_eq
  | _ => rfl

theorem Action.spares_of_fixes (h : a.fixesEndpoints = true) (p : UUID) : a.spares p = true := by
  cases a <;> first | rfl | cases h

/-- The fan-out of an event is delivered exactly to the endpoints that match. -/
theorem mem_ahead_fanOut {t : Tables} (v : t.Valid) {e p : UUID} :
    p ∈ (resolveTargets t (.fanOut e)).ahead ↔ t.Matches e p := by
  constructor
  · intro h
    generalize hc : resolveTargets t (.fanOut e) = c at h
    cases c with
    | resolving | finished => cases h
    | delivering d =>
      obtain ⟨found, -, -, ht⟩ := resolveTargets_eq hc
      obtain ⟨he, hid⟩ := Tables.getEvent_some found
      obtain ⟨q, hq, rfl⟩ := List.mem_map.1 h
      rw [ht] at hq
      exact ⟨d.event, he, hid, q, hq, rfl⟩
  · intro h
    by_contra hp
    exact h.not_past v ⟨rfl, .inl rfl⟩ (Call.past_iff.2 ⟨resolveTargets_ne_resolving, hp⟩)

/-! ## Requests -/

/-- A request publishes the record `r` in the step from `s₀` to `s₁` and commits in the step from
`s₂` to `s₃`, with no endpoint change between. -/
structure State.Requeues (cfg : Settings) (i : Nat) (r : Record Message) (s₀ s₁ s₂ s₃ : State) :
    Prop where
  publish : s₀.step cfg (.request i (.publish r.partition r.offset)) = some s₁
  record : ∃ q, s₁.store.requests[i]? = some q ∧ q.record = some r
  run : ∃ as, Lts.Run (State.step cfg) FixedEndpoints s₁ as s₂
  commit : s₂.step cfg (.request i .commit) = some s₃

/-- The dead letters of `s` that are gone in `s'`. -/
def State.dropped (s s' : State) : List DLQEntry :=
  s.store.db.dlq.filter fun d => d.id ∉ s'.store.db.dlq.map (·.id)

/-- Processing the record made a POST of the event to the endpoint, or the pair has a success. -/
def State.Attempted (s : State) (r : Record Message) (e p : UUID) : Prop :=
  (∃ post, .posted r post ∈ s.store.history ∧ post.eventId = e ∧ post.endpointId = p) ∨
    s.store.db.hasSuccess e p = true

/-- Every call on the record that is through with a matching endpoint has attempted it. -/
structure Redelivers (r : Record Message) (e p : UUID) (s : State) : Prop where
  pair : s.store.db.Matches e p
  processed : r ∈ s.group.processed → s.Attempted r e p
  past : ∀ t ∈ s.group.tasks, t.record = r → t.data.Past p → s.Attempted r e p

/-- While no endpoint changes, a success stays recorded. -/
theorem success_fixed (hs : Transition cfg s a s') (fixed : a.fixesEndpoints = true) {e p : UUID}
    (success : s.store.db.hasSuccess e p = true) : s'.store.db.hasSuccess e p = true := by
  obtain ⟨row, hr, -, rfl, -⟩ := Tables.hasSuccess_iff.1 success
  have exist := s.store.db.valid.attempts_endpoint_fkey row hr
  apply hs.evolves.hasSuccess success
  rwa [Tables.endpointIds, endpoints_step hs fixed]

theorem State.Attempted.mono (hs : Transition cfg s a s') (fixed : a.fixesEndpoints = true)
    {r : Record Message} {e p : UUID} (h : s.Attempted r e p) : s'.Attempted r e p := by
  rcases h with ⟨post, posted, hx⟩ | success
  · exact .inl ⟨post, hs.history_mono posted, hx⟩
  · exact .inr (success_fixed hs fixed success)

theorem Redelivers.step {r : Record Message} {e p : UUID} (h : Redelivers r e p s)
    (hr : r.value = .fanOut e) (inv : ConsumerGroup.Inv (fun _ => 0) s.group) (prov : Provenance s)
    (hs : Transition cfg s a s') (fixed : a.fixesEndpoints = true) : Redelivers r e p s' where
  pair := matches_step hs (Action.spares_of_fixes fixed p) h.pair
  processed hp := by
    apply State.Attempted.mono hs fixed
    rcases hs.processed_cases hp with old | ⟨i, t, -, found, record, ended⟩
    · exact h.processed old
    · exact h.past t (List.mem_of_getElem? found) record (by rw [ended]; trivial)
  past t' ht hrec past := by
    rcases hs.task_cases inv ht with old | ⟨new, -⟩ | ⟨i, b, t, -, found, record, moved⟩
    · exact (h.past t' old hrec past).mono hs fixed
    · rw [new] at past; cases past
    have ht := List.mem_of_getElem? found
    rw [hrec] at record
    have resolved : t.data = .resolving → ¬ t'.data.Past p := by
      intro hres
      rw [hres] at moved
      rw [moved.resolving.2]
      exact h.pair.not_past s.store.db.valid (by rw [← record, hr]; exact ⟨rfl, .inl rfl⟩)
    have event : t.record.value.eventId = e := by rw [← record, hr]; rfl
    rcases moved.past (prov.calls t ht) event resolved past with already | passes
    · exact (h.past t ht record.symm already).mono hs fixed
    -- Behind its POST the delivery has left one in the history.
    have posted : ∀ d, t.data = .delivering d → d.endpoint.id = p → d.stage.requested = true →
        s'.Attempted r e p := by
      intro d hd endpoint requested
      obtain ⟨result, posted, -⟩ := prov.posted t ht d hd requested
      refine .inl ⟨_, hs.history_mono (record ▸ posted), ?_, endpoint⟩
      exact ((prov.calls t ht d hd).event).trans event
    generalize hc : t.data = c at passes
    cases passes with
    | prior success => exact State.Attempted.mono hs fixed (.inr success)
    | success endpoint stage => exact posted _ hc endpoint (by simp [stage, Stage.requested])
    | scheduled endpoint stage => exact posted _ hc endpoint (by simp [stage, Stage.requested])
    | deadLettered endpoint stage => exact posted _ hc endpoint (by simp [stage, Stage.requested])

/-- A published record is new: no call has been made on it. -/
theorem unseen_of_publish {r : Record Message} {i : Nat}
    (inv : ConsumerGroup.Inv (fun _ => 0) s.group) (prov : Provenance s)
    (hs : Transition cfg s (.request i (.publish r.partition r.offset)) s') :
    r ∉ s'.group.processed ∧ ∀ t ∈ s'.group.tasks, t.record ≠ r := by
  cases hs with
  | requestPublish found stage appended =>
    obtain ⟨rfl, behind⟩ := ConsumerGroup.append_eq_some appended
    have fresh : r ∉ s.group.log := fun hm => absurd (behind r hm rfl) (Nat.lt_irrefl _)
    exact ⟨fun hp => fresh (prov.processed r hp), fun t ht hr => fresh (hr ▸ inv.tasks t ht)⟩

theorem matches_fixed {e p : UUID} (he : e ∈ s.store.db.eventIds)
    (evolves : s.store.db.toTables.Evolves s'.store.db.toTables)
    (fixed : s'.store.db.endpoints = s.store.db.endpoints) :
    s'.store.db.Matches e p ↔ s.store.db.Matches e p := by
  obtain ⟨event, known, rfl⟩ := Tables.mem_eventIds.1 he
  obtain ⟨event', known', hid, ht⟩ := evolves.events event known
  have same : ∀ ty, s'.store.db.matching ty = s.store.db.matching ty := fun ty => by
    simp only [Tables.matching, fixed]
  constructor
  · rintro ⟨x, hx, hxe, q, hq, rfl⟩
    cases Tables.eq_of_nodup_map s'.store.db.valid.events_pkey hx known' (hxe.trans hid.symm)
    exact ⟨event, known, rfl, q, by rwa [same, ht] at hq, rfl⟩
  · rintro ⟨x, hx, hxe, q, hq, rfl⟩
    cases Tables.eq_of_nodup_map s.store.db.valid.events_pkey hx known hxe
    exact ⟨event', known', hid, q, by rwa [same, ht], rfl⟩

/-- While no endpoint changes, an existing event matches the same endpoints. -/
theorem matches_run {e p : UUID} {as : List Action} (he : e ∈ s.store.db.eventIds)
    (run : Lts.Run (State.step cfg) FixedEndpoints s as s') :
    s'.store.db.Matches e p ↔ s.store.db.Matches e p := by
  have both : e ∈ s'.store.db.eventIds ∧ (s'.store.db.Matches e p ↔ s.store.db.Matches e p) := by
    refine run.invariant (I := fun t => e ∈ t.store.db.eventIds ∧
      (t.store.db.Matches e p ↔ s.store.db.Matches e p)) (fun t a t' h fixed hs => ?_) ⟨he, .rfl⟩
    have hs := step_transition hs
    exact ⟨hs.evolves.eventIds h.1,
      (matches_fixed h.1 hs.evolves (endpoints_step hs fixed)).trans h.2⟩
  exact both.2

/-- The dead letters a commit drops are of the event the request has published. -/
theorem dropped_event {i : Nat} {r : Record Message} (reach : Reachable cfg s)
    (hs : s.step cfg (.request i .commit) = some s')
    (record : ∃ q, s.store.requests[i]? = some q ∧ (q.record = some r ∨ q.stage = .aborted))
    {d : DLQEntry} (hd : d ∈ s.dropped s') : d.eventId = r.value.eventId := by
  obtain ⟨hd, gone⟩ := List.mem_filter.1 hd
  have gone : d ∉ s'.store.db.dlq := fun h =>
    of_decide_eq_true gone (List.mem_map_of_mem h)
  obtain ⟨q, found, hr⟩ := record
  rcases (step_transition hs).dlq_kept hd with kept | ⟨⟨⟩⟩ | ⟨⟨⟩, -⟩ | ⟨j, q', r', rows, ha, found', stage, hid⟩
  · exact absurd kept gone
  · cases ha
    cases found.symm.trans found'
    have ok := requests_consistent reach q (List.mem_of_getElem? found)
    rw [stage] at hr
    have value := ok.record r (hr.resolve_right (by simp))
    rw [value]
    exact (ok.deleting d.id (by simpa [Request.deleting, stage] using hid)).2 d hd rfl

/-- **Re-queueing drops only what it redelivers, where the endpoints still match.** With no endpoint
change during the request: the dead letters its commit drops are of the event it published; the
published record is delivered to the endpoints of all of them if and only if each of these
endpoints is enabled and subscribed to the event's type; and once the record is processed, every
dropped pair whose endpoint is has been attempted again. -/
theorem requeue_redelivers_iff {s₀ s₁ s₂ s₃ : State} {i : Nat} {r : Record Message}
    {as : List Action} (reach : Reachable cfg s₀) (h : State.Requeues cfg i r s₀ s₁ s₂ s₃)
    (run : Lts.Run (State.step cfg) FixedEndpoints s₁ as s) :
    (∀ d ∈ s₂.dropped s₃, d.eventId = r.value.eventId) ∧
      ((∀ d ∈ s₂.dropped s₃, d.endpointId ∈ (resolveTargets s.store.db.toTables r.value).ahead) ↔
        ∀ d ∈ s₂.dropped s₃, s₀.store.db.Matches d.eventId d.endpointId) ∧
      (r ∈ s.group.processed → ∀ d ∈ s₂.dropped s₃,
        s₀.store.db.Matches d.eventId d.endpointId → s.Attempted r d.eventId d.endpointId) := by
  have publish := step_transition h.publish
  have reach₁ := reach.next trivial h.publish
  obtain ⟨bs, run₂⟩ := h.run
  have reach₂ := run₂.any.reachable reach₁
  obtain ⟨q, hq, hr⟩ := h.record
  have value : r.value = .fanOut q.eventId :=
    (requests_consistent reach₁ q (List.mem_of_getElem? hq)).record r hr
  have event : r.value.eventId ∈ s₁.store.db.eventIds := by
    rw [value]
    exact (provenance reach₁).fansOut _ (.inl ⟨q, List.mem_of_getElem? hq, rfl⟩)
  have unchanged : s₁.store.db = s₀.store.db := by cases publish; rfl
  have record : ∃ q, s₂.store.requests[i]? = some q ∧ (q.record = some r ∨ q.stage = .aborted) :=
    run₂.invariant (I := fun s => ∃ q, s.store.requests[i]? = some q ∧
      (q.record = some r ∨ q.stage = .aborted))
      (fun _ _ _ h _ hs => (step_transition hs).record_at h) ⟨q, hq, .inl hr⟩
  have own : ∀ d ∈ s₂.dropped s₃, d.eventId = r.value.eventId := fun d =>
    dropped_event reach₂ h.commit record
  have same : ∀ p, s.store.db.Matches r.value.eventId p ↔ s₀.store.db.Matches r.value.eventId p :=
    fun p => unchanged ▸ matches_run event run
  refine ⟨own, ?_, fun processed d hd pair => ?_⟩
  · have here : ∀ p, p ∈ (resolveTargets s.store.db.toTables r.value).ahead ↔
        s₀.store.db.Matches r.value.eventId p := fun p => by
      rw [← same, value]
      exact mem_ahead_fanOut s.store.db.valid
    exact forall₂_congr fun d hd => by rw [here, own d hd]
  · rw [own d hd] at pair ⊢
    have unseen := unseen_of_publish (group_inv reach) (provenance reach) publish
    have start : Redelivers r r.value.eventId d.endpointId s₁ :=
      ⟨unchanged ▸ pair, fun hp => absurd hp unseen.1, fun t ht hr => absurd hr (unseen.2 t ht)⟩
    have inv : Redelivers r r.value.eventId d.endpointId s :=
      run.invariant_from (fun _ _ _ reach h fixed hs =>
        h.step (by rw [value]; rfl) (group_inv reach) (provenance reach) (step_transition hs) fixed)
        reach₁ start
    exact inv.processed processed

end

/-- After the run the request publishes, deletes and commits. -/
theorem requeues_of_check (as : List Action) (p : State → State → State → State → Bool)
    (h : (Lts.check (State.step {}) (fun _ _ => true) initial as).any (fun s₀ =>
      (s₀.step {} (.request 0 (.publish 0 1))).any fun s₁ =>
        s₁.store.requests[0]?.any (fun q =>
          decide (q.record = some (sampleRecord 1 (.fanOut (.ofNat 2))))) &&
        (Lts.check (State.step {}) (fun _ a => a.fixesEndpoints) s₁ [.request 0 .delete]).any fun s₂ =>
          (s₂.step {} (.request 0 .commit)).any fun s₃ => p s₀ s₁ s₂ s₃) = true) :
    ∃ s₀ s₁ s₂ s₃, Reachable {} s₀ ∧
      State.Requeues {} 0 (sampleRecord 1 (.fanOut (.ofNat 2))) s₀ s₁ s₂ s₃ ∧ p s₀ s₁ s₂ s₃ = true := by
  obtain ⟨s₀, run, h⟩ := Lts.Run.of_check_any h
  simp only [Option.any_eq_true, Bool.and_eq_true, decide_eq_true_eq] at h
  obtain ⟨s₁, publish, ⟨q, hq, record⟩, s₂, delete, s₃, commit, h⟩ := h
  exact ⟨s₀, s₁, s₂, s₃, ⟨_, run.any⟩, ⟨publish, ⟨q, hq, record⟩, ⟨_, .of_check delete⟩, commit⟩, h⟩

/-- The endpoint is disabled after it was dead-lettered; then the event is retried. The dead letter
is dropped and the record is delivered to nobody. -/
theorem requeue_not_always_redelivers :
    ¬ ∀ (cfg : Settings) (s₀ s₁ s₂ s₃ s : State) (i : Nat) (r : Record Message) (as : List Action),
      Reachable cfg s₀ → State.Requeues cfg i r s₀ s₁ s₂ s₃ →
      Lts.Run (State.step cfg) FixedEndpoints s₁ as s →
      ∀ d ∈ s₂.dropped s₃, d.endpointId ∈ (resolveTargets s.store.db.toTables r.value).ahead := by
  intro claim
  have check := requeues_of_check
    (sampleDeadLetter ++
      [.updateEndpoint (.ofNat 1) { enabled := some (some false) }, .retryEvent (.ofNat 2)])
    (fun _ s₁ s₂ s₃ => (s₂.dropped s₃).any fun d =>
      decide (d.endpointId ∉ (resolveTargets s₁.store.db.toTables (.fanOut (.ofNat 2))).ahead))
  obtain ⟨s₀, s₁, s₂, s₃, reach, requeues, h⟩ := check (by decide +kernel)
  simp only [List.any_eq_true, decide_eq_true_eq] at h
  obtain ⟨d, hd, lost⟩ := h
  exact lost (claim {} s₀ s₁ s₂ s₃ s₁ 0 _ [] reach requeues (.nil s₁) d hd)

/-- A dead letter of an unchanged endpoint is retried. -/
theorem requeue_redelivers_sample :
    ∃ (s₀ s₁ s₂ s₃ : State) (r : Record Message), State.Requeues {} 0 r s₀ s₁ s₂ s₃ ∧
      s₂.dropped s₃ ≠ [] ∧
      ∀ d ∈ s₂.dropped s₃, d.endpointId ∈ (resolveTargets s₁.store.db.toTables r.value).ahead := by
  have check := requeues_of_check (sampleDeadLetter ++ [.retryEvent (.ofNat 2)])
    (fun s₀ _ s₂ s₃ => !(s₂.dropped s₃).isEmpty && (s₂.dropped s₃).all fun d =>
      decide (s₀.store.db.Matches d.eventId d.endpointId))
  obtain ⟨s₀, s₁, s₂, s₃, reach, requeues, h⟩ := check (by decide +kernel)
  simp only [List.all_eq_true, Bool.and_eq_true, decide_eq_true_eq, Bool.not_eq_true',
    List.isEmpty_eq_false_iff] at h
  obtain ⟨some, pairs⟩ := h
  exact ⟨s₀, s₁, s₂, s₃, _, requeues, some,
    (requeue_redelivers_iff reach requeues (.nil s₁)).2.1.2 pairs⟩

end HookRelay
