import HookRelay.Requeue

/-!
# Deleting an endpoint under a delivery

A call keeps copies of its endpoints and writes their rows in later transactions. If an endpoint is
deleted in between, the insert of its attempt row or of its dead letter breaks a foreign key and
raises. A deletion that no call has yet to write a row of is harmless: no call raises, and every
target is attempted.
-/

namespace HookRelay

/-- A row of the event and the endpoint would break a foreign key. -/
def Tables.lacks (t : Tables) (eventId endpointId : UUID) : Bool :=
  !(eventId ∈ t.eventIds && endpointId ∈ t.endpointIds)

/-- What comes next in the delivery raises, with every service available: an insert of a row that
does not conflict and refers to a missing one, an insert of a text that cannot be stored, or the
delay of a retry (`backoff_seconds` converts `2**attempt` to a float). -/
def Delivery.raises (cfg : Settings) (t : Tables) (d : Delivery) : Bool :=
  match d.stage with
  | .recording result =>
    !result.storable || (!t.conflictsAttempt (d.row result) && t.lacks d.event.id d.endpoint.id)
  | .failed result =>
    if d.exhausted cfg result then
      !decide (t.HasDlq d.event.id d.endpoint.id) && t.lacks d.event.id d.endpoint.id
    else 1024 ≤ d.attemptNumber + 1
  | .checking | .posting | .cancelling | .notifying => false

def Call.raises (cfg : Settings) (t : Tables) : Call → Bool
  | .delivering d => d.raises cfg t
  | .resolving | .finished => false

/-- The call has yet to write a row of the endpoint. -/
def Delivery.writes (cfg : Settings) (d : Delivery) (p : UUID) : Bool :=
  d.rest.any (·.id = p) || d.endpoint.id = p &&
    match d.stage with
    | .checking | .posting | .recording _ => true
    | .failed result => d.exhausted cfg result
    | .cancelling | .notifying => false

def Call.writes (cfg : Settings) (p : UUID) : Call → Bool
  | .delivering d => d.writes cfg p
  | .resolving | .finished => false

/-- The POST is answered with a text that cannot be stored. -/
def Action.unstorable : Action → Bool
  | .task _ (.post result) => !result.storable
  | _ => false

abbrev Storable (_ : State) (a : Action) : Prop := a.unstorable = false

/-- The endpoint is deleted although a call has yet to write a row of it. -/
def State.deletesUnder (cfg : Settings) (s : State) : Action → Bool
  | .deleteEndpoint p => s.group.tasks.any (·.data.writes cfg p)
  | _ => false

abbrev DeletesApart (cfg : Settings) (s : State) (a : Action) : Prop :=
  (a.unstorable || s.deletesUnder cfg a) = false

/-- The delivery the call is at is the one to the endpoint, and it has made its POST while
processing the record, or the event was delivered to the endpoint before. -/
def State.AttemptedBy (s : State) (t : Task Message Call) (p : UUID) : Prop :=
  ∃ d, t.data = .delivering d ∧ d.endpoint.id = p ∧
    (s.store.db.hasSuccess d.event.id p = true ∨
      d.stage.requested = true ∧ ∃ result, .posted t.record (d.post result) ∈ s.store.history)

/-- No call raises, and each goes on to attempt every target. -/
structure State.Unharmed (cfg : Settings) (s : State) : Prop where
  calm : ∀ t ∈ s.group.tasks, t.data.raises cfg s.store.db.toTables = false
  /-- What a call resolves to exists: a delivery to a deleted endpoint is dropped. -/
  resolved : ∀ t ∈ s.group.tasks, t.data = .resolving →
    ∀ p ∈ (resolveTargets s.store.db.toTables t.record.value).ahead, p ∈ s.store.db.endpointIds
  /-- A call leaves a target behind only once it has attempted it. -/
  attempted : ∀ i b s' t t', s.step cfg (.task i b) = some s' → s.group.tasks[i]? = some t →
    s'.group.tasks[i]? = some t' → ∀ p ∈ t.data.ahead, p ∈ t'.data.ahead ∨ s.AttemptedBy t p
  /-- A call ends normally only once it has left every target behind. -/
  complete : ∀ i s' t, s.step cfg (.finish i .returned) = some s' → s.group.tasks[i]? = some t →
    t.data.ahead = []
  /-- A call that has targets ahead takes its next step, or waits for a lock of an open request. -/
  live : ∀ i t d, s.group.tasks[i]? = some t → t.data = .delivering d →
    (∃ id, id ∉ s.store.db.issued) → (∃ b s', s.step cfg (.task i b) = some s') ∨
      s.store.eventLocked d.event.id = true ∨ ∃ id, s.store.dlqDeleting id = true

section Calls

variable {cfg : Settings} {st st' : Store} {r : Record Message} {c c' : Call} {a : TaskAction}
  {p : UUID}

theorem Tables.lacks_eq_false {t : Tables} {e : UUID} (he : e ∈ t.eventIds)
    (hp : p ∈ t.endpointIds) : t.lacks e p = false := by
  simp [Tables.lacks, he, hp]

/-- What the rest of the loop writes, the delivery before it has yet to write. -/
theorem Call.writes_deliverNext {d : Delivery} {event : Event} {n : Nat}
    (h : (deliverNext event n d.rest).writes cfg p = true) : d.writes cfg p = true := by
  have mem : ∃ q ∈ d.rest, q.id = p := by
    cases rest : d.rest with
    | nil => rw [rest] at h; cases h
    | cons q qs =>
      simp only [rest, deliverNext, Call.writes, Delivery.writes, Bool.or_eq_true, List.any_eq_true,
        decide_eq_true_eq, Bool.and_true] at h
      rcases h with ⟨q', hq, same⟩ | same
      · exact ⟨q', List.mem_cons_of_mem _ hq, same⟩
      · exact ⟨q, List.mem_cons_self, same⟩
  simp [Delivery.writes, mem]

/-- A call comes to write a row only of an endpoint it had yet to write one of, or has just
resolved. -/
theorem Moves.writes (h : Moves cfg st r c a st' c') (hw : c'.writes cfg p = true) :
    c.writes cfg p = true ∨ p ∈ st.db.endpointIds := by
  have goto : ∀ {d : Delivery} {stage : Stage},
      ((d.goto stage).writes cfg p = true → d.endpoint.id = p → d.writes cfg p = true) →
      (d.goto stage).writes cfg p = true → d.writes cfg p = true := by
    intro d stage here hw
    by_cases same : d.endpoint.id = p
    · exact here hw same
    · simpa [Call.writes, Delivery.goto, Delivery.writes, same] using hw
  cases h with
  | resolve =>
    right
    generalize hc : resolveTargets st.db.toTables r.value = c at hw
    cases c with
    | resolving | finished => cases hw
    | delivering d =>
      have mem : ∃ q ∈ d.endpoint :: d.rest, q.id = p := by
        simp only [Call.writes, Delivery.writes, Bool.or_eq_true, List.any_eq_true,
          decide_eq_true_eq, Bool.and_eq_true] at hw
        rcases hw with ⟨q, hq, same⟩ | ⟨same, -⟩
        · exact ⟨q, List.mem_cons_of_mem _ hq, same⟩
        · exact ⟨d.endpoint, List.mem_cons_self, same⟩
      obtain ⟨q, hq, same⟩ := mem
      rw [(resolveTargets_eq hc).2.2.2] at hq
      exact Tables.mem_endpointIds.2 ⟨q, targets_exist hq, same⟩
  | skip | schedule | notify | notifyFailed => exact .inl (Call.writes_deliverNext hw)
  | pass stage | post stage =>
    exact .inl (goto (fun _ same => by simp [Delivery.writes, same, stage]) hw)
  | conflict stage | record stage =>
    left
    split at hw
    · exact Call.writes_deliverNext hw
    · exact goto (fun _ same => by simp [Delivery.writes, same, stage]) hw
  | dlqConflict stage exhausted | insertDlq stage exhausted =>
    exact .inl (goto (fun _ same => by simp [Delivery.writes, same, stage, exhausted]) hw)
  | cancel stage | cancelFailed stage =>
    refine .inl (goto (fun hw same => ?_) hw)
    simpa [Call.writes, Delivery.goto, Delivery.writes, stage] using hw

/-- A text that a delivery has yet to store came with the answer to its POST. -/
theorem Moves.recording (h : Moves cfg st r c a st' c') {d : Delivery} {result : HttpResult}
    (hd : c' = .delivering d) (stage : d.stage = .recording result) : a = .post result := by
  have next : ∀ {event : Event} {n : Nat} {ps : List Endpoint},
      deliverNext event n ps ≠ .delivering d := by
    intro event n ps h
    rw [(deliverNext_eq h).2.2.1] at stage
    cases stage
  cases h with
  | resolve => rw [(resolveTargets_eq hd).2.2.1] at stage; cases stage
  | skip | schedule | notify | notifyFailed => exact absurd hd next
  | post => cases hd; cases stage; rfl
  | conflict | record =>
    split at hd
    · exact absurd hd next
    · cases hd; cases stage
  | pass | dlqConflict | insertDlq | cancel | cancelFailed => cases hd; cases stage

/-- A call leaves a target behind by a prior success, or behind its POST. -/
theorem Moves.leaves (h : Moves cfg st r c a st' c') (hp : p ∈ c.ahead) : p ∈ c'.ahead ∨
    ∃ d, c = .delivering d ∧ d.endpoint.id = p ∧
      (st.db.hasSuccess d.event.id p = true ∨ d.stage.requested = true) := by
  have next : ∀ {d : Delivery}, p ∈ (Call.delivering d).ahead →
      st.db.hasSuccess d.event.id d.endpoint.id = true ∨ d.stage.requested = true →
      p ∈ d.next.ahead ∨ ∃ d', Call.delivering d = .delivering d' ∧ d'.endpoint.id = p ∧
        (st.db.hasSuccess d'.event.id p = true ∨ d'.stage.requested = true) := by
    intro d hp why
    rcases List.mem_cons.1 hp with rfl | hp
    · exact .inr ⟨d, rfl, rfl, why⟩
    · left
      unfold Delivery.next
      cases rest : d.rest <;> simp_all [deliverNext, Call.ahead]
  cases h with
  | resolve => cases hp
  | skip _ prior => exact next hp (.inl prior)
  | schedule stage | notify stage | notifyFailed stage =>
    exact next hp (.inr (by rw [stage]; rfl))
  | conflict stage | record stage =>
    split
    · exact next hp (.inr (by rw [stage]; rfl))
    · exact .inl hp
  | pass | post | dlqConflict | insertDlq | cancel | cancelFailed => exact .inl hp

/-! ## A call that does not raise goes on -/

theorem Database.exec_of_some {db : Database} {f : Tables → Option Tables} {t : Tables}
    {keeps : ∀ {t t' : Tables}, t.Valid → f t = some t' → t'.Valid} (h : f db.toTables = some t) :
    ∃ db', db.exec f keeps = some db' :=
  ⟨{ toTables := t, valid := keeps db.valid h }, Database.exec_eq_some.2 h⟩

theorem Delivery.record_of_calm {d : Delivery} {result : HttpResult}
    (stage : d.stage = .recording result) (calm : d.raises cfg st.db.toTables = false) :
    (∃ x, d.record st r = some x) ∨ st.eventLocked d.event.id = true := by
  simp only [Delivery.raises, stage, Bool.or_eq_false_iff, Bool.and_eq_false_iff,
    Bool.not_eq_false'] at calm
  by_cases locked : st.eventLocked d.event.id = true
  · exact .inr locked
  left
  have inserted : ∃ db, st.db.insertAttempt (d.row result) = some db := by
    cases taken : st.db.conflictsAttempt (d.row result) with
    | true => exact Database.exec_of_some (Tables.insertAttempt_taken calm.1 taken)
    | false =>
      have parents := calm.2.resolve_left (by simp [taken])
      simp only [Tables.lacks, Bool.not_eq_false', Bool.and_eq_true, decide_eq_true_eq] at parents
      exact Database.exec_of_some (Tables.insertAttempt_free calm.1 taken parents.1 parents.2)
  obtain ⟨db, hdb⟩ := inserted
  simp [Delivery.record, stage, locked, hdb]

theorem Delivery.insertDlq_of_calm {d : Delivery} {result : HttpResult} {id : UUID}
    (stage : d.stage = .failed result) (exhausted : d.exhausted cfg result = true)
    (calm : d.raises cfg st.db.toTables = false) (fresh : id ∉ st.db.issued) :
    (∃ x, d.insertDlq cfg st id = some x) ∨ st.eventLocked d.event.id = true ∨
      ∃ id, st.dlqDeleting id = true := by
  simp only [Delivery.raises, stage, exhausted, if_true, Bool.and_eq_false_iff, Bool.not_eq_false',
    decide_eq_true_eq] at calm
  by_cases locked : st.eventLocked d.event.id = true
  · exact .inr (.inl locked)
  by_cases deleting : ∃ id, st.dlqDeleting id = true
  · exact .inr (.inr deleting)
  left
  let entry : DLQEntry := ⟨id, d.event.id, d.endpoint.id, reason cfg result⟩
  have settled : ∀ id, st.dlqDeleting id = false := by simpa using deleting
  by_cases taken : st.db.conflictsDlq entry = true
  · obtain ⟨db, hdb⟩ : ∃ db, st.db.insertDlq entry = some db :=
      Database.exec_of_some (if_pos taken)
    simp [Delivery.insertDlq, stage, exhausted, taken, hdb, settled, entry] at *
  · have parents := calm.resolve_left fun dead => taken (Tables.conflictsDlq_iff.2 dead)
    simp only [Tables.lacks, Bool.not_eq_false', Bool.and_eq_true, decide_eq_true_eq] at parents
    obtain ⟨db, hdb⟩ : ∃ db, st.db.insertDlq entry = some db :=
      Database.exec_of_some ((if_neg taken).trans (if_pos ⟨fresh, parents⟩))
    simp [Delivery.insertDlq, stage, exhausted, taken, hdb, locked, entry] at *

theorem Delivery.step_of_calm {d : Delivery} (calm : d.raises cfg st.db.toTables = false)
    (fresh : ∃ id, id ∉ st.db.issued) :
    (∃ b x, (Call.delivering d).step cfg st r b = some x) ∨ st.eventLocked d.event.id = true ∨
      ∃ id, st.dlqDeleting id = true := by
  cases stage : d.stage with
  | checking => exact .inl ⟨.select, _, if_pos stage⟩
  | posting => exact .inl ⟨.post .timeout, _, if_pos stage⟩
  | recording result =>
    exact (d.record_of_calm stage calm).imp (fun done => ⟨.record, done⟩) .inl
  | failed result =>
    by_cases exhausted : d.exhausted cfg result = true
    · obtain ⟨id, fresh⟩ := fresh
      exact (d.insertDlq_of_calm stage exhausted calm fresh).imp_left fun done => ⟨.insertDlq id, done⟩
    · left
      refine ⟨.schedule 0, ?_⟩
      simp [Call.step, Delivery.schedule, stage, exhausted]
  | cancelling => exact .inl ⟨.cancel true, _, if_pos stage⟩
  | notifying => exact .inl ⟨.notify true, _, if_pos stage⟩

end Calls

/-! ## Runs -/

/-- What a call has yet to write can be written: its endpoint exists and its text can be stored. -/
structure Intact (cfg : Settings) (s : State) : Prop where
  rows : ∀ t ∈ s.group.tasks, ∀ p, t.data.writes cfg p = true → p ∈ s.store.db.endpointIds
  texts : ∀ t ∈ s.group.tasks, ∀ d result, t.data = .delivering d → d.stage = .recording result →
    result.storable = true

section

variable {cfg : Settings} {s s' : State} {a : Action}

theorem Intact.step (h : Intact cfg s) (inv : ConsumerGroup.Inv (fun _ => 0) s.group)
    (hs : Transition cfg s a s') (apart : DeletesApart cfg s a) : Intact cfg s' := by
  obtain ⟨stored, apart⟩ := Bool.or_eq_false_iff.1 apart
  constructor
  · intro t' ht p hw
    have kept : p ∈ s.store.db.endpointIds → p ∈ s'.store.db.endpointIds := by
      refine fun hp => hs.endpoint_kept hp ?_
      rintro rfl
      -- a deletion leaves the tasks alone, and waits for those that write
      have same : s'.group = s.group := by cases hs; rfl
      rw [same] at ht
      exact Bool.false_ne_true (apart.symm.trans (List.any_eq_true.2 ⟨t', ht, hw⟩))
    rcases hs.task_cases inv ht with old | ⟨new, -⟩ | ⟨i, b, t, -, found, -, moved⟩
    · exact kept (h.rows t' old p hw)
    · rw [new] at hw
      cases hw
    · exact kept ((moved.writes hw).elim (h.rows t (List.mem_of_getElem? found) p) id)
  · intro t' ht d result hd stage
    rcases hs.task_cases inv ht with old | ⟨new, -⟩ | ⟨i, b, t, rfl, found, -, moved⟩
    · exact h.texts t' old d result hd stage
    · rw [new] at hd
      cases hd
    · obtain rfl := moved.recording hd stage
      simpa [Action.unstorable] using stored

theorem Intact.initial : Intact cfg initial where
  rows _ ht := by cases ht
  texts _ ht := by cases ht

/-- The event of a call exists, as that of its message does. -/
theorem event_exists (inv : ConsumerGroup.Inv (fun _ => 0) s.group) (prov : Provenance s)
    {t : Task Message Call} (ht : t ∈ s.group.tasks) {d : Delivery} (hd : t.data = .delivering d) :
    d.event.id ∈ s.store.db.eventIds := by
  rw [(prov.calls t ht d hd).event]
  exact prov.messages _ (.inl ⟨t.record, inv.tasks t ht, rfl⟩)

theorem Intact.calm (h : Intact cfg s) (small : cfg.maxRetryAttempts ≤ 1024)
    (inv : ConsumerGroup.Inv (fun _ => 0) s.group) (prov : Provenance s) {t : Task Message Call}
    (ht : t ∈ s.group.tasks) : t.data.raises cfg s.store.db.toTables = false := by
  cases hd : t.data with
  | resolving | finished => rfl
  | delivering d =>
    have writes := h.rows t ht d.endpoint.id
    rw [hd] at writes
    have parents : d.writes cfg d.endpoint.id = true →
        s.store.db.lacks d.event.id d.endpoint.id = false := fun hw =>
      Tables.lacks_eq_false (event_exists inv prov ht hd) (writes hw)
    rw [Call.raises, Delivery.raises]
    cases stage : d.stage with
    | checking | posting | cancelling | notifying => rfl
    | recording result =>
      simp [h.texts t ht d result hd stage, parents (by simp [Delivery.writes, stage])]
    | failed result =>
      by_cases exhausted : d.exhausted cfg result = true
      · simp [exhausted, parents (by simp [Delivery.writes, stage, exhausted])]
      · have left : (d.attemptNumber + 1 : Nat) < cfg.maxRetryAttempts := by
          simp only [Delivery.exhausted, Bool.or_eq_true, not_or, decide_eq_true_eq] at exhausted
          omega
        simp only [exhausted, Bool.false_eq_true, if_false, decide_eq_false_iff_not]
        omega

theorem Intact.unharmed (h : Intact cfg s) (small : cfg.maxRetryAttempts ≤ 1024)
    (inv : ConsumerGroup.Inv (fun _ => 0) s.group) (prov : Provenance s) : s.Unharmed cfg where
  calm t ht := h.calm small inv prov ht
  resolved t _ _ p hp := by
    generalize hc : resolveTargets s.store.db.toTables t.record.value = c at hp
    cases c with
    | resolving | finished => cases hp
    | delivering d =>
      obtain ⟨q, hq, rfl⟩ := List.mem_map.1 hp
      rw [(resolveTargets_eq hc).2.2.2] at hq
      exact Tables.mem_endpointIds.2 ⟨q, targets_exist hq, rfl⟩
  attempted i b s' t t' hs found found' p hp := by
    cases step_transition hs with
    | @task _ _ t₀ store call here moved =>
      cases found.symm.trans here
      rw [List.getElem?_set_self (List.getElem?_eq_some_iff.1 found).1] at found'
      cases found'
      refine (moved.leaves hp).imp_right fun ⟨d, hd, endpoint, why⟩ => ⟨d, hd, endpoint, ?_⟩
      refine why.imp_right fun requested => ⟨requested, ?_⟩
      obtain ⟨result, posted, -⟩ :=
        prov.posted t (List.mem_of_getElem? found) d hd requested
      exact ⟨result, posted⟩
  complete i s' t hs found := by
    cases step_transition hs with
    | finish here _ ended =>
      cases found.symm.trans here
      rw [ended rfl]
      rfl
  live i t d found hd fresh := by
    have calm := h.calm small inv prov (List.mem_of_getElem? found)
    rw [hd] at calm
    refine (d.step_of_calm (r := t.record) calm fresh).imp_left fun ⟨b, ⟨store, call⟩, stepped⟩ => ?_
    refine ⟨b, { s with store, group := { s.group with tasks := s.group.tasks.set i { t with data := call } } }, ?_⟩
    simp [State.step, State.taskStep, found, hd, stepped, ConsumerGroup.advance]

end

/-- As long as an endpoint is deleted only when no call has yet to write a row of it, no call raises
and each attempts every target. -/
theorem deletion_harmless {cfg : Settings} (small : cfg.maxRetryAttempts ≤ 1024)
    {as : List Action} {s : State} (run : Lts.Run (State.step cfg) (DeletesApart cfg) initial as s) :
    s.Unharmed cfg := by
  have intact : Intact cfg s := run.invariant_from
    (fun _ _ _ reach h kept hs => h.step (group_inv reach) (step_transition hs) kept)
    (.refl initial) .initial
  exact intact.unharmed small (group_inv ⟨as, run⟩) (provenance ⟨as, run⟩)

/-- The endpoint is deleted between the answer to a POST and the insert of its attempt row. -/
theorem deletion_harmful :
    ¬ ∀ (cfg : Settings) (as : List Action) (s : State), cfg.maxRetryAttempts ≤ 1024 →
      Lts.Run (State.step cfg) Storable initial as s → s.Unharmed cfg := by
  intro claim
  obtain ⟨s, run, h⟩ := Lts.Run.of_check_any (C := fun _ a => !a.unstorable) (s := initial)
    (p := fun s : State => s.group.tasks.any (·.data.raises {} s.store.db.toTables))
    (show (Lts.check (State.step {}) _ _ (samplePublished ++
      handOut 0 [sampleRecord 0 (.fanOut (.ofNat 2))] ++
      [.task 0 .resolve, .task 0 .select, .task 0 (.post (.response 200 [])),
        .deleteEndpoint (.ofNat 1)])).any _ = true by decide +kernel)
  obtain ⟨t, ht, raises⟩ := List.any_eq_true.1 h
  have calm := (claim {} _ s (by decide)
    (run.mono (D := Storable) fun s a h => by simpa using h)).calm t ht
  rw [raises] at calm
  cases calm

/-- The endpoint is deleted while its retry waits in Redis; the call on the retry is calm. -/
theorem deletion_harmless_waiting : ∃ s : State, s.group.tasks ≠ [] ∧
    s.store.db.endpoints = [] ∧ s.Unharmed {} := by
  obtain ⟨s, run, h⟩ := Lts.Run.of_check_any
    (C := fun s a => !(a.unstorable || s.deletesUnder {} a)) (s := initial)
    (p := fun s : State => !s.group.tasks.isEmpty && s.store.db.endpoints.isEmpty)
    (show (Lts.check (State.step {}) _ _ (samplePublished ++
      handOut 0 [sampleRecord 0 (.fanOut (.ofNat 2))] ++ [.task 0 .resolve] ++ attempt 0 500 ++
      [.task 0 (.schedule 10), .deleteEndpoint (.ofNat 1), .finish 0 .returned,
        .scheduler 0 (.poll 10), .scheduler 0 (.publish 0 1), .scheduler 0 .cancel] ++
      handOut 0 [sampleRecord 1 (.retry (.ofNat 2) (.ofNat 1) 1)] ++
      [.task 0 .resolve])).any _ = true by decide +kernel)
  simp only [Bool.and_eq_true, Bool.not_eq_true', List.isEmpty_iff, List.isEmpty_eq_false_iff] at h
  exact ⟨s, h.1, h.2, deletion_harmless (by decide)
    (run.mono (D := DeletesApart {}) fun s a h => by simpa using h)⟩

end HookRelay
