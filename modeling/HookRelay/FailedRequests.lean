import HookRelay.DeadLetterRequests
import HookRelay.Requeue
import HookRelay.StoredStatus

/-!
# Requests about a dead letter that fail

A request whose publish raised is rolled back. As long as every `replay_dlq_entry` of a dead letter and
every `retry_event` of its event fail so, and nobody deletes it, the dead letter and the status of its
event stay as they are, and a later replay succeeds.
-/

namespace HookRelay

/-- A request's transaction is no other's business. -/
theorem Transition.request_elsewhere {cfg : Settings} {s s' : State} {j k : Nat} {b : RequestAction}
    (hs : Transition cfg s (.request j b) s') (ne : j ≠ k) :
    s'.store.requests[k]? = s.store.requests[k]? := by
  cases hs <;> exact List.getElem?_set_ne ne

namespace Desk

/-- The request asks for a replay of the dead letter, or for a manual retry of its event. -/
def requeues (d : DLQEntry) (q : DlqRequest) : Prop :=
  q.kind = .replay d.id ∨ q.kind = .retry d.eventId

instance (d : DLQEntry) (q : DlqRequest) : Decidable (requeues d q) :=
  inferInstanceAs (Decidable (_ ∨ _))

/-- Nobody asks for the dead letter's deletion, its endpoint stays, and no replay of it and no
manual retry of its event publishes. -/
def failsFor (d : DLQEntry) (st : Desk) : Action → Bool
  | .arrive kind => kind ≠ .delete d.id
  | .publish i _ _ => st.requests[i]?.all fun q => !decide (requeues d q)
  | b => !b.deletesEndpointOf d

abbrev Fails (d : DLQEntry) (st : Desk) (b : Action) : Prop := failsFor d st b = true

/-- The requests about the dead letter and its event that are under way have not published, and
none of them is its deletion. -/
structure Unpublished (d : DLQEntry) (st : Desk) : Prop where
  deletion : ∀ q ∈ st.requests, q.stage = .arrived → q.kind ≠ .delete d.id
  locked : ∀ q ∈ st.requests, requeues d q → ∀ j, q.stage = .running j → st.stageOf j = some .locked

section

variable {cfg : Settings} {st st' : Desk} {d : DLQEntry} {b : Action}

theorem Fails.spares (h : Fails d st b) : SparesEndpoint d st b := by
  cases b with
  | other a => simpa [Fails, failsFor] using h
  | _ => rfl

theorem stageOf_eq_some {j : Nat} {stage : RequestStage} :
    st.stageOf j = some stage ↔
      ∃ sq, st.system.store.requests[j]? = some sq ∧ sq.stage = stage :=
  Option.map_eq_some_iff

/-- Two requests that run one transaction are one. -/
theorem Inv.same_slot (h : Inv st) {i k j : Nat} {q p : DlqRequest} (hq : st.requests[i]? = some q)
    (hp : st.requests[k]? = some p) (running : q.stage = .running j) (running' : p.stage = .running j) :
    i = k := by
  by_contra ne
  exact (h.apart i k q p ne hq hp).running j running running'

/-- A transaction of another request is not `j`. -/
theorem Inv.other_transaction (h : Inv st) {i j : Nat} {q p : DlqRequest}
    (hq : st.requests[i]? = some q) (running : q.stage = .running j)
    (hp : p ∈ st.requests) (different : p ≠ q) {k : Nat} (running' : p.stage = .running k) :
    j ≠ k := by
  rintro rfl
  obtain ⟨l, hl⟩ := List.mem_iff_getElem?.1 hp
  cases h.same_slot hq hl running running'
  cases hq.symm.trans hl
  exact different rfl

/-- The request's transaction removes the dead letter only if the request is about it. -/
theorem Inv.requeues_of_rows (h : Inv st) (locks : RowLocks st.system)
    (consistent : ∀ sq ∈ st.system.store.requests, sq.Consistent st.tables)
    (there : d ∈ st.tables.dlq) {q : DlqRequest} (hq : q ∈ st.requests) {j : Nat}
    (running : q.stage = .running j) {sq : Request} {r : Record Message} {rows : List UUID}
    (found : st.system.store.requests[j]? = some sq) (stage : sq.stage = .deleted r rows)
    (hd : d.id ∈ rows) : requeues d q := by
  have hsq := List.mem_of_getElem? found
  obtain ⟨sq', found', opened, fits⟩ := h.running q hq j running
  cases found.symm.trans found'
  cases kind : q.kind with
  | replay id =>
    left
    rw [kind] at fits
    have kind' : sq.kind = .replay id := fits
    have held : sq.lockedRows = [id] := by
      rw [Request.lockedRows, kind']
      simp [opened]
    rw [locks.deleting sq hsq r rows stage] at held
    rw [held, List.mem_singleton] at hd
    rw [kind, hd]
  | delete id =>
    rw [kind] at fits
    exact fits.elim
  | retry e =>
    right
    rw [kind] at fits
    obtain ⟨-, same⟩ := fits
    have deleting : d.id ∈ sq.deleting := by
      rw [Request.deleting, stage]
      exact hd
    have event := ((consistent sq hsq).deleting d.id deleting).2 d there rfl
    rw [kind, event, same]

/-- Request `i` comes to another stage. -/
theorem Unpublished.set_stage (h : Unpublished d st) (inv : Inv st) {i : Nat} {q : DlqRequest}
    {system : State} {stage : DlqRequestStage} (found : st.requests[i]? = some q)
    (kept : ∀ k, q.stage ≠ .running k → st.stageOf k = some .locked →
      ({ st with system } : Desk).stageOf k = some .locked)
    (arrived : stage ≠ .arrived)
    (mine : ∀ k, stage = .running k → ({ st with system } : Desk).stageOf k = some .locked) :
    Unpublished d ({ st with system }.setStage i q stage) := by
  constructor
  · intro p hp at_row
    rcases Slots.mem_set hp with rfl | ⟨l, ne, hl⟩
    · exact absurd at_row arrived
    · exact h.deletion p (List.mem_of_getElem? hl) at_row
  · intro p hp about k running
    rcases Slots.mem_set hp with rfl | ⟨l, ne, hl⟩
    · exact mine k running
    · apply kept k
      · exact (inv.apart l i p q ne hl found).running k running
      · exact h.locked p (List.mem_of_getElem? hl) about k running

/-- Request `i`, which is not about the dead letter, takes a step of its transaction. -/
theorem Unpublished.transaction_step (h : Unpublished d st) (inv : Inv st) {i j : Nat}
    {q : DlqRequest} {system : State} {a : RequestAction} (found : st.requests[i]? = some q)
    (running : q.stage = .running j) (foreign : ¬ requeues d q)
    (hs : Transition cfg st.system (.request j a) system) : Unpublished d { st with system } where
  deletion := h.deletion
  locked p hp about k running' := by
    have different : p ≠ q := fun same => foreign (same ▸ about)
    have ne := inv.other_transaction found running hp different running'
    rw [Desk.stageOf, hs.request_elsewhere ne]
    exact h.locked p hp about k running'

/-- The requests about the dead letter and its event go on waiting for their publish. -/
theorem Unpublished.step (h : Unpublished d st) (inv : Inv st) (fails : Fails d st b)
    (hs : Moves cfg st b st') : Unpublished d st' := by
  cases hs with
  | @arrive kind =>
    have old : ∀ q ∈ st.requests ++ [({ kind } : DlqRequest)],
        q ∈ st.requests ∨ q = { kind } := fun q hq =>
      (List.mem_append.1 hq).imp_right List.mem_singleton.1
    constructor
    · intro q hq arrived
      rcases old q hq with hq | rfl
      · exact h.deletion q hq arrived
      · simpa [Fails, failsFor] using fails
    · intro q hq about j running
      rcases old q hq with hq | rfl
      · exact h.locked q hq about j running
      · cases running
  | notFound found arrived =>
    exact h.set_stage inv found (fun k _ locked => locked) (by simp) fun k running => by cases running
  | @lock i q a system new found arrived taken appended same new_locked new_for =>
    refine h.set_stage inv found (fun k _ locked => ?_) (by simp) fun k running => ?_
    · obtain ⟨sq, there, stage⟩ := stageOf_eq_some.1 locked
      apply stageOf_eq_some.2
      refine ⟨sq, ?_, stage⟩
      rw [appended, List.getElem?_append_left (List.getElem?_eq_some_iff.1 there).1]
      exact there
    · cases running
      apply stageOf_eq_some.2
      refine ⟨new, ?_, new_locked⟩
      rw [appended, List.getElem?_concat_length]
  | @deleted i q id system found arrived kind deleted =>
    have requests : system.store.requests = st.system.store.requests := by cases deleted; rfl
    refine h.set_stage inv found (fun k _ locked => ?_) (by simp) fun k running => by cases running
    rwa [Desk.stageOf, requests]
  | @publish i j p o q system found running published =>
    have foreign : ¬ requeues d q := by simpa [Fails, failsFor, found] using fails
    exact h.transaction_step inv found running foreign published
  | @publishFails i j q system found running aborted =>
    refine h.set_stage inv found (fun k other locked => ?_) (by simp) fun k running => by cases running
    rw [Desk.stageOf, aborted.request_elsewhere fun same => other (by rw [running, same])]
    exact locked
  | @delete i j q system found running deleted =>
    have foreign : ¬ requeues d q := by
      intro about
      obtain ⟨sq, there, locked⟩ :=
        stageOf_eq_some.1 (h.locked q (List.mem_of_getElem? found) about j running)
      cases deleted with
      | requestDelete found' published =>
        cases there.symm.trans found'
        cases locked.symm.trans published
    exact h.transaction_step inv found running foreign deleted
  | @commit i j q sq r rows system found running transaction stage committed =>
    refine h.set_stage inv found (fun k other locked => ?_) (by simp) fun k running => by cases running
    rw [Desk.stageOf, committed.request_elsewhere fun same => other (by rw [running, same])]
    exact locked
  | other other step =>
    refine ⟨h.deletion, fun q hq about j running => ?_⟩
    rw [Desk.stageOf, step.requests_eq other]
    exact h.locked q hq about j running

/-- The dead letter stays as long as the requests fail. -/
theorem Unpublished.kept (h : Unpublished d st) (inv : Inv st) (locks : RowLocks st.system)
    (consistent : ∀ sq ∈ st.system.store.requests, sq.Consistent st.tables)
    (there : d ∈ st.tables.dlq) (fails : Fails d st b) (hs : Moves cfg st b st') :
    d ∈ st'.tables.dlq := by
  apply (hs.kept there fails.spares).resolve_right
  rintro ⟨p, hp, removed⟩
  -- no request had removed it before, so one does in this step
  have old : ∀ p ∈ st.requests, d.id ∉ p.removed := fun p hp removed =>
    (inv.gone p hp d.id removed).2 (List.mem_map_of_mem there)
  have new : ∀ {i : Nat} {q : DlqRequest} {stage : DlqRequestStage},
      p ∈ st.requests.set i { q with stage } → d.id ∈ { q with stage }.removed := by
    intro i q stage hp
    rcases Slots.mem_set hp with rfl | ⟨l, -, hl⟩
    · exact removed
    · exact absurd removed (old p (List.mem_of_getElem? hl))
  cases hs with
  | arrive =>
    rcases List.mem_append.1 hp with hp | hp
    · exact old p hp removed
    · cases List.mem_singleton.1 hp
      cases removed
  | notFound | lock | publishFails => exact List.not_mem_nil (new hp)
  | deleted found arrived kind =>
    have same := List.mem_singleton.1 (new hp)
    exact h.deletion _ (List.mem_of_getElem? found) arrived (same ▸ kind)
  | @commit i j q sq r rows system found running transaction stage committed =>
    have hq := List.mem_of_getElem? found
    have about := inv.requeues_of_rows locks consistent there hq running transaction stage (new hp)
    obtain ⟨sq', transaction', locked⟩ := stageOf_eq_some.1 (h.locked q hq about j running)
    cases transaction.symm.trans transaction'
    cases stage.symm.trans locked
  | publish | delete | other => exact old p hp removed

/-- As long as the requests fail the dead letter stays and they go on waiting. -/
theorem Unpublished.run {bs : List Action} (h : Unpublished d st) (reach : Reachable cfg st)
    (there : d ∈ st.tables.dlq) (run : Lts.Run (Desk.step cfg) (Fails d) st bs st') :
    d ∈ st'.tables.dlq ∧ Unpublished d st' := by
  refine run.invariant_from (I := fun st => d ∈ st.tables.dlq ∧ Unpublished d st)
    (fun st b st' reach h fails step => ?_) reach ⟨there, h⟩
  have moved := step_moves step
  have system := system_reachable reach
  constructor
  · exact h.2.kept (inv reach) (rowLocks system) (requests_consistent system) h.1 fails moved
  · exact h.2.step (inv reach) fails moved

/-! ## What has failed can be done again -/

theorem exists_offset (log : List (Record Message)) : ∃ o, ∀ r ∈ log, r.offset < o := by
  induction log with
  | nil => exact ⟨0, fun r hr => by cases hr⟩
  | cons r log ih =>
    obtain ⟨o, ho⟩ := ih
    refine ⟨max o (r.offset + 1), fun r' hr => ?_⟩
    rcases List.mem_cons.1 hr with rfl | hr
    · omega
    · have := ho r' hr
      omega

/-- A transaction of a replay that holds its row publishes, deletes and commits. -/
theorem replay_transaction {s : State} {j : Nat} {id e : UUID}
    (found : s.store.requests[j]? = some ⟨.replay id, e, .locked⟩) :
    ∃ (offset : Nat) (s₁ s₂ s₃ : State) (r : Record Message),
      s.requestStep j (.publish 0 offset) = some s₁ ∧ s₁.requestStep j .delete = some s₂ ∧
      s₂.store.requests[j]? = some ⟨.replay id, e, .deleted r [id]⟩ ∧
      s₂.requestStep j .commit = some s₃ := by
  obtain ⟨offset, bound⟩ := exists_offset s.group.log
  have place := (List.getElem?_eq_some_iff.1 found).1
  let r : Record Message := ⟨0, offset, .fanOut e⟩
  let group := { s.group with log := s.group.log ++ [r] }
  let s₁ := State.setRequest { s with group, store := s.store.log (.published r) } j
    ⟨.replay id, e, .published r⟩
  let s₂ := s₁.setRequest j ⟨.replay id, e, .deleted r [id]⟩
  have published : s₁.store.requests[j]? = some ⟨.replay id, e, .published r⟩ :=
    List.getElem?_set_self place
  have deleted : s₂.store.requests[j]? = some ⟨.replay id, e, .deleted r [id]⟩ :=
    List.getElem?_set_self (List.getElem?_eq_some_iff.1 published).1
  let s₃ := (s₂.setDb ((s₂.store.db.deleteDlq [id]).setStatus e .pending)).setRequest j
    ⟨.replay id, e, .committed r [id]⟩
  refine ⟨offset, s₁, s₂, s₃, r, ?_, ?_, deleted, ?_⟩
  · have appended : s.group.append r = some group := if_pos fun r' hr _ => bound r' hr
    simp only [State.requestStep, found, State.publish, Option.bind_eq_bind, Option.bind_some]
    rw [appended]
    rfl
  · simp only [State.requestStep, published, Option.bind_eq_bind, Option.bind_some, State.deletes,
      ne_eq, reduceCtorEq, not_false_eq_true, true_or, if_true]
    rfl
  · simp only [State.requestStep, deleted, Option.bind_eq_bind, Option.bind_some]
    rfl

/-- The steps of a `replay_dlq_entry` request that nothing stands in the way of. -/
def replaySteps (dlqId : UUID) (i offset : Nat) : List Action :=
  [.arrive (.replay dlqId), .lock i, .publish i 0 offset, .delete i, .commit i]

/-- A replay of a dead letter that no transaction holds succeeds. -/
theorem replay_succeeds (cfg : Settings) (there : d ∈ st.tables.dlq)
    (free : st.system.store.dlqLocked d.id = false) :
    ∃ offset st', Lts.Run (Desk.step cfg) Lts.Any st
      (replaySteps d.id st.requests.length offset) st' ∧
      st'.requests[st.requests.length]? = some ⟨.replay d.id, .succeeded [d.id]⟩ := by
  have row : st.system.store.db.getDlq d.id = some d :=
    st.system.store.db.valid.getDlq_eq there
  let j := st.system.store.requests.length
  let system := st.system.addRequest (.replay d.id) d.eventId
  have transaction : system.store.requests[j]? = some ⟨.replay d.id, d.eventId, .locked⟩ :=
    List.getElem?_concat_length
  obtain ⟨offset, s₁, s₂, s₃, r, published, deleted, transaction', committed⟩ :=
    replay_transaction transaction
  let arrived := st.requests ++ [⟨.replay d.id, .arrived⟩]
  let running := arrived.set st.requests.length ⟨.replay d.id, .running j⟩
  have here : arrived[st.requests.length]? = some ⟨.replay d.id, .arrived⟩ :=
    List.getElem?_concat_length
  have there' : running[st.requests.length]? = some ⟨.replay d.id, .running j⟩ :=
    List.getElem?_set_self (List.getElem?_eq_some_iff.1 here).1
  have locked : st.system.replayDlq d.id = some system := by
    simp only [State.replayDlq, row, Option.bind_eq_bind, Option.bind_some, free]
    rfl
  refine ⟨offset, ⟨s₃, running.set st.requests.length ⟨.replay d.id, .succeeded [d.id]⟩⟩, ?_,
    List.getElem?_set_self (List.getElem?_eq_some_iff.1 there').1⟩
  let i := st.requests.length
  have lock : Desk.step cfg ⟨st.system, arrived⟩ (.lock i) = some ⟨system, running⟩ := by
    simp only [Desk.step, i, here, Desk.lock, Desk.tables, row, locked, Option.bind_eq_bind,
      Option.bind_some, if_true, Option.isNone_some, Bool.false_eq_true, if_false, Option.map_some]
    rfl
  have publish : Desk.step cfg ⟨system, running⟩ (.publish i 0 offset) = some ⟨s₁, running⟩ := by
    simp only [Desk.step, i, there', DlqRequest.transaction, published, Option.bind_eq_bind,
      Option.bind_some]
  have delete : Desk.step cfg ⟨s₁, running⟩ (.delete i) = some ⟨s₂, running⟩ := by
    simp only [Desk.step, i, there', DlqRequest.transaction, deleted, Option.bind_eq_bind,
      Option.bind_some]
  have commit : Desk.step cfg ⟨s₂, running⟩ (.commit i) =
      some ⟨s₃, running.set i ⟨.replay d.id, .succeeded [d.id]⟩⟩ := by
    simp only [Desk.step, i, there', DlqRequest.transaction, Desk.stageOf, transaction', committed,
      Option.bind_eq_bind, Option.bind_some, Option.map_some]
    rfl
  exact .cons trivial rfl (.cons trivial lock (.cons trivial publish (.cons trivial delete
    (.single trivial commit))))

/-- A transaction that holds the dead letter while the requests fail is a replay of it at its
publish. -/
theorem Unpublished.holder (h : Unpublished d st) (inv : Inv st) (locks : RowLocks st.system)
    (consistent : ∀ sq ∈ st.system.store.requests, sq.Consistent st.tables)
    (there : d ∈ st.tables.dlq) {j : Nat} {sq : Request}
    (transaction : st.system.store.requests[j]? = some sq) (held : d.id ∈ sq.lockedRows) :
    sq.stage = .locked ∧
      ∃ (i : Nat) (q : DlqRequest), st.requests[i]? = some q ∧ q.stage = .running j := by
  obtain ⟨opened, how⟩ := Request.of_mem_lockedRows held
  obtain ⟨q, hq, running⟩ := inv.opened j sq transaction opened
  obtain ⟨sq', transaction', -, fits⟩ := inv.running q hq j running
  cases transaction.symm.trans transaction'
  have about : requeues d q := by
    rcases how with replays | deleting
    · left
      cases kind : q.kind with
      | replay id =>
        rw [kind] at fits
        cases replays.symm.trans fits
        rfl
      | delete =>
        rw [kind] at fits
        exact fits.elim
      | retry =>
        rw [kind] at fits
        cases replays.symm.trans fits.1
    · unfold Request.deleting at deleting
      split at deleting
      · rename_i r rows stage
        exact inv.requeues_of_rows locks consistent there hq running transaction stage deleting
      · cases deleting
  obtain ⟨sq', transaction', locked⟩ := stageOf_eq_some.1 (h.locked q hq about j running)
  cases transaction.symm.trans transaction'
  obtain ⟨i, found⟩ := List.mem_iff_getElem?.1 hq
  exact ⟨locked, i, q, found, running⟩

/-- A later replay of the dead letter succeeds, once the one that holds it has failed. -/
def Replayable (cfg : Settings) (d : DLQEntry) (st : Desk) : Prop :=
  ∃ rollback offset st', (∀ b ∈ rollback, ∃ i, b = .publishFails i) ∧
    Lts.Run (Desk.step cfg) Lts.Any st
      (rollback ++ replaySteps d.id st.requests.length offset) st' ∧
    st'.requests[st.requests.length]? = some ⟨.replay d.id, .succeeded [d.id]⟩

theorem Unpublished.replayable (h : Unpublished d st) (reach : Reachable cfg st)
    (there : d ∈ st.tables.dlq) : Replayable cfg d st := by
  have locks := rowLocks (system_reachable reach)
  cases free : st.system.store.dlqLocked d.id with
  | false =>
    obtain ⟨offset, st', run, success⟩ := replay_succeeds cfg there free
    exact ⟨[], offset, st', by simp, run, success⟩
  | true =>
    obtain ⟨sq, hsq, held⟩ := dlqLocked_iff.1 free
    obtain ⟨j, transaction⟩ := List.mem_iff_getElem?.1 hsq
    obtain ⟨locked, i, q, found, running⟩ := h.holder (inv reach) locks
      (requests_consistent (system_reachable reach)) there transaction held
    let system := st.system.setRequest j { sq with stage := .aborted }
    let st₁ := ({ st with system } : Desk).setStage i q .publishError
    have failed : st.step cfg (.publishFails i) = some st₁ := by
      have stage : st.stageOf j = some .locked := stageOf_eq_some.2 ⟨sq, transaction, locked⟩
      have aborted : st.system.requestStep j .abort = some system := by
        simp only [State.requestStep, transaction, Option.bind_eq_bind, Option.bind_some,
          Request.isOpen, locked, if_true]
        rfl
      simp only [Desk.step, found, DlqRequest.transaction, running, stage, aborted,
        Option.bind_eq_bind, Option.bind_some, if_true]
      rfl
    have released : st₁.system.store.dlqLocked d.id = false := by
      rw [← Bool.not_eq_true, dlqLocked_iff]
      rintro ⟨p, hp, held'⟩
      rcases Slots.mem_set hp with rfl | ⟨k, ne, hk⟩
      · simpa [Request.isOpen] using (Request.of_mem_lockedRows held').1
      · exact locks.apart k j p sq ne hk transaction d.id held' held
    have there' : d ∈ st₁.tables.dlq := there
    obtain ⟨offset, st', run, success⟩ := replay_succeeds cfg there' released
    have same : st₁.requests.length = st.requests.length := List.length_set
    rw [same] at run success
    exact ⟨[.publishFails i], offset, st', by simp, .cons trivial failed run, success⟩

/-- The stored status of the dead letter's event. -/
def eventStatus (d : DLQEntry) (st : Desk) : Option EventStatus :=
  (st.tables.getEvent d.eventId).map (·.status)

theorem eventStatus_pending (reach : Reachable cfg st) (there : d ∈ st.tables.dlq) :
    eventStatus d st = some .pending := by
  have event := st.system.store.db.valid.dlq_event_fkey d there
  obtain ⟨e, found⟩ := Tables.getEvent_isSome event
  rw [eventStatus, Desk.tables, found, Option.map_some]
  rw [stored_pending (system_reachable reach) e (Tables.getEvent_some found).1]

/-- **Requests about a dead letter exclude each other and fail atomically.** From a state with the
dead letter, in any interleaving of any number of requests with each other and with the rest of the
deployment in which the endpoint is not deleted: the dead letter is gone exactly when one of the
requests has removed it, only one has, at most one replay or deletion of it succeeds and at most one
replay of it publishes. If nobody asks for the deletion and every publish of the others raises, the
dead letter and the status of its event are as they were and a later replay succeeds. -/
theorem dead_letter_requests {bs : List Action} (reach : Reachable cfg st)
    (there : d ∈ st.tables.dlq) (run : Lts.Run (Desk.step cfg) (SparesEndpoint d) st bs st') :
    st'.Exclusive d ∧
      (Unpublished d st → Lts.Run (Desk.step cfg) (Fails d) st bs st' →
        d ∈ st'.tables.dlq ∧ eventStatus d st' = eventStatus d st ∧ Replayable cfg d st') := by
  refine ⟨exclusive reach there run, fun unpublished failing => ?_⟩
  have reach' := Lts.Run.reachable reach run.any
  obtain ⟨kept, unpublished'⟩ := unpublished.run reach there failing
  refine ⟨kept, ?_, unpublished'.replayable reach' kept⟩
  rw [eventStatus_pending reach' kept, eventStatus_pending reach there]

end

/-- Two replays and a manual retry, all of whose publishes raise; and a replay whose publish raises, one that
succeeds, and a deletion that comes too late. -/
theorem dead_letter_requests_answered :
    ∃ (st st' st'' : Desk) (d : DLQEntry),
      (st'.requests.map (·.stage) = [.publishError, .publishError, .publishError] ∧ st'.Exclusive d ∧
        d ∈ st'.tables.dlq ∧ eventStatus d st' = eventStatus d st ∧ Replayable {} d st') ∧
      st''.requests.map (·.stage) = [.publishError, .succeeded [d.id], .notFound] ∧ st''.Exclusive d ∧
        d ∉ st''.tables.dlq := by
  have h : ((Lts.check (Desk.step {}) (fun _ _ => true) initial (sampleDeadLetter.map .other)).bind fun st =>
      (st.tables.getDlq (.ofNat 4)).bind fun d =>
        (Lts.check (Desk.step {}) (failsFor d) st
          [.arrive (.replay (.ofNat 4)), .arrive (.replay (.ofNat 4)), .arrive (.retry (.ofNat 2)),
            .lock 0, .lock 2, .publishFails 0, .lock 1, .publishFails 2, .publishFails 1]).bind fun st' =>
        (Lts.check (Desk.step {}) (fun _ b => !b.deletesEndpointOf d) st
          [.arrive (.replay (.ofNat 4)), .arrive (.replay (.ofNat 4)), .arrive (.delete (.ofNat 4)),
            .lock 0, .publishFails 0, .lock 1, .publish 1 0 1, .delete 1, .commit 1, .lock 2]).map
        fun st'' => (st, d, st', st'')).any
      (fun x => x.1.requests.isEmpty &&
        x.2.2.1.requests.map (·.stage) = [.publishError, .publishError, .publishError] &&
        x.2.2.2.requests.map (·.stage) = [.publishError, .succeeded [x.2.1.id], .notFound] &&
        x.2.1.id ∉ x.2.2.2.tables.dlq.map (·.id)) = true := by
    decide +kernel
  simp only [Option.any_eq_true, Option.bind_eq_some_iff, Option.map_eq_some_iff, Bool.and_eq_true,
    List.isEmpty_iff, decide_eq_true_eq] at h
  obtain ⟨_, ⟨st, first, d, found, st', failing, st'', mixed, rfl⟩, ⟨⟨quiet, failed'⟩, answered⟩, gone⟩ := h
  have reach : Reachable {} st := ⟨_, (Lts.Run.of_check first).any⟩
  have there : d ∈ st.tables.dlq := (Tables.getDlq_some found).1
  have run := Lts.Run.of_check failing
  have unpublished : Unpublished d st := by
    constructor <;> rw [quiet] <;> intro q hq <;> cases hq
  have spared := run.mono (D := SparesEndpoint d) fun _ _ h => Fails.spares h
  have spared' := (Lts.Run.of_check mixed).mono (D := SparesEndpoint d) fun _ _ h => by simpa using h
  obtain ⟨exclusive, failed⟩ := dead_letter_requests reach there spared
  obtain ⟨exclusive', -⟩ := dead_letter_requests reach there spared'
  exact ⟨st, st', st'', d, ⟨failed', exclusive, failed unpublished run⟩, answered, exclusive',
    fun kept => gone (List.mem_map_of_mem kept)⟩

end Desk
end HookRelay
