import HookRelay.RowLocks

/-!
# The operators' requests about dead letters

The requests of `replay_dlq_entry`, `delete_dlq_entry` and `retry_event` from their arrival to their
answer, over the system whose transactions they run: a request waits for the row lock of another one,
finds its row or answers 404, publishes or fails with the exception of `publish` and is rolled back,
and commits.
-/

namespace HookRelay

/-- `POST /dlq/{dlq_id}/replay`, `DELETE /dlq/{dlq_id}` and `POST /events/{event_id}/retry`. -/
inductive DlqRequestKind where
  | replay (dlqId : UUID)
  | delete (dlqId : UUID)
  | retry (eventId : UUID)
  deriving DecidableEq

/-- How far a request has come: not at its row yet; in transaction `j` of the system; answered with
404; failed with the exception of `publish`; or committed, with the dead letters it removed. -/
inductive DlqRequestStage where
  | arrived
  | running (j : Nat)
  | notFound
  | publishError
  | succeeded (removed : List UUID)
  deriving DecidableEq

structure DlqRequest where
  kind : DlqRequestKind
  stage : DlqRequestStage := .arrived

namespace DlqRequest

def removed (q : DlqRequest) : List UUID :=
  match q.stage with
  | .succeeded removed => removed
  | _ => []

def transaction (q : DlqRequest) : Option Nat :=
  match q.stage with
  | .running j => some j
  | _ => none

def finished (q : DlqRequest) : Bool :=
  match q.stage with
  | .arrived | .running _ => false
  | .notFound | .publishError | .succeeded _ => true

end DlqRequest

/-- A deployment and its requests about dead letters. -/
structure Desk where
  system : State
  requests : List DlqRequest := []

def Desk.initial : Desk := { system := HookRelay.initial }

/-- The action is a step of a request about dead letters. -/
def Action.operates : Action → Bool
  | .deleteDlq _ | .retryEvent _ | .replayDlq _ | .request _ _ => true
  | _ => false

namespace Desk

inductive Action where
  | arrive (kind : DlqRequestKind)
  | lock (i : Nat)
  | publish (i partition offset : Nat)
  | publishFails (i : Nat)
  | delete (i : Nat)
  | commit (i : Nat)
  | other (a : HookRelay.Action)

def tables (st : Desk) : Tables := st.system.store.db.toTables

def setStage (st : Desk) (i : Nat) (q : DlqRequest) (stage : DlqRequestStage) : Desk :=
  { st with requests := st.requests.set i { q with stage } }

/-- `db.get(…, with_for_update=True)`: 404 without the row, else it waits for the row's lock. The
transaction of `delete_dlq_entry` has nothing to wait for behind it. -/
def lock (st : Desk) (i : Nat) (q : DlqRequest) : Option Desk :=
  let running : DlqRequestStage := .running st.system.store.requests.length
  match q.kind with
  | .replay id =>
    if (st.tables.getDlq id).isNone then some (st.setStage i q .notFound)
    else (st.system.replayDlq id).map fun system => { st with system }.setStage i q running
  | .delete id =>
    if (st.tables.getDlq id).isNone then some (st.setStage i q .notFound)
    else (st.system.deleteDlq id).map fun system => { st with system }.setStage i q (.succeeded [id])
  | .retry id =>
    if (st.tables.getEvent id).isNone then some (st.setStage i q .notFound)
    else (st.system.retryEvent id).map fun system => { st with system }.setStage i q running

/-- The stage of the transaction a request runs. -/
def stageOf (st : Desk) (j : Nat) : Option RequestStage :=
  (st.system.store.requests[j]?).map (·.stage)

def step (cfg : Settings) (st : Desk) : Action → Option Desk
  | .arrive kind => some { st with requests := st.requests ++ [{ kind }] }
  | .lock i => do
    let q ← st.requests[i]?
    if q.stage = .arrived then st.lock i q else none
  | .publish i partition offset => do
    let q ← st.requests[i]?
    let j ← q.transaction
    let system ← st.system.requestStep j (.publish partition offset)
    some { st with system }
  | .publishFails i => do
    let q ← st.requests[i]?
    let j ← q.transaction
    if st.stageOf j = some .locked then
      let system ← st.system.requestStep j .abort
      some ({ st with system }.setStage i q .publishError)
    else none
  | .delete i => do
    let q ← st.requests[i]?
    let j ← q.transaction
    let system ← st.system.requestStep j .delete
    some { st with system }
  | .commit i => do
    let q ← st.requests[i]?
    let j ← q.transaction
    match st.stageOf j with
    | some (.deleted _ rows) =>
      let system ← st.system.requestStep j .commit
      some ({ st with system }.setStage i q (.succeeded rows))
    | _ => none
  | .other a => if a.operates then none else (st.system.step cfg a).map fun system => { st with system }

/-- The states some interleaving of the requests and the rest of the deployment reaches. -/
abbrev Reachable (cfg : Settings) (st : Desk) : Prop :=
  Lts.Reachable (Desk.step cfg) Lts.Any initial st

end Desk

/-! ## What a step can do -/

/-- The transaction is one of such a request. -/
def Request.For (sq : Request) : DlqRequestKind → Prop
  | .replay id => sq.kind = .replay id
  | .retry id => sq.kind = .retry ∧ sq.eventId = id
  | .delete _ => False

/-- The dead letter the request is about, other than as one of its event. -/
def DlqRequest.takes (q : DlqRequest) (id : UUID) : Prop := q.kind = .replay id ∨ q.kind = .delete id

namespace Desk

/-- The steps of the requests and of the rest of the deployment. -/
inductive Moves (cfg : Settings) (st : Desk) : Action → Desk → Prop where
  | arrive {kind : DlqRequestKind} :
      Moves cfg st (.arrive kind) { st with requests := st.requests ++ [{ kind }] }
  | notFound {i : Nat} {q : DlqRequest} (found : st.requests[i]? = some q)
      (arrived : q.stage = .arrived) : Moves cfg st (.lock i) (st.setStage i q .notFound)
  | lock {i : Nat} {q : DlqRequest} {a : HookRelay.Action} {system : State} {new : Request}
      (found : st.requests[i]? = some q) (arrived : q.stage = .arrived)
      (taken : Transition cfg st.system a system)
      (appended : system.store.requests = st.system.store.requests ++ [new])
      (same : system.store.db = st.system.store.db) (new_locked : new.stage = .locked)
      (new_for : new.For q.kind) :
      Moves cfg st (.lock i)
        ({ st with system }.setStage i q (.running st.system.store.requests.length))
  | deleted {i : Nat} {q : DlqRequest} {id : UUID} {system : State}
      (found : st.requests[i]? = some q) (arrived : q.stage = .arrived) (kind : q.kind = .delete id)
      (deleted : Transition cfg st.system (.deleteDlq id) system) :
      Moves cfg st (.lock i) ({ st with system }.setStage i q (.succeeded [id]))
  | publish {i j p o : Nat} {q : DlqRequest} {system : State} (found : st.requests[i]? = some q)
      (running : q.stage = .running j)
      (published : Transition cfg st.system (.request j (.publish p o)) system) :
      Moves cfg st (.publish i p o) { st with system }
  | publishFails {i j : Nat} {q : DlqRequest} {system : State} (found : st.requests[i]? = some q)
      (running : q.stage = .running j)
      (aborted : Transition cfg st.system (.request j .abort) system) :
      Moves cfg st (.publishFails i) ({ st with system }.setStage i q .publishError)
  | delete {i j : Nat} {q : DlqRequest} {system : State} (found : st.requests[i]? = some q)
      (running : q.stage = .running j)
      (deleted : Transition cfg st.system (.request j .delete) system) :
      Moves cfg st (.delete i) { st with system }
  | commit {i j : Nat} {q : DlqRequest} {sq : Request} {r : Record Message} {rows : List UUID}
      {system : State} (found : st.requests[i]? = some q) (running : q.stage = .running j)
      (transaction : st.system.store.requests[j]? = some sq) (stage : sq.stage = .deleted r rows)
      (committed : Transition cfg st.system (.request j .commit) system) :
      Moves cfg st (.commit i) ({ st with system }.setStage i q (.succeeded rows))
  | other {a : HookRelay.Action} {system : State} (other : a.operates = false)
      (step : Transition cfg st.system a system) : Moves cfg st (.other a) { st with system }

section

variable {cfg : Settings} {st st' : Desk}

theorem transaction_eq_some {q : DlqRequest} {j : Nat} :
    q.transaction = some j ↔ q.stage = .running j := by
  unfold DlqRequest.transaction
  split <;> simp_all

theorem lock_moves {i : Nat} {q : DlqRequest} (found : st.requests[i]? = some q)
    (arrived : q.stage = .arrived) (h : st.lock i q = some st') : Moves cfg st (.lock i) st' := by
  unfold Desk.lock at h
  split at h
  · rename_i id kind
    split at h
    · cases h
      exact .notFound found arrived
    · obtain ⟨system, replayed, rfl⟩ := Option.map_eq_some_iff.1 h
      have taken : Transition cfg st.system (.replayDlq id) system := step_transition replayed
      have := taken
      cases this with
      | replayDlq =>
        exact .lock found arrived taken rfl rfl rfl (by rw [kind]; rfl)
  · rename_i id kind
    split at h
    · cases h
      exact .notFound found arrived
    · obtain ⟨system, deleted, rfl⟩ := Option.map_eq_some_iff.1 h
      exact .deleted found arrived kind (step_transition deleted)
  · rename_i id kind
    split at h
    · cases h
      exact .notFound found arrived
    · obtain ⟨system, retried, rfl⟩ := Option.map_eq_some_iff.1 h
      have taken : Transition cfg st.system (.retryEvent id) system := step_transition retried
      have := taken
      cases this with
      | retryEvent =>
        exact .lock found arrived taken rfl rfl rfl (by rw [kind]; exact ⟨rfl, rfl⟩)

/-- Every step is one of `Moves`. -/
theorem step_moves {a : Action} (h : st.step cfg a = some st') : Moves cfg st a st' := by
  cases a with
  | arrive kind => cases h; exact .arrive
  | lock i =>
    simp only [Desk.step, Option.bind_eq_bind, Option.bind_eq_some_iff,
      Option.ite_none_right_eq_some] at h
    obtain ⟨q, found, arrived, h⟩ := h
    exact lock_moves found arrived h
  | publish i p o =>
    simp only [Desk.step, Option.bind_eq_bind, Option.bind_eq_some_iff, transaction_eq_some,
      Option.some.injEq] at h
    obtain ⟨q, found, j, running, system, published, rfl⟩ := h
    exact .publish found running (request_transition published)
  | publishFails i =>
    simp only [Desk.step, Option.bind_eq_bind, Option.bind_eq_some_iff, transaction_eq_some,
      Option.ite_none_right_eq_some, Option.some.injEq] at h
    obtain ⟨q, found, j, running, -, system, aborted, rfl⟩ := h
    exact .publishFails found running (request_transition aborted)
  | delete i =>
    simp only [Desk.step, Option.bind_eq_bind, Option.bind_eq_some_iff, transaction_eq_some,
      Option.some.injEq] at h
    obtain ⟨q, found, j, running, system, deleted, rfl⟩ := h
    exact .delete found running (request_transition deleted)
  | commit i =>
    simp only [Desk.step, Option.bind_eq_bind, Option.bind_eq_some_iff, transaction_eq_some] at h
    obtain ⟨q, found, j, running, h⟩ := h
    split at h
    · rename_i r rows deleted
      obtain ⟨sq, transaction, stage⟩ := Option.map_eq_some_iff.1 deleted
      obtain ⟨system, committed, h⟩ := Option.bind_eq_some_iff.1 h
      cases h
      exact .commit found running transaction stage (request_transition committed)
    · cases h
  | other a =>
    simp only [Desk.step, Option.ite_none_left_eq_some, Option.map_eq_some_iff,
      Bool.not_eq_true] at h
    obtain ⟨other, system, step, rfl⟩ := h
    exact .other other (step_transition step)

end

end Desk

/-! ## What a transaction of the system keeps -/

section System

variable {cfg : Settings} {s s' : State} {a : Action} {sq : Request} {j : Nat}

/-- The rest of the deployment leaves the operators' transactions alone. -/
theorem Transition.requests_eq (hs : Transition cfg s a s') (other : a.operates = false) :
    s'.store.requests = s.store.requests := by
  cases hs with
  | retryEvent | replayDlq | requestPublish | requestDelete | requestCommit | requestAbort => cases other
  | task _ moved => exact moved.requests_eq
  | _ => rfl

/-- A transaction is open until it commits or is rolled back. -/
theorem Transition.open_kept (hs : Transition cfg s a s') (found : s.store.requests[j]? = some sq)
    (opened : sq.isOpen = true) (commit : a ≠ .request j .commit) (abort : a ≠ .request j .abort) :
    ∃ stage, s'.store.requests[j]? = some { sq with stage } ∧
      { sq with stage }.isOpen = true := by
  obtain ⟨stage, found', moved⟩ := hs.request_at found
  refine ⟨stage, found', ?_⟩
  rcases moved with ⟨rfl, -⟩ | ⟨b, rfl, moved⟩
  · exact opened
  · cases moved with
    | publish | delete => rfl
    | commit => exact absurd rfl commit
    | abort => exact absurd rfl abort

/-- A transaction that is open was open before, or has just been opened. -/
theorem Transition.open_cases (hs : Transition cfg s a s') (found : s'.store.requests[j]? = some sq)
    (opened : sq.isOpen = true) :
    (∃ old, s.store.requests[j]? = some old ∧ old.isOpen = true ∧ a ≠ .request j .commit ∧
      a ≠ .request j .abort) ∨
    j = s.store.requests.length ∧ s'.store.requests.length = s.store.requests.length + 1 := by
  rcases hs.requests_cases with ⟨same | ⟨new, grown, -⟩, waits⟩ | ⟨i, b, q, stage, rfl, here, moved, set, -⟩
  · exact .inl ⟨sq, same ▸ found, opened, waits j _, waits j _⟩
  · rw [grown] at found
    rcases Nat.lt_or_ge j s.store.requests.length with old | new
    · rw [List.getElem?_append_left old] at found
      exact .inl ⟨sq, found, opened, waits j _, waits j _⟩
    · have bound := (List.getElem?_eq_some_iff.1 found).1
      rw [List.length_append, List.length_singleton] at bound
      exact .inr ⟨by omega, by rw [grown, List.length_append, List.length_singleton]⟩
  · left
    rw [set] at found
    by_cases same : i = j
    · subst same
      rw [List.getElem?_set_self (List.getElem?_eq_some_iff.1 here).1] at found
      cases found
      refine ⟨q, here, ?_, ?_, ?_⟩
      · cases moved with
        | publish _ _ stage | delete stage => simp [Request.isOpen, stage]
        | commit | abort => cases opened
      · rintro ⟨⟩
        cases moved
        cases opened
      · rintro ⟨⟩
        cases moved
        cases opened
    · rw [List.getElem?_set_ne same] at found
      exact ⟨sq, found, opened, fun e => same (by cases e; rfl), fun e => same (by cases e; rfl)⟩

/-- A dead letter that is gone does not come back. -/
theorem Transition.dlq_gone (hs : Transition cfg s a s') {x : UUID}
    (h : x ∈ s.store.db.issued ∧ x ∉ s.store.db.dlqIds) :
    x ∈ s'.store.db.issued ∧ x ∉ s'.store.db.dlqIds := by
  refine ⟨hs.evolves.issued x h.1, fun there => ?_⟩
  obtain ⟨d, hd, rfl⟩ := Tables.mem_dlqIds.1 there
  rcases hs.dlq_cases hd with old | ⟨_, _, _, _, -, -, -, -, -, -, fresh, -⟩
  · exact h.2 (List.mem_map_of_mem old)
  · exact fresh h.1

end System

theorem Request.For.of_stage {sq : Request} {stage : RequestStage} {kind : DlqRequestKind}
    (h : sq.For kind) : { sq with stage }.For kind := by
  cases kind <;> exact h

/-! ## Invariants -/

/-- Two requests run different transactions and have removed different dead letters. -/
structure DlqRequest.Apart (q q' : DlqRequest) : Prop where
  running : ∀ j, q.stage = .running j → q'.stage ≠ .running j
  removed : ∀ x ∈ q.removed, x ∉ q'.removed

theorem DlqRequest.Apart.symm {q q' : DlqRequest} (h : q.Apart q') : q'.Apart q where
  running j hj hj' := h.running j hj' hj
  removed x hx hx' := h.removed x hx' hx

namespace Desk

structure Inv (st : Desk) : Prop where
  apart : Slots.Apart DlqRequest.Apart st.requests
  running : ∀ q ∈ st.requests, ∀ j, q.stage = .running j →
    ∃ sq, st.system.store.requests[j]? = some sq ∧ sq.isOpen = true ∧ sq.For q.kind
  opened : ∀ j sq, st.system.store.requests[j]? = some sq → sq.isOpen = true →
    ∃ q ∈ st.requests, q.stage = .running j
  gone : ∀ q ∈ st.requests, ∀ x ∈ q.removed, x ∈ st.tables.issued ∧ x ∉ st.tables.dlqIds
  takes : ∀ q ∈ st.requests, ∀ rows, q.stage = .succeeded rows → ∀ id, q.takes id → rows = [id]

section

variable {cfg : Settings} {st st' : Desk} {i : Nat} {q : DlqRequest} {stage : DlqRequestStage}
  {system : State} {a : HookRelay.Action}

/-- The invariant after a step of the system in which no request changes its stage. -/
theorem Inv.system_step (h : Inv st) (hs : Transition cfg st.system a system)
    (commit : ∀ j, a ≠ .request j .commit) (abort : ∀ j, a ≠ .request j .abort)
    (opens : system.store.requests.length = st.system.store.requests.length) :
    Inv { st with system } where
  apart := h.apart
  running q hq j running := by
    obtain ⟨sq, found, opened, fits⟩ := h.running q hq j running
    obtain ⟨stage, found', opened'⟩ := hs.open_kept found opened (commit j) (abort j)
    exact ⟨_, found', opened', Request.For.of_stage fits⟩
  opened j sq found opened := by
    rcases hs.open_cases found opened with ⟨old, found', opened', -⟩ | ⟨-, grown⟩
    · exact h.opened j old found' opened'
    · omega
  gone q hq x hx := hs.dlq_gone (h.gone q hq x hx)
  takes := h.takes

/-- The invariant after a step in which request `i` comes to a stage: it opens the next transaction,
or it closes its own. -/
theorem Inv.stage_step (h : Inv st) (found : st.requests[i]? = some q)
    (kept : ∀ j sq, q.stage ≠ .running j → st.system.store.requests[j]? = some sq →
      sq.isOpen = true → ∃ stage, system.store.requests[j]? = some { sq with stage } ∧
        { sq with stage }.isOpen = true)
    (opens : ∀ j sq, system.store.requests[j]? = some sq → sq.isOpen = true →
      stage = .running j ∨ q.stage ≠ .running j ∧
        ∃ old, st.system.store.requests[j]? = some old ∧ old.isOpen = true)
    (mine : ∀ j, stage = .running j → j = st.system.store.requests.length ∧
      ∃ sq, system.store.requests[j]? = some sq ∧ sq.isOpen = true ∧ sq.For q.kind)
    (gone : ∀ x, x ∈ st.tables.issued ∧ x ∉ st.tables.dlqIds →
      x ∈ system.store.db.issued ∧ x ∉ system.store.db.dlqIds)
    (rows : ∀ x ∈ { q with stage }.removed, x ∈ st.tables.dlqIds ∧ x ∈ system.store.db.issued ∧
      x ∉ system.store.db.dlqIds)
    (takes : ∀ rows, stage = .succeeded rows → ∀ id, q.takes id → rows = [id]) :
    Inv ({ st with system }.setStage i q stage) := by
  have other : ∀ j p, j ≠ i → st.requests[j]? = some p → ∀ k, p.stage = .running k →
      q.stage ≠ .running k := fun j p ne hp k hk =>
    (h.apart j i p q ne hp found).running k hk
  constructor
  · refine h.apart.set fun j p ne hp => ?_
    have apart : { q with stage }.Apart p := by
      constructor
      · intro k running hk
        obtain ⟨sq, found', -⟩ := h.running p (List.mem_of_getElem? hp) k hk
        have bound := (List.getElem?_eq_some_iff.1 found').1
        rw [(mine k running).1] at bound
        exact Nat.lt_irrefl _ bound
      · exact fun x hx hx' => (h.gone p (List.mem_of_getElem? hp) x hx').2 (rows x hx).1
    exact ⟨apart, apart.symm⟩
  · intro p hp k running
    rcases Slots.mem_set hp with rfl | ⟨j, ne, hj⟩
    · exact (mine k running).2
    · obtain ⟨sq, found', opened, fits⟩ := h.running p (List.mem_of_getElem? hj) k running
      obtain ⟨stage, there, opened⟩ := kept k sq (other j p ne hj k running) found' opened
      exact ⟨_, there, opened, Request.For.of_stage fits⟩
  · intro j sq there opened
    have slot : { q with stage } ∈ st.requests.set i { q with stage } :=
      List.mem_of_getElem? (List.getElem?_set_self (List.getElem?_eq_some_iff.1 found).1)
    rcases opens j sq there opened with running | ⟨ne, old, there, opened⟩
    · exact ⟨_, slot, running⟩
    · obtain ⟨p, hp, running⟩ := h.opened j old there opened
      obtain ⟨k, hk⟩ := List.mem_iff_getElem?.1 hp
      have here : k ≠ i := by
        rintro rfl
        cases found.symm.trans hk
        exact ne running
      refine ⟨p, List.mem_of_getElem? (i := k) ?_, running⟩
      exact (List.getElem?_set_ne here.symm).trans hk
  · intro p hp x hx
    rcases Slots.mem_set hp with rfl | ⟨j, ne, hj⟩
    · exact (rows x hx).2
    · exact gone x (h.gone p (List.mem_of_getElem? hj) x hx)
  · intro p hp removed success id takes'
    rcases Slots.mem_set hp with rfl | ⟨j, ne, hj⟩
    · exact takes removed success id takes'
    · exact h.takes p (List.mem_of_getElem? hj) removed success id takes'

/-- The invariant after the commit or the rollback of a request's transaction. -/
theorem Inv.close {j : Nat} {b : RequestAction} (h : Inv st) (found : st.requests[i]? = some q)
    (running : q.stage = .running j) (hs : Transition cfg st.system (.request j b) system)
    (ends : b = .commit ∨ b = .abort) (closed : ∀ k, stage ≠ .running k)
    (rows : ∀ x ∈ { q with stage }.removed, x ∈ st.tables.dlqIds ∧ x ∉ system.store.db.dlqIds)
    (takes : ∀ rows, stage = .succeeded rows → ∀ id, q.takes id → rows = [id]) :
    Inv ({ st with system }.setStage i q stage) := by
  have elsewhere : ∀ {k : Nat}, q.stage ≠ .running k → j ≠ k := fun ne same => ne (same ▸ running)
  refine h.stage_step found (fun k sq ne there opened => ?_) (fun k sq there opened => ?_)
    (fun k hk => absurd hk (closed k)) (fun x => hs.dlq_gone) (fun x hx => ?_) takes
  · refine hs.open_kept there opened ?_ ?_
    · exact fun same => elsewhere ne (by cases same; rfl)
    · exact fun same => elsewhere ne (by cases same; rfl)
  · rcases hs.open_cases there opened with ⟨old, there, opened, commit, abort⟩ | ⟨-, grown⟩
    · refine .inr ⟨fun same => ?_, old, there, opened⟩
      cases running.symm.trans same
      exact ends.elim (fun e => commit (by rw [e])) fun e => abort (by rw [e])
    · have same : system.store.requests.length = st.system.store.requests.length := by
        cases hs <;> exact List.length_set
      omega
  · obtain ⟨there, gone⟩ := rows x hx
    obtain ⟨d, hd, rfl⟩ := Tables.mem_dlqIds.1 there
    exact ⟨there, hs.evolves.issued _ (st.system.store.db.valid.dlq_issued d hd), gone⟩

/-- A committed transaction has removed the rows it held. -/
theorem commit_rows {s s' : State} {j : Nat} {sq : Request} {r : Record Message} {rows : List UUID}
    (locks : RowLocks s) (transaction : s.store.requests[j]? = some sq)
    (stage : sq.stage = .deleted r rows) (hs : Transition cfg s (.request j .commit) s') :
    sq.lockedRows = rows ∧ ∀ x ∈ rows, x ∈ s.store.db.dlqIds ∧ x ∉ s'.store.db.dlqIds := by
  have hsq := List.mem_of_getElem? transaction
  have same := locks.deleting sq hsq r rows stage
  refine ⟨same, fun x hx => ⟨locks.held sq hsq x (same ▸ hx), fun there => ?_⟩⟩
  cases hs with
  | requestCommit found stage' =>
    cases transaction.symm.trans found
    cases stage.symm.trans stage'
    obtain ⟨d, hd, rfl⟩ := Tables.mem_dlqIds.1 there
    exact of_decide_eq_true (List.mem_filter.1 hd).2 hx

theorem Inv.step {b : Action} (h : Inv st) (locks : RowLocks st.system) (hs : Moves cfg st b st') :
    Inv st' := by
  cases hs with
  | @arrive kind =>
    let new : DlqRequest := { kind }
    have old : ∀ q ∈ st.requests ++ [new], q ∈ st.requests ∨ q = new := fun q hq =>
      (List.mem_append.1 hq).imp_right List.mem_singleton.1
    refine ⟨h.apart.snoc fun q _ => ?_, ?_, ?_, ?_, ?_⟩
    · have apart : DlqRequest.Apart { kind } q := ⟨by rintro _ ⟨⟩, fun x hx => by cases hx⟩
      exact ⟨apart, apart.symm⟩
    · intro q hq j running
      rcases old q hq with hq | rfl
      · exact h.running q hq j running
      · cases running
    · intro j sq found opened
      obtain ⟨q, hq, running⟩ := h.opened j sq found opened
      exact ⟨q, List.mem_append_left _ hq, running⟩
    · intro q hq x hx
      rcases old q hq with hq | rfl
      · exact h.gone q hq x hx
      · cases hx
    · intro q hq rows success
      rcases old q hq with hq | rfl
      · exact h.takes q hq rows success
      · cases success
  | notFound found arrived =>
    exact h.stage_step found (fun j sq _ there opened => ⟨sq.stage, there, opened⟩)
      (fun j sq there opened => .inr ⟨by simp [arrived], sq, there, opened⟩) (fun j hj => by cases hj)
      (fun x hx => hx) (fun x hx => by cases hx) fun rows hr => by cases hr
  | @lock i q a system new found arrived taken appended same new_locked new_for =>
    have db : system.store.db.toTables = st.tables := by rw [same]; rfl
    refine h.stage_step found (fun j sq _ there opened => ⟨sq.stage, ?_, opened⟩)
      (fun j sq there opened => ?_) (fun j hj => ?_) (fun x hx => db ▸ hx) (fun x hx => by cases hx)
      fun rows hr => by cases hr
    · rw [appended, List.getElem?_append_left (List.getElem?_eq_some_iff.1 there).1]
      exact there
    · rcases taken.open_cases there opened with ⟨old, there, opened, -⟩ | ⟨rfl, -⟩
      · exact .inr ⟨by simp [arrived], old, there, opened⟩
      · exact .inl rfl
    · cases hj
      refine ⟨rfl, new, ?_, by simp [Request.isOpen, new_locked], new_for⟩
      rw [appended, List.getElem?_concat_length]
  | @deleted i q id system found arrived kind deleted =>
    have requests : system.store.requests = st.system.store.requests := by cases deleted; rfl
    refine h.stage_step found (fun j sq _ there opened => ⟨sq.stage, requests ▸ there, opened⟩)
      (fun j sq there opened => .inr ⟨by simp [arrived], sq, requests ▸ there, opened⟩)
      (fun j hj => by cases hj) (fun x => deleted.dlq_gone) (fun x hx => ?_) fun rows hr id' takes => ?_
    · cases List.mem_singleton.1 hx
      cases deleted with
      | @deleteDlq _ d there same =>
        refine ⟨List.mem_map.2 ⟨d, there, same⟩, ?_, fun still => ?_⟩
        · exact same ▸ st.system.store.db.valid.dlq_issued d there
        · obtain ⟨d', hd', same'⟩ := Tables.mem_dlqIds.1 still
          have kept := (List.mem_filter.1 hd').2
          simp [same'] at kept
    · cases hr
      rcases takes with replay | delete
      · rw [kind] at replay
        cases replay
      · rw [kind] at delete
        cases delete
        rfl
  | publish found running published =>
    exact h.system_step published (by simp) (by simp) (by cases published; exact List.length_set)
  | publishFails found running aborted =>
    exact h.close found running aborted (.inr rfl) (by simp) (fun x hx => by cases hx)
      fun rows hr => by cases hr
  | delete found running deleted =>
    exact h.system_step deleted (by simp) (by simp) (by cases deleted; exact List.length_set)
  | @commit i j q sq r rows system found running transaction stage committed =>
    obtain ⟨held, gone⟩ := commit_rows locks transaction stage committed
    refine h.close found running committed (.inl rfl) (by simp) gone fun rows' hr id takes => ?_
    cases hr
    obtain ⟨sq', transaction', -, fits⟩ := h.running q (List.mem_of_getElem? found) j running
    cases transaction.symm.trans transaction'
    rcases takes with replay | delete
    · have kind : sq.kind = .replay id := by simpa [replay, Request.For] using fits
      rw [← held, Request.lockedRows, kind]
      simp [Request.isOpen, stage]
    · simp [delete, Request.For] at fits
  | other other step =>
    exact h.system_step step (fun j same => by rw [same] at other; cases other)
      (fun j same => by rw [same] at other; cases other) (by rw [step.requests_eq other])

theorem Inv.initial : Inv .initial where
  apart := .nil
  running _ hq := by cases hq
  opened _ _ found := by cases found
  gone _ hq := by cases hq
  takes _ hq := by cases hq

/-- A step of a request is a step of the system or none. -/
theorem system_step {b : Action} (step : st.step cfg b = some st') :
    st'.system = st.system ∨ ∃ a, st.system.step cfg a = some st'.system := by
  cases b with
  | arrive kind => cases step; exact .inl rfl
  | lock i =>
    simp only [Desk.step, Option.bind_eq_bind, Option.bind_eq_some_iff,
      Option.ite_none_right_eq_some] at step
    obtain ⟨q, -, -, step⟩ := step
    unfold Desk.lock at step
    split at step <;> split at step
    · cases step; exact .inl rfl
    · obtain ⟨system, taken, rfl⟩ := Option.map_eq_some_iff.1 step
      exact .inr ⟨.replayDlq _, taken⟩
    · cases step; exact .inl rfl
    · obtain ⟨system, taken, rfl⟩ := Option.map_eq_some_iff.1 step
      exact .inr ⟨.deleteDlq _, taken⟩
    · cases step; exact .inl rfl
    · obtain ⟨system, taken, rfl⟩ := Option.map_eq_some_iff.1 step
      exact .inr ⟨.retryEvent _, taken⟩
  | publish i p o =>
    simp only [Desk.step, Option.bind_eq_bind, Option.bind_eq_some_iff, Option.some.injEq] at step
    obtain ⟨q, -, j, -, system, published, rfl⟩ := step
    exact .inr ⟨.request j (.publish p o), published⟩
  | publishFails i =>
    simp only [Desk.step, Option.bind_eq_bind, Option.bind_eq_some_iff,
      Option.ite_none_right_eq_some, Option.some.injEq] at step
    obtain ⟨q, -, j, -, -, system, aborted, rfl⟩ := step
    exact .inr ⟨.request j .abort, aborted⟩
  | delete i =>
    simp only [Desk.step, Option.bind_eq_bind, Option.bind_eq_some_iff, Option.some.injEq] at step
    obtain ⟨q, -, j, -, system, deleted, rfl⟩ := step
    exact .inr ⟨.request j .delete, deleted⟩
  | commit i =>
    simp only [Desk.step, Option.bind_eq_bind, Option.bind_eq_some_iff] at step
    obtain ⟨q, -, j, -, step⟩ := step
    split at step
    · obtain ⟨system, committed, step⟩ := Option.bind_eq_some_iff.1 step
      cases step
      exact .inr ⟨.request j .commit, committed⟩
    · cases step
  | other a =>
    simp only [Desk.step, Option.ite_none_left_eq_some, Option.map_eq_some_iff] at step
    obtain ⟨-, system, step, rfl⟩ := step
    exact .inr ⟨a, step⟩

/-- The requests bring the system only to states that it reaches. -/
theorem system_reachable (h : Reachable cfg st) : HookRelay.Reachable cfg st.system :=
  h.refines fun _ _ _ _ step => system_step step

theorem inv (h : Reachable cfg st) : Inv st :=
  h.invariant_with (J := fun st => RowLocks st.system) (fun _ reach => rowLocks (system_reachable reach))
    (fun _ _ _ locks h _ step => h.step locks (step_moves step)) .initial

/-! ## What is removed, and by whom -/

/-- What a request has removed stays on record. -/
theorem Moves.removed_mono {b : Action} (hs : Moves cfg st b st') {x : UUID}
    (h : ∃ q ∈ st.requests, x ∈ q.removed) : ∃ q ∈ st'.requests, x ∈ q.removed := by
  obtain ⟨q', hq', hx⟩ := h
  have set : ∀ {i : Nat} {q : DlqRequest} {stage : DlqRequestStage}, st.requests[i]? = some q →
      q.removed = [] → ∃ q' ∈ st.requests.set i { q with stage }, x ∈ q'.removed := by
    intro i q stage found none
    have ne : q' ≠ q := by
      rintro rfl
      rw [none] at hx
      cases hx
    exact ⟨q', Slots.mem_set_of_ne found hq' ne, hx⟩
  cases hs with
  | arrive => exact ⟨q', List.mem_append_left _ hq', hx⟩
  | notFound found arrived | lock found arrived | deleted found arrived =>
    exact set found (by simp [DlqRequest.removed, arrived])
  | publishFails found running | commit found running =>
    exact set found (by simp [DlqRequest.removed, running])
  | publish | delete | other => exact ⟨q', hq', hx⟩

/-- The endpoint of the dead letter is deleted. -/
def Action.deletesEndpointOf (d : DLQEntry) : Action → Bool
  | .other (.deleteEndpoint p) => p = d.endpointId
  | _ => false

abbrev SparesEndpoint (d : DLQEntry) (_ : Desk) (b : Action) : Prop := b.deletesEndpointOf d = false

/-- A dead letter goes only with its endpoint or by a request that removes it. -/
theorem Moves.kept {b : Action} (hs : Moves cfg st b st') {d : DLQEntry}
    (there : d ∈ st.tables.dlq) (spares : SparesEndpoint d st b) :
    d ∈ st'.tables.dlq ∨ ∃ q ∈ st'.requests, d.id ∈ q.removed := by
  have slot : ∀ {i : Nat} {q : DlqRequest} {stage : DlqRequestStage}, st.requests[i]? = some q →
      { q with stage } ∈ st.requests.set i { q with stage } := fun found =>
    List.mem_of_getElem? (List.getElem?_set_self (List.getElem?_eq_some_iff.1 found).1)
  cases hs with
  | arrive | notFound => exact .inl there
  | lock _ _ _ _ same => exact .inl (by rw [Desk.tables, Desk.setStage, same]; exact there)
  | deleted found arrived kind deleted =>
    rcases deleted.dlq_kept there with kept | same | ⟨same, -⟩ | ⟨_, _, _, _, same, -⟩
    · exact .inl kept
    · cases same
    · cases same
      exact .inr ⟨_, slot found, List.mem_singleton_self _⟩
    · cases same
  | @commit i j q sq r rows system found running transaction stage committed =>
    rcases committed.dlq_kept there with kept | same | ⟨same, -⟩ | ⟨_, _, _, _, same, here, stage', hd⟩
    · exact .inl kept
    · cases same
    · cases same
    · cases same
      cases transaction.symm.trans here
      cases stage.symm.trans stage'
      exact .inr ⟨_, slot found, hd⟩
  | publish _ _ hs | publishFails _ _ hs | delete _ _ hs =>
    rcases hs.dlq_kept there with kept | same | ⟨same, -⟩ | ⟨_, _, _, _, same, -⟩
    · exact .inl kept
    · cases same
    · cases same
    · cases same
  | other other step =>
    rcases step.dlq_kept there with kept | same | ⟨same, -⟩ | ⟨_, _, _, _, same, -⟩
    · exact .inl kept
    · simp [SparesEndpoint, Action.deletesEndpointOf, same] at spares
    · rw [same] at other
      cases other
    · rw [same] at other
      cases other

end

/-- The request's transaction has published its record. -/
def Published (st : Desk) (q : DlqRequest) : Prop :=
  (∃ rows, q.stage = .succeeded rows) ∨
    ∃ j sq r, q.stage = .running j ∧ st.system.store.requests[j]? = some sq ∧
      (sq.stage = .published r ∨ ∃ rows, sq.stage = .deleted r rows)

/-- The requests about a dead letter exclude each other. -/
structure Exclusive (d : DLQEntry) (st : Desk) : Prop where
  /-- It is gone exactly when a request has removed it. -/
  gone : d ∉ st.tables.dlq ↔ ∃ q ∈ st.requests, d.id ∈ q.removed
  /-- At most one request of any kind has removed it. -/
  once : Slots.Apart (fun q q' => d.id ∈ q.removed → d.id ∉ q'.removed) st.requests
  /-- At most one `replay_dlq_entry` or `delete_dlq_entry` of it succeeds; the others are answered
  with 404 or fail. -/
  succeeds : Slots.Apart (fun q q' => q.takes d.id → q'.takes d.id → ∀ rows, q.stage = .succeeded rows →
    q'.finished → q'.stage = .notFound ∨ q'.stage = .publishError) st.requests
  /-- One that succeeds removes it and nothing else. -/
  removes : ∀ q ∈ st.requests, q.takes d.id → ∀ rows, q.stage = .succeeded rows → rows = [d.id]
  /-- At most one `replay_dlq_entry` of it publishes. -/
  publishes : Slots.Apart (fun q q' => q.kind = .replay d.id → q'.kind = .replay d.id →
    st.Published q → ¬ st.Published q') st.requests

section

variable {cfg : Settings} {st st' : Desk} {d : DLQEntry} {q : DlqRequest}

theorem removed_of_succeeded (h : Inv st) (hq : q ∈ st.requests) (takes : q.takes d.id)
    {rows : List UUID} (success : q.stage = .succeeded rows) : d.id ∈ q.removed := by
  have same := h.takes q hq rows success d.id takes
  rw [DlqRequest.removed, success, same]
  exact List.mem_singleton_self d.id

/-- A `replay_dlq_entry` in its transaction holds its dead letter. -/
theorem Inv.replay_holds (h : Inv st) (hq : q ∈ st.requests) (kind : q.kind = .replay d.id) {j : Nat}
    (running : q.stage = .running j) :
    ∃ sq, st.system.store.requests[j]? = some sq ∧ d.id ∈ sq.lockedRows := by
  obtain ⟨sq, found, opened, fits⟩ := h.running q hq j running
  rw [kind] at fits
  have kind : sq.kind = .replay d.id := fits
  refine ⟨sq, found, ?_⟩
  rw [Request.lockedRows, kind]
  simp [opened]

/-- A `replay_dlq_entry` that has published has removed its dead letter or holds it. -/
theorem Inv.replay_published (h : Inv st) (hq : q ∈ st.requests) (kind : q.kind = .replay d.id)
    (published : st.Published q) :
    d.id ∈ q.removed ∨ ∃ j sq, q.stage = .running j ∧ st.system.store.requests[j]? = some sq ∧
      d.id ∈ sq.lockedRows := by
  rcases published with ⟨rows, success⟩ | ⟨j, _, _, running, -⟩
  · exact .inl (removed_of_succeeded h hq (.inl kind) success)
  · obtain ⟨sq, found, held⟩ := h.replay_holds hq kind running
    exact .inr ⟨j, sq, running, found, held⟩

theorem Inv.exclusive (h : Inv st) (locks : RowLocks st.system)
    (kept : d ∈ st.tables.dlq ∨ ∃ q ∈ st.requests, d.id ∈ q.removed) : st.Exclusive d where
  gone := by
    constructor
    · exact kept.resolve_left
    · rintro ⟨q, hq, removed⟩ there
      exact (h.gone q hq d.id removed).2 (List.mem_map_of_mem there)
  once i j q q' ne hq hq' removed := (h.apart i j q q' ne hq hq').removed d.id removed
  succeeds i j q q' ne hq hq' takes takes' rows success finished := by
    have first := removed_of_succeeded h (List.mem_of_getElem? hq) takes success
    cases stage : q'.stage with
    | notFound => exact .inl rfl
    | publishError => exact .inr rfl
    | succeeded rows' =>
      have second := removed_of_succeeded h (List.mem_of_getElem? hq') takes' stage
      exact absurd second ((h.apart i j q q' ne hq hq').removed d.id first)
    | arrived | running => simp [DlqRequest.finished, stage] at finished
  removes q hq takes rows success := h.takes q hq rows success d.id takes
  publishes i j q q' ne hq hq' kind kind' published published' := by
    have apart := h.apart i j q q' ne hq hq'
    have mem := List.mem_of_getElem? hq
    have mem' := List.mem_of_getElem? hq'
    -- what is removed is gone, and what is held is there
    have clash : ∀ {p : DlqRequest} {sq : Request} {k : Nat}, p ∈ st.requests →
        d.id ∈ p.removed → st.system.store.requests[k]? = some sq → d.id ∈ sq.lockedRows → False :=
      fun hp removed found held =>
        (h.gone _ hp d.id removed).2 (locks.held _ (List.mem_of_getElem? found) d.id held)
    rcases h.replay_published mem kind published with removed | ⟨k, sq, running, found, held⟩
    · rcases h.replay_published mem' kind' published' with removed' | ⟨k', sq', _, found', held'⟩
      · exact apart.removed d.id removed removed'
      · exact clash mem removed found' held'
    · rcases h.replay_published mem' kind' published' with removed' | ⟨k', sq', running', found', held'⟩
      · exact clash mem' removed' found held
      · have other : k ≠ k' := fun same => apart.running k running (same ▸ running')
        exact locks.apart k k' sq sq' other found found' d.id held held'

/-- The requests about a dead letter exclude each other in every run that spares its endpoint. -/
theorem exclusive {bs : List Action} (reach : Reachable cfg st) (there : d ∈ st.tables.dlq)
    (run : Lts.Run (Desk.step cfg) (SparesEndpoint d) st bs st') : st'.Exclusive d := by
  have reach' := Lts.Run.reachable reach run.any
  apply (inv reach').exclusive (rowLocks (system_reachable reach'))
  refine run.invariant (I := fun st => d ∈ st.tables.dlq ∨ ∃ q ∈ st.requests, d.id ∈ q.removed)
    (fun st b st' kept spares step => ?_) (.inl there)
  have moved := step_moves step
  rcases kept with there | removed
  · exact moved.kept there spares
  · exact .inr (moved.removed_mono removed)

end

end Desk
end HookRelay
