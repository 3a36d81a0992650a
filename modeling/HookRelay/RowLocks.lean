import HookRelay.Evolution
import HookRelay.Lib.Slots

/-!
# The row locks of the operators' requests

`replay_dlq_entry` takes its dead letter `FOR UPDATE`, and the `DELETE` of `retry_event` locks the rows
it deletes. No row is held by two open requests, and a row that is held is there: whoever else deletes
dead letters waits for its holder.
-/

namespace HookRelay

def Tables.dlqIds (t : Tables) : List UUID := t.dlq.map (·.id)

/-- Two requests hold different dead letters. -/
def Request.Apart (q q' : Request) : Prop := ∀ x ∈ q.lockedRows, x ∉ q'.lockedRows

/-- A request that is about to commit deletes the rows it holds. -/
def Request.HoldsDeleted (q : Request) : Prop :=
  ∀ r rows, q.stage = .deleted r rows → q.lockedRows = rows

structure RowLocks (s : State) : Prop where
  apart : Slots.Apart Request.Apart s.store.requests
  held : ∀ q ∈ s.store.requests, ∀ x ∈ q.lockedRows, x ∈ s.store.db.dlqIds
  deleting : ∀ q ∈ s.store.requests, q.HoldsDeleted

section

variable {cfg : Settings} {s s' : State} {a : Action} {q q' : Request}

theorem Request.Apart.symm (h : q.Apart q') : q'.Apart q := fun x hx hx' => h x hx' hx

theorem dlqLocked_iff {st : Store} {x : UUID} :
    st.dlqLocked x = true ↔ ∃ q ∈ st.requests, x ∈ q.lockedRows := by
  simp [Store.dlqLocked, List.any_eq_true]

theorem not_locked {st : Store} {x : UUID} (free : st.dlqLocked x = false) (hq : q ∈ st.requests) :
    x ∉ q.lockedRows := fun hx =>
  Bool.false_ne_true (free.symm.trans (dlqLocked_iff.2 ⟨q, hq, hx⟩))

theorem Tables.mem_dlqIds {t : Tables} {x : UUID} : x ∈ t.dlqIds ↔ ∃ d ∈ t.dlq, d.id = x :=
  List.mem_map

/-- A request that holds a row is open, and replays the row or deletes it. -/
theorem Request.of_mem_lockedRows {x : UUID} (hx : x ∈ q.lockedRows) :
    q.isOpen = true ∧ (q.kind = .replay x ∨ x ∈ q.deleting) := by
  unfold Request.lockedRows at hx
  split at hx
  · refine ⟨?_, .inr hx⟩
    cases stage : q.stage <;> simp_all [Request.isOpen, Request.deleting]
  · rename_i id kind
    split at hx
    · rename_i opened
      exact ⟨opened, .inl (by rw [kind, List.mem_singleton.1 hx])⟩
    · cases hx

/-- What a request holds after a step of its own: what it held, unless it is a `DELETE` of
`retry_event`, which takes rows nobody holds. -/
theorem Request.Moves.lockedRows {b : RequestAction} {stage : RequestStage}
    (moved : q.Moves s.store.db.toTables b stage) {x : UUID}
    (hx : x ∈ { q with stage }.lockedRows) :
    x ∈ q.lockedRows ∨ q.kind = .retry ∧ b = .delete ∧ x ∈ State.deletes s.store.db.toTables q := by
  cases kind : q.kind with
  | retry =>
    cases moved with
    | publish | commit | abort => simp [Request.lockedRows, Request.deleting, kind] at hx
    | delete => exact .inr ⟨rfl, rfl, by simpa [Request.lockedRows, Request.deleting, kind] using hx⟩
  | replay dlqId =>
    left
    cases moved with
    | publish _ _ stage | delete stage =>
      simpa [Request.lockedRows, Request.isOpen, kind, stage] using hx
    | commit | abort => simp [Request.lockedRows, Request.isOpen, kind] at hx

theorem State.mem_deletes_retry {t : Tables} (kind : q.kind = .retry) {x : UUID}
    (hx : x ∈ State.deletes t q) : x ∈ t.dlqIds := by
  simp only [State.deletes, kind, List.mem_map, List.mem_filter] at hx
  obtain ⟨d, ⟨hd, -⟩, rfl⟩ := hx
  exact List.mem_map_of_mem hd

/-- A request that moves on keeps apart from the others, and deletes what it holds. -/
theorem RowLocks.moves (h : RowLocks s) {i : Nat} {b : RequestAction} {stage : RequestStage}
    (found : s.store.requests[i]? = some q) (moved : q.Moves s.store.db.toTables b stage)
    (free : q.kind = .retry → b = .delete →
      ∀ x ∈ State.deletes s.store.db.toTables q, s.store.dlqLocked x = false) :
    Slots.Apart Request.Apart (s.store.requests.set i { q with stage }) ∧
      { q with stage }.HoldsDeleted := by
  constructor
  · refine h.apart.set fun j p ne hp => ?_
    have apart : { q with stage }.Apart p := by
      intro x hx
      rcases moved.lockedRows hx with old | ⟨retry, delete, new⟩
      · exact h.apart i j q p ne.symm found hp x old
      · exact not_locked (free retry delete x new) (List.mem_of_getElem? hp)
    exact ⟨apart, apart.symm⟩
  · intro r rows deleted
    cases moved with
    | publish | commit | abort => cases deleted
    | delete =>
      cases deleted
      cases kind : q.kind with
      | retry => simp only [Request.lockedRows, Request.deleting]
      | replay dlqId =>
        simp only [Request.lockedRows, Request.isOpen, State.deletes, kind, if_true]

/-- A row that is held outlives every step but the commit that deletes it. -/
theorem RowLocks.row_kept (h : RowLocks s) (hs : Transition cfg s a s') {j : Nat}
    (found : s.store.requests[j]? = some q) {x : UUID} (hx : x ∈ q.lockedRows)
    (waits : a ≠ .request j .commit) : x ∈ s'.store.db.dlqIds := by
  obtain ⟨d, hd, rfl⟩ := Tables.mem_dlqIds.1 (h.held q (List.mem_of_getElem? found) x hx)
  have locked : s.store.dlqLocked d.id = true := dlqLocked_iff.2 ⟨q, List.mem_of_getElem? found, hx⟩
  rcases hs.dlq_kept hd with kept | rfl | ⟨rfl, free⟩ | ⟨i, q', r, rows, rfl, found', stage, hrows⟩
  · exact List.mem_map_of_mem kept
  · cases hs with
    | deleteEndpoint _ free =>
      rw [free d hd rfl] at locked
      cases locked
  · rw [free] at locked
    cases locked
  · have other : d.id ∈ q'.lockedRows :=
      h.deleting q' (List.mem_of_getElem? found') r rows stage ▸ hrows
    have ne : i ≠ j := fun same => waits (by rw [same])
    exact absurd hx (h.apart i j q' q ne found' found _ other)

/-- The requests change by a new one that holds at most its own free dead letter, or by a step of
one of them. -/
theorem Transition.requests_cases (hs : Transition cfg s a s') :
    ((s'.store.requests = s.store.requests ∨ ∃ new, s'.store.requests = s.store.requests ++ [new] ∧
        new.HoldsDeleted ∧
        ∀ x ∈ new.lockedRows, s.store.dlqLocked x = false ∧ x ∈ s'.store.db.dlqIds) ∧
      ∀ j b, a ≠ .request j b) ∨
    ∃ i b q stage, a = .request i b ∧ s.store.requests[i]? = some q ∧
      q.Moves s.store.db.toTables b stage ∧
      s'.store.requests = s.store.requests.set i { q with stage } ∧
      (q.kind = .retry → b = .delete →
        ∀ x ∈ State.deletes s.store.db.toTables q, s.store.dlqLocked x = false) := by
  cases hs with
  | retryEvent =>
    exact .inl ⟨.inr ⟨_, rfl, (fun _ _ hx => by cases hx), fun _ hx => by cases hx⟩, by simp⟩
  | @replayDlq id d found same free =>
    refine .inl ⟨.inr ⟨_, rfl, (fun _ _ hx => by cases hx), fun x hx => ?_⟩, by simp⟩
    cases List.mem_singleton.1 hx
    exact ⟨free, List.mem_map.2 ⟨d, found, same⟩⟩
  | requestPublish found stage =>
    exact .inr ⟨_, _, _, _, rfl, found, .publish _ _ stage, rfl, fun _ => by simp⟩
  | requestDelete found stage free =>
    exact .inr ⟨_, _, _, _, rfl, found, .delete stage, rfl, fun retry _ =>
      free.resolve_left (not_not_intro retry)⟩
  | requestCommit found stage =>
    exact .inr ⟨_, _, _, _, rfl, found, .commit stage, rfl, fun _ => by simp⟩
  | requestAbort found opened =>
    exact .inr ⟨_, _, _, _, rfl, found, .abort opened, rfl, fun _ => by simp⟩
  | task _ moved => exact .inl ⟨.inl moved.requests_eq, by simp⟩
  | _ => exact .inl ⟨.inl rfl, by simp⟩

theorem RowLocks.step (h : RowLocks s) (hs : Transition cfg s a s') : RowLocks s' := by
  rcases hs.requests_cases with ⟨change, waits⟩ | ⟨i, b, q, stage, rfl, found, moved, set, free⟩
  · have old : ∀ q ∈ s.store.requests, ∀ x ∈ q.lockedRows, x ∈ s'.store.db.dlqIds := by
      intro q hq x hx
      obtain ⟨j, found⟩ := List.mem_iff_getElem?.1 hq
      exact h.row_kept hs found hx (waits j .commit)
    rcases change with same | ⟨new, grown, deletes, rows⟩
    · exact ⟨same ▸ h.apart, same ▸ old, same ▸ h.deleting⟩
    · have cases : ∀ q ∈ s'.store.requests, q ∈ s.store.requests ∨ q = new := fun q hq =>
        (List.mem_append.1 (grown ▸ hq)).imp_right List.mem_singleton.1
      constructor
      · rw [grown]
        refine h.apart.snoc fun q hq => ?_
        have apart : new.Apart q := fun x hx => not_locked (rows x hx).1 hq
        exact ⟨apart, apart.symm⟩
      · intro q hq x hx
        rcases cases q hq with hq | rfl
        · exact old q hq x hx
        · exact (rows x hx).2
      · intro q hq
        rcases cases q hq with hq | rfl
        · exact h.deleting q hq
        · exact deletes
  · obtain ⟨apart, deletes⟩ := h.moves found moved free
    constructor
    · rwa [set]
    · intro p hp x hx
      rcases Slots.mem_set (set ▸ hp) with rfl | ⟨j, ne, hj⟩
      · rcases moved.lockedRows hx with held | ⟨retry, rfl, new⟩
        · refine h.row_kept hs found held fun commit => ?_
          -- a committed request holds nothing
          cases commit
          cases moved
          simp only [Request.lockedRows, Request.isOpen, Request.deleting] at hx
          split at hx <;> simp at hx
        · have kept : s'.store.db = s.store.db := by cases hs; rfl
          exact kept ▸ State.mem_deletes_retry retry new
      · exact h.row_kept hs hj hx fun same => ne (by cases same; rfl)
    · intro p hp
      rcases Slots.mem_set (set ▸ hp) with rfl | ⟨j, ne, hj⟩
      · exact deletes
      · exact h.deleting p (List.mem_of_getElem? hj)

theorem RowLocks.initial : RowLocks initial where
  apart := .nil
  held _ hq := by cases hq
  deleting _ hq := by cases hq

/-- No two open requests hold one dead letter, and what they hold is there. -/
theorem rowLocks (h : Reachable cfg s) : RowLocks s :=
  h.invariant (fun _ _ _ h _ hs => h.step (step_transition hs)) .initial

end
end HookRelay
