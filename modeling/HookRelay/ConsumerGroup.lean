import Mathlib.Logic.Function.Basic
import HookRelay.Watermark

/-!
# The pending topic and the delivery loops that consume it

One topic, its partitions' records and committed positions, and the worker processes that run
`run_delivery_loop` in one consumer group. A record's value and the local state of a
`_process_record` call are parameters: here a call is a task that ends with an `Outcome`, at
any time and in any order. The whole system instantiates both.

A rebalance is an assignment to the new owner and, before or after it, a revocation from the old
one, which may go on fetching until it learns of it. A worker that loses a partition keeps the
records it already fetched, the tasks it already started and its watermark for the partition.
A commit request is in transit from `commit_partition` until it is applied or lost.
-/

namespace HookRelay

/-- An `aiokafka.ConsumerRecord` of the pending topic. -/
structure Record (V : Type) where
  partition : Nat
  offset : Nat
  value : V
  deriving DecidableEq

/-- A running `_process_and_commit(record)` of a worker, with the local state of its call. -/
structure Task (V τ : Type) where
  worker : Nat
  record : Record V
  data : τ

/-- How a `_process_record` call ends: normally, with `PoisonPillError`, with any other exception
(an infrastructure failure), or cancelled by the task group. -/
inductive Outcome where
  | returned
  | poisonPill
  | raised
  | cancelled
  deriving DecidableEq

/-- The calls after which `_process_and_commit` advances the watermark. -/
def Outcome.advance : Outcome → Bool
  | .returned | .poisonPill => true
  | .raised | .cancelled => false

/-- The delivery loop of one worker process: the next offset to fetch of each partition it owns,
the records `getmany` returned that are not started yet, the watermarks, `_fatal_exc`, and how often
the semaphore was acquired, less how often it was released. -/
structure Worker (V : Type) where
  positions : Nat → Option Nat := fun _ => none
  batch : List (Record V) := []
  watermarks : Nat → PartitionWatermark := fun _ => {}
  fatal : Bool := false
  acquired : Int := 0

/-- The next offset to fetch of partition `p`. -/
def Worker.seek {V : Type} (w : Worker V) (p : Nat) (position : Option Nat) : Worker V :=
  { w with positions := Function.update w.positions p position }

/-- The watermark of partition `p`. -/
def Worker.setWatermark {V : Type} (w : Worker V) (p : Nat) (m : PartitionWatermark) : Worker V :=
  { w with watermarks := Function.update w.watermarks p m }

/-- The value of the semaphore, which starts as `worker_concurrency`. -/
def Worker.permits {V : Type} (w : Worker V) (concurrency : Nat) : Int := concurrency - w.acquired

/-- `semaphore.acquire()`, once it returns. -/
def Worker.acquire {V : Type} (w : Worker V) : Worker V := { w with acquired := w.acquired + 1 }

/-- `semaphore.release()`. -/
def Worker.release {V : Type} (w : Worker V) : Worker V := { w with acquired := w.acquired - 1 }

@[simp] theorem Worker.release_watermarks {V : Type} (w : Worker V) : w.release.watermarks = w.watermarks := rfl

structure ConsumerGroup (V τ : Type) where
  log : List (Record V) := []
  committed : Nat → Nat := fun _ => 0
  /-- Commit requests in transit: a partition and the position to commit. -/
  commits : List (Nat × Nat) := []
  workers : List (Worker V) := []
  tasks : List (Task V τ) := []
  /-- The records whose processing ended in an outcome that advances, in order. -/
  processed : List (Record V) := []

namespace ConsumerGroup

variable {V τ : Type}

/-- `send_and_wait`: the record is appended behind every record of its partition. -/
def append (g : ConsumerGroup V τ) (r : Record V) : Option (ConsumerGroup V τ) :=
  if ∀ r' ∈ g.log, r'.partition = r.partition → r'.offset < r.offset then
    some { g with log := g.log ++ [r] }
  else none

/-- The offset of the next record of partition `p`. -/
def endOffset (g : ConsumerGroup V τ) (p : Nat) : Nat :=
  (g.log.filter (·.partition = p)).foldr (fun r last => max (r.offset + 1) last) 0

/-- A new worker process. -/
def spawn (g : ConsumerGroup V τ) : ConsumerGroup V τ := { g with workers := g.workers ++ [{}] }

/-- A rebalance gives partition `p` to worker `w`, which starts at the committed position. -/
def assign (g : ConsumerGroup V τ) (w p : Nat) : Option (ConsumerGroup V τ) := do
  let worker ← g.workers[w]?
  some { g with workers := g.workers.set w (worker.seek p (some (g.committed p))) }

/-- A rebalance takes a partition away from worker `w`. -/
def revoke (g : ConsumerGroup V τ) (w p : Nat) : Option (ConsumerGroup V τ) := do
  let worker ← g.workers[w]?
  some { g with workers := g.workers.set w (worker.seek p none) }

/-- One record of a `getmany` batch: the first record of an owned partition at or after the
position, which moves behind it. -/
def fetch [DecidableEq V] (log : List (Record V)) (worker : Worker V) (r : Record V) :
    Option (Worker V) :=
  match worker.positions r.partition with
  | none => none
  | some position =>
    if r ∈ log ∧ position ≤ r.offset ∧
        ∀ r' ∈ log, r'.partition = r.partition → r'.offset < r.offset → r'.offset < position then
      some { worker.seek r.partition (some (r.offset + 1)) with batch := worker.batch ++ [r] }
    else none

def fetchAll [DecidableEq V] (log : List (Record V)) :
    Worker V → List (Record V) → Option (Worker V)
  | worker, [] => some worker
  | worker, r :: rs => (fetch log worker r).bind fun worker => fetchAll log worker rs

/-- The head of the loop: `_fatal_exc` is checked, then `getmany` returns a batch. -/
def getmany [DecidableEq V] (concurrency : Nat) (g : ConsumerGroup V τ) (w : Nat)
    (records : List (Record V)) : Option (ConsumerGroup V τ) := do
  let worker ← g.workers[w]?
  if worker.fatal = false ∧ worker.batch = [] ∧ records.length ≤ concurrency * 4 then
    let worker ← fetchAll g.log worker records
    some { g with workers := g.workers.set w worker }
  else none

/-- How many calls of worker `w` are under way. -/
def inFlight (g : ConsumerGroup V τ) (w : Nat) : Nat := g.tasks.countP (·.worker = w)

/-- The body of the loop: acquire the semaphore, which waits for a permit,
`watermarks[tp].start(record.offset)`, and create the task. -/
def start (concurrency : Nat) (init : V → τ) (g : ConsumerGroup V τ) (w : Nat) :
    Option (ConsumerGroup V τ) := do
  let worker ← g.workers[w]?
  match worker.batch with
  | [] => none
  | r :: rest =>
    if 0 < worker.permits concurrency then
      let watermark := (worker.watermarks r.partition).start r.offset
      let worker := { worker.acquire.setWatermark r.partition watermark with batch := rest }
      some { g with
        workers := g.workers.set w worker
        tasks := g.tasks ++ [{ worker := w, record := r, data := init r.value }] }
    else none

/-- The call of task `i` runs on: its local state becomes `d`. -/
def advance (g : ConsumerGroup V τ) (i : Nat) (d : τ) : Option (ConsumerGroup V τ) := do
  let t ← g.tasks[i]?
  some { g with tasks := g.tasks.set i { t with data := d } }

/-- The call of task `i` ends, and releases the semaphore. An outcome that advances marks the offset
done, and a watermark that moved is committed as the next position; an exception sets `_fatal_exc`. -/
def finish (g : ConsumerGroup V τ) (i : Nat) (o : Outcome) : Option (ConsumerGroup V τ) := do
  let t ← g.tasks[i]?
  let worker ← g.workers[t.worker]?
  let worker := worker.release
  let g := { g with tasks := g.tasks.eraseIdx i }
  if o.advance then
    let p := t.record.partition
    let (watermark, commitAt) := (worker.watermarks p).done t.record.offset
    some { g with
      workers := g.workers.set t.worker (worker.setWatermark p watermark)
      processed := g.processed ++ [t.record]
      commits := g.commits ++ (commitAt.map fun offset => (p, (offset + 1).toNat)).toList }
  else if o = .raised then
    some { g with workers := g.workers.set t.worker { worker with fatal := true } }
  else some { g with workers := g.workers.set t.worker worker }

/-- The broker applies the commit request `i`. -/
def commitApply (g : ConsumerGroup V τ) (i : Nat) : Option (ConsumerGroup V τ) := do
  let c ← g.commits[i]?
  some { g with
    committed := Function.update g.committed c.1 c.2
    commits := g.commits.eraseIdx i }

/-- The commit request `i` fails; `_process_and_commit` only logs it. -/
def commitDrop (g : ConsumerGroup V τ) (i : Nat) : Option (ConsumerGroup V τ) :=
  if i < g.commits.length then some { g with commits := g.commits.eraseIdx i } else none

/-- Worker `w` dies, or leaves its loop because of `_fatal_exc`, and starts anew: its tasks,
its fetched records, its positions and its watermarks are gone. -/
def crash (g : ConsumerGroup V τ) (w : Nat) : Option (ConsumerGroup V τ) :=
  if w < g.workers.length then
    some { g with
      workers := g.workers.set w {}
      tasks := g.tasks.filter (·.worker ≠ w) }
  else none

/-- The steps in which the processing of a record has no part. -/
inductive LoopAction (V : Type) where
  | spawn
  | assign (w p : Nat)
  | revoke (w p : Nat)
  | getmany (w : Nat) (records : List (Record V))
  | start (w : Nat)
  | commitApply (i : Nat)
  | commitDrop (i : Nat)
  | crash (w : Nat)

inductive Action (V τ : Type) where
  | loop (a : LoopAction V)
  | append (r : Record V)
  | advance (i : Nat) (d : τ)
  | finish (i : Nat) (o : Outcome)

section

variable [DecidableEq V] (concurrency : Nat) (init : V → τ)

def loopStep (g : ConsumerGroup V τ) : LoopAction V → Option (ConsumerGroup V τ)
  | .spawn => some g.spawn
  | .assign w p => g.assign w p
  | .revoke w p => g.revoke w p
  | .getmany w records => g.getmany concurrency w records
  | .start w => g.start concurrency init w
  | .commitApply i => g.commitApply i
  | .commitDrop i => g.commitDrop i
  | .crash w => g.crash w

def step (g : ConsumerGroup V τ) : Action V τ → Option (ConsumerGroup V τ)
  | .loop a => g.loopStep concurrency init a
  | .append r => g.append r
  | .advance i d => g.advance i d
  | .finish i o => g.finish i o

end

/-! ## What a step leaves alone -/

variable {concurrency : Nat} {init : V → τ} {g g' : ConsumerGroup V τ}

theorem append_eq_some {r : Record V} (h : g.append r = some g') :
    g' = { g with log := g.log ++ [r] } ∧
      ∀ r' ∈ g.log, r'.partition = r.partition → r'.offset < r.offset := by
  simp only [append, Option.ite_none_right_eq_some, Option.some.injEq] at h
  exact ⟨h.2.symm, h.1⟩

theorem append_mem {r : Record V} (h : g.append r = some g') : r ∈ g'.log := by
  rw [(append_eq_some h).1]
  exact List.mem_append_right _ (List.mem_singleton_self r)

theorem offset_lt_endOffset {r : Record V} (hr : r ∈ g.log) : r.offset < g.endOffset r.partition := by
  have here : r ∈ g.log.filter (·.partition = r.partition) := List.mem_filter.2 ⟨hr, decide_eq_true rfl⟩
  rw [endOffset]
  generalize g.log.filter (·.partition = r.partition) = rs at here ⊢
  induction rs with
  | nil => cases here
  | cons r' rest ih =>
    rw [List.foldr_cons]
    rcases List.mem_cons.1 here with rfl | here
    · omega
    · have := ih here
      omega

/-- There is room behind the last record of a partition. -/
theorem append_endOffset (p : Nat) (v : V) : g.append ⟨p, g.endOffset p, v⟩ =
    some { g with log := g.log ++ [⟨p, g.endOffset p, v⟩] } := by
  rw [append, if_pos]
  rintro r hr rfl
  exact offset_lt_endOffset hr

/-- The end of a call removes its task, and counts its record when the outcome advances. -/
theorem finish_eq_some {i : Nat} {o : Outcome} (h : g.finish i o = some g') :
    ∃ t, g.tasks[i]? = some t ∧ g'.log = g.log ∧ g'.tasks = g.tasks.eraseIdx i ∧
      g'.processed = if o.advance then g.processed ++ [t.record] else g.processed := by
  simp only [finish, Option.bind_eq_bind, Option.bind_eq_some_iff] at h
  obtain ⟨t, ht, w, -, h⟩ := h
  refine ⟨t, ht, ?_⟩
  split at h
  · rename_i ho
    cases h
    exact ⟨rfl, rfl, by simp [ho]⟩
  · rename_i ho
    split at h <;> cases h <;> exact ⟨rfl, rfl, by simp [ho]⟩

/-- The loop neither writes the topic nor ends a call. -/
theorem loopStep_log [DecidableEq V] {a : LoopAction V}
    (h : g.loopStep concurrency init a = some g') : g'.log = g.log ∧ g'.processed = g.processed := by
  cases a <;> simp only [loopStep, spawn, assign, revoke, getmany, start, commitApply, commitDrop,
    crash, Option.bind_eq_bind, Option.bind_eq_some_iff, Option.ite_none_right_eq_some,
    Option.some.injEq] at h
  case spawn => subst h; exact ⟨rfl, rfl⟩
  case assign => obtain ⟨_, -, rfl⟩ := h; exact ⟨rfl, rfl⟩
  case revoke => obtain ⟨_, -, rfl⟩ := h; exact ⟨rfl, rfl⟩
  case getmany => obtain ⟨_, -, -, _, -, rfl⟩ := h; exact ⟨rfl, rfl⟩
  case start =>
    obtain ⟨_, -, h⟩ := h
    split at h
    · cases h
    · simp only [Option.ite_none_right_eq_some, Option.some.injEq] at h
      obtain ⟨-, rfl⟩ := h
      exact ⟨rfl, rfl⟩
  case commitApply => obtain ⟨_, -, rfl⟩ := h; exact ⟨rfl, rfl⟩
  case commitDrop => obtain ⟨-, rfl⟩ := h; exact ⟨rfl, rfl⟩
  case crash => obtain ⟨-, rfl⟩ := h; exact ⟨rfl, rfl⟩

/-- The loop's only new task is one at the start of its call, on a record of some batch. -/
theorem loopStep_tasks [DecidableEq V] {a : LoopAction V}
    (h : g.loopStep concurrency init a = some g') {t : Task V τ} (ht : t ∈ g'.tasks) :
    t ∈ g.tasks ∨ (t.data = init t.record.value ∧ ∃ w ∈ g.workers, t.record ∈ w.batch) := by
  cases a <;> simp only [loopStep, spawn, assign, revoke, getmany, start, commitApply, commitDrop,
    crash, Option.bind_eq_bind, Option.bind_eq_some_iff, Option.ite_none_right_eq_some,
    Option.some.injEq] at h
  case spawn => subst h; exact .inl ht
  case assign => obtain ⟨_, -, rfl⟩ := h; exact .inl ht
  case revoke => obtain ⟨_, -, rfl⟩ := h; exact .inl ht
  case getmany => obtain ⟨_, -, -, _, -, rfl⟩ := h; exact .inl ht
  case start =>
    obtain ⟨worker, hw, h⟩ := h
    split at h
    · cases h
    · rename_i r rest hb
      simp only [Option.ite_none_right_eq_some, Option.some.injEq] at h
      obtain ⟨-, rfl⟩ := h
      rcases List.mem_append.1 ht with ht | ht
      · exact .inl ht
      · rw [List.mem_singleton.1 ht]
        exact .inr ⟨rfl, worker, List.mem_of_getElem? hw, by simp [hb]⟩
  case commitApply => obtain ⟨_, -, rfl⟩ := h; exact .inl ht
  case commitDrop => obtain ⟨-, rfl⟩ := h; exact .inl ht
  case crash => obtain ⟨-, rfl⟩ := h; exact .inl (List.mem_filter.1 ht).1

/-- As long as its process lives, the loop ends no call and starts at most one. -/
theorem loopStep_started [DecidableEq V] {a : LoopAction V}
    (h : g.loopStep concurrency init a = some g') (running : ∀ w, a ≠ .crash w) :
    g'.tasks = g.tasks ∨ ∃ t, t.data = init t.record.value ∧ g'.tasks = g.tasks ++ [t] := by
  cases a <;> simp only [loopStep, spawn, assign, revoke, getmany, start, commitApply, commitDrop,
    Option.bind_eq_bind, Option.bind_eq_some_iff, Option.ite_none_right_eq_some,
    Option.some.injEq] at h
  case spawn => subst h; exact .inl rfl
  case assign => obtain ⟨_, -, rfl⟩ := h; exact .inl rfl
  case revoke => obtain ⟨_, -, rfl⟩ := h; exact .inl rfl
  case getmany => obtain ⟨_, -, -, _, -, rfl⟩ := h; exact .inl rfl
  case start =>
    obtain ⟨_, -, h⟩ := h
    split at h
    · cases h
    · simp only [Option.ite_none_right_eq_some, Option.some.injEq] at h
      obtain ⟨-, rfl⟩ := h
      exact .inr ⟨_, rfl, rfl⟩
  case commitApply => obtain ⟨_, -, rfl⟩ := h; exact .inl rfl
  case commitDrop => obtain ⟨-, rfl⟩ := h; exact .inl rfl
  case crash w => exact absurd rfl (running w)

/-- A fetch changes the batch and the positions. -/
theorem fetchAll_batch [DecidableEq V] {log : List (Record V)} {w w' : Worker V}
    {records : List (Record V)} (hf : ConsumerGroup.fetchAll log w records = some w') :
    w'.batch = w.batch ++ records ∧ w'.fatal = w.fatal ∧ w'.acquired = w.acquired := by
  induction records generalizing w with
  | nil =>
    cases hf
    exact ⟨(List.append_nil _).symm, rfl, rfl⟩
  | cons r rs ih =>
    obtain ⟨v, hv, hf⟩ := Option.bind_eq_some_iff.1 hf
    obtain ⟨batch, fatal, acquired⟩ := ih hf
    unfold ConsumerGroup.fetch at hv
    split at hv
    · cases hv
    · simp only [Option.ite_none_right_eq_some, Option.some.injEq] at hv
      obtain ⟨-, rfl⟩ := hv
      exact ⟨by rw [batch, List.append_assoc, List.singleton_append], fatal, acquired⟩

end ConsumerGroup
end HookRelay
