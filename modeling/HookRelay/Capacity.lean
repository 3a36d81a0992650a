import Mathlib.Algebra.Order.BigOperators.Group.Finset
import HookRelay.PostOnce

/-!
# What a worker holds

The semaphore bounds the calls of a worker and `max_records` bounds what it has fetched and not started. Each call
releases the permit that was acquired for it, however it ends, and none is released twice, so the permits left and the
calls under way are `worker_concurrency` together: a process has at most as many POSTs open at any time, whoever dies
and however the partitions change hands.
-/

namespace HookRelay

/-- A new process has all of its permits. -/
theorem Worker.permits_new {V : Type} (concurrency : Nat) : ({} : Worker V).permits concurrency = concurrency :=
  Int.sub_zero _

namespace ConsumerGroup

variable {V τ : Type}

/-- The permits of every worker that are not left are held by its calls, its batch is within its bound, and every
task is one of a worker. -/
structure Capacity (concurrency : Nat) (g : ConsumerGroup V τ) : Prop where
  semaphore : ∀ (w : Nat) (worker : Worker V), g.workers[w]? = some worker →
    worker.permits concurrency + g.inFlight w = concurrency
  permits : ∀ worker ∈ g.workers, 0 ≤ worker.permits concurrency
  batch : ∀ worker ∈ g.workers, worker.batch.length ≤ concurrency * 4
  owner : ∀ t ∈ g.tasks, t.worker < g.workers.length

/-- The task that is removed was one of its worker. -/
theorem inFlight_eraseIdx {g : ConsumerGroup V τ} {i : Nat} {t : Task V τ} (found : g.tasks[i]? = some t) (w : Nat) :
    g.inFlight w = (g.tasks.eraseIdx i).countP (·.worker = w) + if t.worker = w then 1 else 0 := by
  obtain ⟨hi, rfl⟩ := List.getElem?_eq_some_iff.1 found
  rw [inFlight, ← (List.getElem_cons_eraseIdx_perm hi).countP_eq, List.countP_cons]
  simp only [decide_eq_true_eq]

namespace Capacity

variable {concurrency : Nat} {g : ConsumerGroup V τ}

/-- Who is no worker has no calls. -/
theorem none_inFlight (h : g.Capacity concurrency) {w : Nat} (le : g.workers.length ≤ w) : g.inFlight w = 0 := by
  refine List.countP_eq_zero.2 fun t ht here => ?_
  have owner := h.owner t ht
  have here := of_decide_eq_true here
  omega

/-- A worker has no more calls than permits. -/
theorem inFlight_le (h : g.Capacity concurrency) (w : Nat) : g.inFlight w ≤ concurrency := by
  cases found : g.workers[w]? with
  | none =>
    rw [h.none_inFlight (List.getElem?_eq_none_iff.1 found)]
    exact Nat.zero_le _
  | some worker =>
    have semaphore := h.semaphore w worker found
    have permits := h.permits worker (List.mem_of_getElem? found)
    omega

/-- One worker and its calls change. -/
theorem update (h : g.Capacity concurrency) {w : Nat} {worker : Worker V} {tasks : List (Task V τ)}
    (semaphore : worker.permits concurrency + (tasks.countP (·.worker = w) : Nat) = concurrency)
    (permits : 0 ≤ worker.permits concurrency) (batch : worker.batch.length ≤ concurrency * 4)
    (others : ∀ v, v ≠ w → tasks.countP (·.worker = v) = g.inFlight v)
    (owner : ∀ t ∈ tasks, t.worker < g.workers.length) :
    Capacity concurrency { g with workers := g.workers.set w worker, tasks } where
  semaphore v worker' found := by
    by_cases here : v = w
    · subst here
      obtain ⟨alive, same⟩ := List.getElem?_eq_some_iff.1 found
      rw [List.getElem_set_self] at same
      rw [← same]
      exact semaphore
    · have found : (g.workers.set w worker)[v]? = some worker' := found
      rw [List.getElem?_set_ne (Ne.symm here)] at found
      rw [inFlight, others v here]
      exact h.semaphore v worker' found
  permits worker' hw := by
    rcases List.mem_or_eq_of_mem_set hw with old | rfl
    · exact h.permits worker' old
    · exact permits
  batch worker' hw := by
    rcases List.mem_or_eq_of_mem_set hw with old | rfl
    · exact h.batch worker' old
    · exact batch
  owner t ht := by
    rw [List.length_set]
    exact owner t ht

/-- A worker changes and keeps its permits. -/
theorem replace (h : g.Capacity concurrency) {w : Nat} {worker worker' : Worker V}
    (found : g.workers[w]? = some worker) (acquired : worker'.acquired = worker.acquired)
    (batch : worker'.batch.length ≤ concurrency * 4) :
    Capacity concurrency { g with workers := g.workers.set w worker' } := by
  have same : worker'.permits concurrency = worker.permits concurrency := by rw [Worker.permits, acquired]; rfl
  refine h.update ?_ ?_ batch (fun _ _ => rfl) h.owner
  · rw [same]
    exact h.semaphore w worker found
  · rw [same]
    exact h.permits worker (List.mem_of_getElem? found)

/-- What else the group holds does not matter. -/
theorem congr (h : g.Capacity concurrency) {g' : ConsumerGroup V τ} (tasks : g'.tasks = g.tasks)
    (workers : g'.workers = g.workers) : g'.Capacity concurrency where
  semaphore w worker found := by
    rw [inFlight, tasks]
    exact h.semaphore w worker (workers ▸ found)
  permits worker hw := h.permits worker (workers ▸ hw)
  batch worker hw := h.batch worker (workers ▸ hw)
  owner t ht := by
    rw [workers]
    exact h.owner t (tasks ▸ ht)

theorem initial : Capacity concurrency ({} : ConsumerGroup V τ) where
  semaphore w worker found := by cases found
  permits worker hw := by cases hw
  batch worker hw := by cases hw
  owner t ht := by cases ht

theorem spawn (h : g.Capacity concurrency) : g.spawn.Capacity concurrency where
  semaphore w worker found := by
    have found : (g.workers ++ [({} : Worker V)])[w]? = some worker := found
    by_cases here : w < g.workers.length
    · rw [List.getElem?_append_left here] at found
      exact h.semaphore w worker found
    · rw [List.getElem?_append_right (Nat.not_lt.1 here)] at found
      have none : g.spawn.inFlight w = 0 := h.none_inFlight (Nat.not_lt.1 here)
      rw [List.mem_singleton.1 (List.mem_of_getElem? found), none, Worker.permits_new]
      rfl
  permits worker hw := by
    rcases List.mem_append.1 hw with old | new
    · exact h.permits worker old
    · rw [List.mem_singleton.1 new, Worker.permits_new]
      exact Int.natCast_nonneg _
  batch worker hw := by
    rcases List.mem_append.1 hw with old | new
    · exact h.batch worker old
    · rw [List.mem_singleton.1 new]
      exact Nat.zero_le _
  owner t ht := by
    show t.worker < (g.workers ++ [({} : Worker V)]).length
    rw [List.length_append]
    exact (h.owner t ht).trans_le (Nat.le_add_right _ _)

/-- A worker with a permit acquires it and starts a call. -/
theorem start (h : g.Capacity concurrency) {w : Nat} {worker worker' : Worker V} {t : Task V τ}
    (found : g.workers[w]? = some worker) (free : 0 < worker.permits concurrency) (owner : t.worker = w)
    (acquired : worker'.acquired = worker.acquired + 1) (batch : worker'.batch.length ≤ concurrency * 4) :
    Capacity concurrency { g with workers := g.workers.set w worker', tasks := g.tasks ++ [t] } := by
  have semaphore := h.semaphore w worker found
  have taken : worker'.permits concurrency = worker.permits concurrency - 1 := by
    rw [Worker.permits, Worker.permits, acquired]
    omega
  refine h.update ?_ (by omega) batch (fun v other => ?_) fun t' ht => ?_
  · have more : (g.tasks ++ [t]).countP (·.worker = w) = g.inFlight w + 1 := by
      rw [List.countP_append, List.countP_singleton, if_pos (decide_eq_true owner)]
      rfl
    omega
  · rw [List.countP_append, List.countP_singleton, if_neg (by simpa [owner] using other.symm)]
    rfl
  · rcases List.mem_append.1 ht with old | new
    · exact h.owner t' old
    · rw [List.mem_singleton.1 new, owner]
      exact (List.getElem?_eq_some_iff.1 found).1

/-- A call ends and releases its permit. -/
theorem release (h : g.Capacity concurrency) {i : Nat} {worker worker' : Worker V} {t : Task V τ}
    (here : g.tasks[i]? = some t) (found : g.workers[t.worker]? = some worker)
    (acquired : worker'.acquired = worker.acquired - 1) (batch : worker'.batch.length ≤ concurrency * 4) :
    Capacity concurrency { g with workers := g.workers.set t.worker worker', tasks := g.tasks.eraseIdx i } := by
  have semaphore := h.semaphore t.worker worker found
  have permits := h.permits worker (List.mem_of_getElem? found)
  have given : worker'.permits concurrency = worker.permits concurrency + 1 := by
    rw [Worker.permits, Worker.permits, acquired]
    omega
  refine h.update ?_ (by omega) batch (fun v other => ?_) fun t' ht => h.owner t' (List.mem_of_mem_eraseIdx ht)
  · have fewer := inFlight_eraseIdx here t.worker
    rw [if_pos rfl] at fewer
    omega
  · have same := inFlight_eraseIdx here v
    rw [if_neg other.symm] at same
    omega

/-- A worker dies with its calls, and its successor has all of its permits. -/
theorem crash (h : g.Capacity concurrency) (w : Nat) :
    Capacity concurrency { g with workers := g.workers.set w {}, tasks := g.tasks.filter (·.worker ≠ w) } := by
  have count : ∀ v, (g.tasks.filter (·.worker ≠ w)).countP (·.worker = v) = if v = w then 0 else g.inFlight v := by
    intro v
    rw [List.countP_filter]
    split
    · rename_i here
      refine List.countP_eq_zero.2 fun t _ both => ?_
      simp [here] at both
    · rename_i other
      refine List.countP_congr fun t _ => ?_
      simp only [Bool.and_eq_true, decide_eq_true_eq, and_iff_left_iff_imp]
      rintro rfl
      exact other
  refine h.update ?_ ?_ (Nat.zero_le _) (fun v other => ?_) fun t ht => h.owner t (List.mem_filter.1 ht).1
  · rw [count w, if_pos rfl, Worker.permits_new]
    rfl
  · rw [Worker.permits_new]
    exact Int.natCast_nonneg _
  · rw [count v, if_neg other]

section Step

variable [DecidableEq V] {init : V → τ} {g' : ConsumerGroup V τ}

theorem loopStep (h : g.Capacity concurrency) {a : LoopAction V} (hs : g.loopStep concurrency init a = some g') :
    g'.Capacity concurrency := by
  cases a <;> simp only [ConsumerGroup.loopStep, assign, revoke, getmany, ConsumerGroup.start, commitApply,
    commitDrop, ConsumerGroup.crash, Option.bind_eq_bind, Option.bind_eq_some_iff, Option.ite_none_right_eq_some,
    Option.some.injEq] at hs
  case spawn =>
    subst hs
    exact h.spawn
  case assign | revoke =>
    obtain ⟨worker, found, rfl⟩ := hs
    exact h.replace found rfl (h.batch worker (List.mem_of_getElem? found))
  case getmany w records =>
    obtain ⟨worker, found, ⟨-, empty, few⟩, worker', fetched, rfl⟩ := hs
    obtain ⟨batch, -, acquired⟩ := fetchAll_batch fetched
    refine h.replace found acquired ?_
    rwa [batch, empty, List.nil_append]
  case start w =>
    obtain ⟨worker, found, hs⟩ := hs
    split at hs
    · cases hs
    · rename_i r rest hb
      obtain ⟨free, rfl⟩ := Option.ite_none_right_eq_some.1 hs |>.imp_right Option.some.inj
      have held := h.batch worker (List.mem_of_getElem? found)
      rw [hb, List.length_cons] at held
      exact h.start found free rfl rfl (Nat.le_of_succ_le held)
  case commitApply =>
    obtain ⟨_, -, rfl⟩ := hs
    exact h.congr rfl rfl
  case commitDrop =>
    obtain ⟨-, rfl⟩ := hs
    exact h.congr rfl rfl
  case crash w =>
    obtain ⟨-, rfl⟩ := hs
    exact h.crash w

omit [DecidableEq V] in
theorem finish (h : g.Capacity concurrency) {i : Nat} {o : Outcome} (hs : g.finish i o = some g') :
    g'.Capacity concurrency := by
  simp only [ConsumerGroup.finish, Option.bind_eq_bind, Option.bind_eq_some_iff] at hs
  obtain ⟨t, here, worker, found, hs⟩ := hs
  have batch := h.batch worker (List.mem_of_getElem? found)
  split at hs
  · cases hs
    set advanced := worker.release.setWatermark t.record.partition
      ((worker.release.watermarks t.record.partition).done t.record.offset).1
    have acquired : advanced.acquired = worker.acquired - 1 := rfl
    exact (h.release here found acquired batch).congr rfl rfl
  · split at hs
    · cases hs
      exact h.release here found rfl batch
    · cases hs
      exact h.release here found rfl batch

theorem step (h : g.Capacity concurrency) {a : Action V τ} (hs : g.step concurrency init a = some g') :
    g'.Capacity concurrency := by
  cases a with
  | loop a => exact h.loopStep hs
  | append r => exact h.congr (by rw [(append_eq_some hs).1]) (by rw [(append_eq_some hs).1])
  | advance i d =>
    simp only [ConsumerGroup.step, advance, Option.bind_eq_bind, Option.bind_eq_some_iff, Option.some.injEq] at hs
    obtain ⟨t, found, rfl⟩ := hs
    refine ⟨fun w worker here => ?_, h.permits, h.batch, fun t' ht => ?_⟩
    · have same := countP_set_add (fun t : Task V τ => t.worker = w) { t with data := d } found
      rw [inFlight, Nat.add_right_cancel same]
      exact h.semaphore w worker here
    · rcases List.mem_or_eq_of_mem_set ht with old | rfl
      · exact h.owner t' old
      · exact h.owner t (List.mem_of_getElem? found)
  | finish i o => exact h.finish hs

end Step
end Capacity

/-- No more calls are in flight than the workers have permits. -/
theorem Capacity.length_le {concurrency : Nat} {g : ConsumerGroup V τ} (h : g.Capacity concurrency) :
    g.tasks.length ≤ g.workers.length * concurrency := by
  have owners : ∀ w ∈ (g.tasks.map (·.worker) : Multiset Nat), w ∈ Finset.range g.workers.length := by
    intro w hw
    obtain ⟨t, ht, rfl⟩ := List.mem_map.1 (Multiset.mem_coe.1 hw)
    exact Finset.mem_range.2 (h.owner t ht)
  have bounds : ∀ w ∈ Finset.range g.workers.length,
      (g.tasks.map (·.worker) : Multiset Nat).count w ≤ concurrency := by
    intro w _
    rw [Multiset.coe_count, List.count_eq_countP, List.countP_map]
    exact h.inFlight_le w
  have sum := Finset.sum_le_card_nsmul _ _ _ bounds
  rwa [Multiset.sum_count_eq_card owners, Multiset.coe_card, List.length_map, Finset.card_range] at sum

end ConsumerGroup

theorem group_capacity {cfg : Settings} {s : State} (reach : Reachable cfg s) :
    s.group.Capacity cfg.workerConcurrency := by
  refine reach.invariant (I := fun s => s.group.Capacity cfg.workerConcurrency) (fun s a s' h _ hs => ?_) .initial
  rcases (step_transition hs).group_step with same | ⟨b, step⟩
  · rwa [same]
  · exact h.step step

end HookRelay
