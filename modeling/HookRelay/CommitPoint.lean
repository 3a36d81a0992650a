import Mathlib.Order.Bounds.Basic
import HookRelay.Lib.Lts
import HookRelay.Watermark

/-!
# What a watermark commits

The calls `run_delivery_loop` makes on the watermark of one partition: `start` with ever higher offsets,
and `done` once for each offset started, in any order. The commit point is the highest offset seen up to
which everything started is done.
-/

namespace HookRelay

/-- Every offset started up to `c` is done. -/
def Settles (started finished : Finset Int) (c : Int) : Prop := ∀ o ∈ started, o ≤ c → o ∈ finished

/-- `c` is the last offset up to `lastSeen` that may be committed. -/
def IsCommitPoint (lastSeen : Int) (started finished : Finset Int) (c : Int) : Prop :=
  IsGreatest {c | c ≤ lastSeen ∧ Settles started finished c} c

inductive WatermarkCall where
  | start (offset : Int)
  | done (offset : Int)

/-- A watermark with the offsets that were started and done, and what `done` returned, in order. -/
structure Tracked where
  watermark : PartitionWatermark
  started : Finset Int
  finished : Finset Int
  returned : List Int

namespace Tracked

theorem inFlight_le_empty : ∀ o ∈ (∅ : Finset Int), o ≤ -1 := by simp

def initial : Tracked := ⟨⟨∅, -1, -1, inFlight_le_empty⟩, ∅, ∅, []⟩

/-- Offsets are not negative and go up, and an offset in flight is done once. -/
def step (t : Tracked) : WatermarkCall → Option Tracked
  | .start offset =>
    if 0 ≤ offset ∧ ∀ o ∈ t.started, o < offset then
      some { t with watermark := t.watermark.start offset, started := insert offset t.started }
    else none
  | .done offset =>
    if offset ∈ t.started ∧ offset ∉ t.finished then
      some { t with
        watermark := (t.watermark.done offset).1
        finished := insert offset t.finished
        returned := t.returned ++ (t.watermark.done offset).2.toList }
    else none

/-- The candidate is not below what was committed, which is not below anything returned. -/
structure Inv (t : Tracked) : Prop where
  inFlight : t.watermark.inFlight = t.started \ t.finished
  finished : t.finished ⊆ t.started
  seen : ∀ o ∈ t.started, 0 ≤ o ∧ o ≤ t.watermark.lastSeen
  last : t.watermark.lastSeen = -1 ∨ t.watermark.lastSeen ∈ t.started
  committed : t.watermark.lastCommitted ≤ t.watermark.candidate
  returned : ∀ v ∈ t.returned, v ≤ t.watermark.lastCommitted
  increasing : t.returned.Pairwise (· < ·)

section

variable {t t' u u' : Tracked} {o : Int}

/-- The candidate is the commit point. -/
theorem candidate_isCommitPoint {w : PartitionWatermark} {started finished : Finset Int}
    (inFlight : w.inFlight = started \ finished) :
    IsCommitPoint w.lastSeen started finished w.candidate := by
  obtain ⟨below, seen⟩ := w.candidate_spec
  constructor
  · refine ⟨seen, fun o ho le => ?_⟩
    by_contra waiting
    have flying : o ∈ w.inFlight := by
      rw [inFlight]
      exact Finset.mem_sdiff.2 ⟨ho, waiting⟩
    have := below o flying
    omega
  · rintro c ⟨le, settled⟩
    unfold PartitionWatermark.candidate
    split
    · rename_i flying
      obtain ⟨begun, waiting⟩ := Finset.mem_sdiff.1 (inFlight ▸ w.inFlight.min'_mem flying :
        w.inFlight.min' flying ∈ started \ finished)
      by_contra above
      exact waiting (settled _ begun (by omega))
    · exact le

/-- The candidate depends on nothing but the offsets started and done. -/
theorem Inv.candidate_isCommitPoint (h : t.Inv) :
    IsCommitPoint t.watermark.lastSeen t.started t.finished t.watermark.candidate :=
  Tracked.candidate_isCommitPoint h.inFlight

theorem Inv.initial : Inv initial where
  inFlight := rfl
  finished := subset_rfl
  seen _ none := absurd none (Finset.notMem_empty _)
  last := .inl rfl
  committed := by decide
  returned _ none := absurd none List.not_mem_nil
  increasing := .nil

/-- A higher offset starts: what could be committed still can be. -/
theorem Inv.start (h : t.Inv) (positive : 0 ≤ o) (above : ∀ s ∈ t.started, s < o) :
    Inv { t with watermark := t.watermark.start o, started := insert o t.started } := by
  have fresh : t.watermark.lastSeen < o := by
    obtain last | last := h.last
    · omega
    · exact above _ last
  have unfinished : o ∉ t.finished := fun done => lt_irrefl o (above o (h.finished done))
  have inFlight : (t.watermark.start o).inFlight = insert o t.started \ t.finished := by
    rw [PartitionWatermark.start_inFlight, h.inFlight, Finset.insert_sdiff_of_notMem _ unfinished]
  have seen := PartitionWatermark.start_lastSeen t.watermark o
  constructor
  case inFlight => exact inFlight
  case finished => exact h.finished.trans (Finset.subset_insert _ _)
  case seen =>
    intro s hs
    show 0 ≤ s ∧ s ≤ (t.watermark.start o).lastSeen
    obtain rfl | hs := Finset.mem_insert.1 hs
    · omega
    · have := h.seen s hs
      omega
  case last =>
    right
    show (t.watermark.start o).lastSeen ∈ insert o t.started
    rw [seen, max_eq_right fresh.le]
    exact Finset.mem_insert_self _ _
  case committed =>
    -- the old candidate is a commit point below the new one
    obtain ⟨le, settled⟩ := h.candidate_isCommitPoint.1
    refine h.committed.trans ((Tracked.candidate_isCommitPoint inFlight).2 ⟨?_, fun s hs below => ?_⟩)
    · omega
    · obtain rfl | hs := Finset.mem_insert.1 hs
      · omega
      · exact settled s hs below
  case returned => exact h.returned
  case increasing => exact h.increasing

/-- The watermark after `done`: it has committed the candidate, and returned it if it is higher than
what was committed before. -/
theorem done_eq {w : PartitionWatermark} (committed : w.lastCommitted ≤ (w.discard o).candidate) :
    (w.done o).1.lastCommitted = (w.discard o).candidate ∧
      (w.done o).1.candidate = (w.discard o).candidate ∧
      (w.done o).2 =
        if w.lastCommitted < (w.discard o).candidate then some (w.discard o).candidate else none := by
  have kept : (w.discard o).lastCommitted = w.lastCommitted := rfl
  unfold PartitionWatermark.done
  simp only [kept]
  split
  · exact ⟨rfl, rfl, rfl⟩
  · rename_i low
    refine ⟨?_, rfl, rfl⟩
    rw [kept]
    exact le_antisymm committed (not_lt.1 low)

/-- An offset is done: the watermark commits the commit point. -/
theorem Inv.done (h : t.Inv) (hs : t.step (.done o) = some t') :
    t'.Inv ∧ t'.watermark.lastCommitted = t'.watermark.candidate ∧
      t.watermark.lastCommitted ≤ t'.watermark.lastCommitted ∧
      (t.watermark.done o).2 =
        if t.watermark.lastCommitted < t'.watermark.lastCommitted then some t'.watermark.lastCommitted
        else none := by
  obtain ⟨⟨begun, waiting⟩, rfl⟩ := Option.ite_none_right_eq_some.1 hs |>.imp_right Option.some.inj
  have inFlight : (t.watermark.discard o).inFlight = t.started \ insert o t.finished := by
    rw [Finset.sdiff_insert, ← h.inFlight]
    rfl
  -- the old candidate is a commit point below the new one
  have higher : t.watermark.lastCommitted ≤ (t.watermark.discard o).candidate := by
    obtain ⟨le, settled⟩ := h.candidate_isCommitPoint.1
    refine h.committed.trans ((Tracked.candidate_isCommitPoint inFlight).2 ⟨le, fun s hs below => ?_⟩)
    exact Finset.mem_insert_of_mem (settled s hs below)
  obtain ⟨committed, candidate, result⟩ := done_eq higher
  have equal : (t.watermark.done o).1.lastCommitted = (t.watermark.done o).1.candidate := by
    rw [committed, candidate]
  have mono : t.watermark.lastCommitted ≤ (t.watermark.done o).1.lastCommitted := by
    rw [committed]
    exact higher
  have value : (t.watermark.done o).2 =
      if t.watermark.lastCommitted < (t.watermark.done o).1.lastCommitted then
        some (t.watermark.done o).1.lastCommitted else none := by
    rw [committed, result]
  refine ⟨?_, equal, mono, value⟩
  constructor
  case inFlight =>
    show (t.watermark.done o).1.inFlight = t.started \ insert o t.finished
    rw [PartitionWatermark.done_inFlight, Finset.sdiff_insert, h.inFlight]
  case finished => exact Finset.insert_subset begun h.finished
  case seen => simpa using h.seen
  case last => simpa using h.last
  case committed => exact equal.le
  case returned =>
    intro v hv
    show v ≤ (t.watermark.done o).1.lastCommitted
    obtain old | new := List.mem_append.1 hv
    · exact (h.returned v old).trans mono
    · rw [value] at new
      split at new
      · rw [List.mem_singleton.1 new]
      · cases new
  case increasing =>
    show (t.returned ++ (t.watermark.done o).2.toList).Pairwise (· < ·)
    rw [value]
    split
    · rename_i advanced
      refine List.pairwise_append.2 ⟨h.increasing, List.pairwise_singleton _ _, fun v hv x hx => ?_⟩
      rw [List.mem_singleton.1 hx]
      exact (h.returned v hv).trans_lt advanced
    · rw [Option.toList_none, List.append_nil]
      exact h.increasing

theorem Inv.step {call : WatermarkCall} (h : t.Inv) (hs : t.step call = some t') : t'.Inv := by
  cases call with
  | start offset =>
    obtain ⟨⟨positive, above⟩, rfl⟩ :=
      Option.ite_none_right_eq_some.1 hs |>.imp_right Option.some.inj
    exact h.start positive above
  | done offset => exact (h.done hs).1

theorem inv (reach : Lts.Reachable step Lts.Any initial t) : t.Inv :=
  reach.invariant (fun _ _ _ h _ hs => h.step hs) .initial

/-- The highest offset seen depends on nothing but the offsets started. -/
theorem Inv.lastSeen_eq (h : t.Inv) (h' : u.Inv) (started : t.started = u.started) :
    t.watermark.lastSeen = u.watermark.lastSeen := by
  have le : ∀ {t u : Tracked}, t.Inv → u.Inv → t.started = u.started →
      t.watermark.lastSeen ≤ u.watermark.lastSeen := by
    intro t u h h' started
    obtain none | last := h.last
    · obtain none' | last' := h'.last
      · omega
      · have := h'.seen _ last'
        omega
    · exact (h'.seen _ (started ▸ last)).2
  exact le_antisymm (le h h' started) (le h' h started.symm)

/-- What holds of a `done` call: the commit point is committed, and returned if it advanced; the returned
values go up; and another order of completion ends at the same point. -/
structure Exact (t : Tracked) (offset : Int) (t' : Tracked) : Prop where
  point : IsCommitPoint t'.watermark.lastSeen t'.started t'.finished t'.watermark.lastCommitted
  minimum : (∃ least, IsLeast {o | o ∈ t'.watermark.inFlight} least ∧
      t'.watermark.lastCommitted = least - 1) ∨
    t'.watermark.inFlight = ∅ ∧ t'.watermark.lastCommitted = t'.watermark.lastSeen
  advances : t.watermark.lastCommitted ≤ t'.watermark.lastCommitted
  returns : (t.watermark.done offset).2 =
    if t.watermark.lastCommitted < t'.watermark.lastCommitted then some t'.watermark.lastCommitted
    else none
  increasing : t'.returned.Pairwise (· < ·)
  confluent : ∀ u offset' u', Lts.Reachable step Lts.Any initial u → u.step (.done offset') = some u' →
    u'.started = t'.started → u'.finished = t'.finished →
      u'.watermark.lastCommitted = t'.watermark.lastCommitted

/-- After every `done` the watermark has committed the commit point. -/
theorem watermark_exact {calls : List WatermarkCall} {t t' : Tracked} {offset : Int}
    (run : Lts.Run step Lts.Any initial calls t) (done : t.step (.done offset) = some t') :
    Exact t offset t' := by
  obtain ⟨h', equal, mono, value⟩ := (inv ⟨calls, run⟩).done done
  have point := h'.candidate_isCommitPoint
  rw [← equal] at point
  refine ⟨point, ?_, mono, value, h'.increasing, ?_⟩
  · rw [equal]
    unfold PartitionWatermark.candidate
    split
    · rename_i flying
      exact .inl ⟨_, ⟨Finset.min'_mem _ flying, fun o ho => Finset.min'_le _ o ho⟩, rfl⟩
    · rename_i landed
      exact .inr ⟨Finset.not_nonempty_iff_eq_empty.1 landed, rfl⟩
  · intro u offset' u' reach done' started finished
    obtain ⟨hu', equal', -, -⟩ := (inv reach).done done'
    have point' := hu'.candidate_isCommitPoint
    rw [← equal', started, finished, hu'.lastSeen_eq h' started] at point'
    exact point'.unique point

end

/-- Three offsets with a gap start, and the first is done last. -/
theorem watermark_exact_gap : ∃ t t', Exact t 0 t' ∧ t'.watermark.lastCommitted = 4 := by
  obtain ⟨t, run, done⟩ := Lts.Run.of_check_any (C := fun _ _ => true) (s := initial)
    (p := fun t : Tracked => (t.step (.done 0)).any (·.watermark.lastCommitted = 4))
    (show (Lts.check step _ _ [.start 0, .start 2, .start 5, .done 2]).any _ = true by decide +kernel)
  rw [Option.any_eq_true] at done
  obtain ⟨t', done, four⟩ := done
  exact ⟨t, t', watermark_exact run.any done, of_decide_eq_true four⟩

end Tracked
end HookRelay
