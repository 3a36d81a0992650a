import Mathlib.Data.Finset.Max
import Mathlib.Data.Int.Order.Basic

/-!
# `PartitionWatermark`

The offsets of one partition that are in flight, the highest offset seen and the highest
offset committed. No offset in flight was seen above `lastSeen`, which the type states.
-/

namespace HookRelay

structure PartitionWatermark where
  inFlight : Finset Int := ∅
  lastSeen : Int := -1
  lastCommitted : Int := -1
  inFlight_le : ∀ o ∈ inFlight, o ≤ lastSeen := by simp

namespace PartitionWatermark

def start (w : PartitionWatermark) (offset : Int) : PartitionWatermark where
  inFlight := insert offset w.inFlight
  lastSeen := if offset > w.lastSeen then offset else w.lastSeen
  lastCommitted := w.lastCommitted
  inFlight_le o ho := by
    rcases Finset.mem_insert.1 ho with rfl | ho
    · split <;> omega
    · have := w.inFlight_le o ho
      split <;> omega

/-- `last_seen if not in_flight else min(in_flight) - 1`. -/
def candidate (w : PartitionWatermark) : Int :=
  if h : w.inFlight.Nonempty then w.inFlight.min' h - 1 else w.lastSeen

/-- `in_flight.discard(offset)`. -/
def discard (w : PartitionWatermark) (offset : Int) : PartitionWatermark :=
  { w with
    inFlight := w.inFlight.erase offset
    inFlight_le := fun o ho => w.inFlight_le o (Finset.mem_of_mem_erase ho) }

/-- `done`: the new state, and the offset to commit when the watermark advanced. -/
def done (w : PartitionWatermark) (offset : Int) : PartitionWatermark × Option Int :=
  let w := w.discard offset
  if w.candidate > w.lastCommitted then
    ({ w with lastCommitted := w.candidate }, some w.candidate)
  else (w, none)

@[simp] theorem start_inFlight (w : PartitionWatermark) (o : Int) :
    (w.start o).inFlight = insert o w.inFlight := rfl

theorem start_lastSeen (w : PartitionWatermark) (o : Int) :
    (w.start o).lastSeen = max w.lastSeen o := by
  simp only [start]; split <;> omega

@[simp] theorem done_inFlight (w : PartitionWatermark) (o : Int) :
    (w.done o).1.inFlight = w.inFlight.erase o := by
  simp only [done]; split <;> rfl

@[simp] theorem done_lastSeen (w : PartitionWatermark) (o : Int) :
    (w.done o).1.lastSeen = w.lastSeen := by
  simp only [done]; split <;> rfl

/-- The candidate lies below every offset in flight and not above the last one seen. -/
theorem candidate_spec (w : PartitionWatermark) :
    (∀ o ∈ w.inFlight, w.candidate < o) ∧ w.candidate ≤ w.lastSeen := by
  unfold candidate
  split
  · rename_i h
    refine ⟨fun o ho => ?_, ?_⟩
    · have := w.inFlight.min'_le o ho; omega
    · have := w.inFlight_le _ (w.inFlight.min'_mem h); omega
  · rename_i h
    rw [Finset.not_nonempty_iff_eq_empty] at h
    exact ⟨by simp [h], le_refl _⟩

/-- What `done` asks to commit is the candidate left after discarding the offset. -/
theorem done_commit {w : PartitionWatermark} {o c : Int} (h : (w.done o).2 = some c) :
    c = (w.discard o).candidate := by
  simp only [done] at h
  split at h
  · exact (Option.some.inj h).symm
  · cases h

end PartitionWatermark
end HookRelay
