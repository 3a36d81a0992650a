import Mathlib.Data.List.Basic
import Mathlib.Logic.Function.Iterate

/-!
# Serving a queue by windows

A queue is served from its front, a window at a time. Of the items in the window some stay where they are
and the others leave, so those that stay take up room in every later window.
-/

namespace Windows

variable {α : Type*}

/-- The queue after a window of `size` items. -/
def serve (size : Nat) (stays : α → Bool) (q : List α) : List α :=
  (q.take size).filter stays ++ q.drop size

/-- How many items of the queue have been in one of the first `t` windows: each has room for the items
behind those met before, less those of them that stay. -/
def reach (size : Nat) (stays : α → Bool) (q : List α) : Nat → Nat
  | 0 => 0
  | t + 1 => reach size stays q t + (size - (q.take (reach size stays q t)).countP stays)

section

variable {size : Nat} {stays : α → Bool} {q : List α} {x : α}

theorem serve_sublist : (serve size stays q).Sublist q := by
  have front : ((q.take size).filter stays ++ q.drop size).Sublist (q.take size ++ q.drop size) :=
    List.filter_sublist.append (.refl _)
  rwa [List.take_append_drop] at front

theorem mem_serve (nodup : q.Nodup) : x ∈ serve size stays q ↔ x ∈ q ∧ (x ∈ q.take size → stays x = true) := by
  rw [serve, List.mem_append, List.mem_filter]
  constructor
  · rintro (⟨front, stay⟩ | back)
    · exact ⟨List.mem_of_mem_take front, fun _ => stay⟩
    · refine ⟨List.mem_of_mem_drop back, fun front => ?_⟩
      exact absurd back (List.disjoint_take_drop nodup (Nat.le_refl _) front)
  · rintro ⟨mem, stay⟩
    rw [← List.take_append_drop size q, List.mem_append] at mem
    obtain front | back := mem
    · exact .inl ⟨front, stay front⟩
    · exact .inr back

theorem serve_congr {stays' : α → Bool} (same : ∀ x ∈ q, stays x = stays' x) :
    serve size stays q = serve size stays' q := by
  rw [serve, List.filter_congr fun x hx => same x (List.mem_of_mem_take hx), ← serve]

theorem iterate_congr {stays' : α → Bool} (same : ∀ x ∈ q, stays x = stays' x) (t : Nat) :
    (serve size stays)^[t] q = (serve size stays')^[t] q := by
  induction t generalizing q with
  | zero => rfl
  | succ t ih =>
    rw [Function.iterate_succ_apply, Function.iterate_succ_apply, ← serve_congr same]
    exact ih fun x hx => same x (serve_sublist.subset hx)

/-- One more window, when the first `r` items have been in one. -/
theorem serve_served (r : Nat) :
    serve size stays ((q.take r).filter stays ++ q.drop r) =
      (q.take (r + (size - (q.take r).countP stays))).filter stays ++
        q.drop (r + (size - (q.take r).countP stays)) := by
  have kept : ((q.take r).filter stays).filter stays = (q.take r).filter stays := by simp
  have count : ((q.take r).filter stays).length = (q.take r).countP stays :=
    List.countP_eq_length_filter.symm
  rw [List.take_add, List.filter_append, ← List.drop_drop, ← count]
  generalize (q.take r).filter stays = front at kept
  generalize q.drop r = back
  rw [serve, List.take_append, List.drop_append, List.filter_append]
  by_cases fits : front.length ≤ size
  · rw [List.take_of_length_le fits, List.drop_of_length_le fits, kept, List.nil_append]
  · have full : size - front.length = 0 := by omega
    have stay : (front.take size).filter stays = front.take size := by
      refine List.filter_eq_self.2 fun x hx => ?_
      exact List.filter_eq_self.1 kept x (List.mem_of_mem_take hx)
    rw [full, List.take_zero, List.drop_zero, List.filter_nil, List.append_nil, List.append_nil, stay,
      ← List.append_assoc, List.take_append_drop]

/-- After `t` windows, those met that stay are in front of those not met. -/
theorem iterate_serve (t : Nat) :
    (serve size stays)^[t] q =
      (q.take (reach size stays q t)).filter stays ++ q.drop (reach size stays q t) := by
  induction t with
  | zero => simp [reach]
  | succ t ih => rw [Function.iterate_succ_apply', ih, serve_served, reach]

/-- An item that leaves is still there when no window has met it. -/
theorem mem_iterate_serve {t : Nat} (leaves : stays x = false) :
    x ∈ (serve size stays)^[t] q ↔ x ∈ q.drop (reach size stays q t) := by
  rw [iterate_serve, List.mem_append, List.mem_filter, leaves]
  simp

/-- Where the first window is full of items that stay, none gets further. -/
theorem reach_le (full : ∀ x ∈ q.take size, stays x = true) (long : size ≤ q.length) (t : Nat) :
    reach size stays q t ≤ size := by
  induction t with
  | zero => exact Nat.zero_le _
  | succ t ih =>
    have all : (q.take (reach size stays q t)).countP stays = (q.take (reach size stays q t)).length :=
      List.countP_eq_length.2 fun x hx => full x (List.take_subset_take_left q ih hx)
    rw [reach, all, List.length_take]
    omega

end
end Windows
