import Mathlib.Algebra.BigOperators.Group.List.Basic
import Mathlib.Data.Nat.Cast.Basic
import Mathlib.Data.List.Perm.Subperm

/-!
# Weights of lists

The weight of a list is the sum of the weights of its items. Replacing or removing one item changes it by that item
alone, and a bound on every item is a bound on the whole.
-/

namespace Weights

variable {α : Type*} {f g : α → Nat} {l l' : List α} {i c : Nat} {x y : α}

def total (f : α → Nat) (l : List α) : Nat := (l.map f).sum

@[simp] theorem total_nil : total f [] = 0 := rfl

@[simp] theorem total_cons : total f (x :: l) = f x + total f l := rfl

@[simp] theorem total_append : total f (l ++ l') = total f l + total f l' := by
  simp only [total, List.map_append, List.sum_append]

theorem total_const (c : Nat) (l : List α) : total (fun _ => c) l = l.length * c := by
  rw [total, List.map_const', List.sum_replicate, nsmul_eq_mul, Nat.cast_id]

theorem total_set (found : l[i]? = some x) (y : α) : total f (l.set i y) + f x = total f l + f y := by
  induction l generalizing i with
  | nil => cases found
  | cons z l ih =>
    cases i with
    | zero =>
      cases found
      rw [List.set_cons_zero, total_cons, total_cons]
      omega
    | succ i =>
      have rest := ih found
      rw [List.set_cons_succ, total_cons, total_cons]
      omega

theorem total_eraseIdx (found : l[i]? = some x) : total f (l.eraseIdx i) + f x = total f l := by
  induction l generalizing i with
  | nil => cases found
  | cons z l ih =>
    cases i with
    | zero =>
      cases found
      rw [List.eraseIdx_cons_zero, total_cons]
      omega
    | succ i =>
      have rest := ih found
      rw [List.eraseIdx_cons_succ, total_cons, total_cons]
      omega

theorem total_le_add (h : ∀ x ∈ l, f x ≤ g x + c) : total f l ≤ total g l + l.length * c := by
  induction l with
  | nil => exact Nat.zero_le _
  | cons z l ih =>
    have first := h z List.mem_cons_self
    have rest := ih fun x hx => h x (List.mem_cons_of_mem z hx)
    rw [total_cons, total_cons, List.length_cons, Nat.succ_mul]
    omega

theorem total_le (h : ∀ x ∈ l, f x ≤ g x) : total f l ≤ total g l :=
  total_le_add (c := 0) h

theorem total_sublist (h : l.Sublist l') : total f l ≤ total f l' := by
  induction h with
  | slnil => exact Nat.le_refl _
  | cons z _ ih =>
    rw [total_cons]
    omega
  | cons_cons z _ ih =>
    rw [total_cons, total_cons]
    omega

theorem total_perm (h : l.Perm l') : total f l = total f l' := (h.map f).sum_eq

/-- Items that lost some of their weight lower the whole by as much. -/
theorem total_add_le {d : α → Nat} (h : ∀ x ∈ l, f x ≤ g x) (sub : l'.Subperm l)
    (less : ∀ x ∈ l', f x + d x ≤ g x) : total f l + total d l' ≤ total g l := by
  obtain ⟨k, perm, sublist⟩ := sub
  rw [← total_perm perm]
  replace less : ∀ x ∈ k, f x + d x ≤ g x := fun x hx => less x (perm.subset hx)
  clear perm
  induction sublist with
  | slnil => exact Nat.le_refl _
  | cons z _ ih =>
    have first := h z List.mem_cons_self
    have rest := ih (fun x hx => h x (List.mem_cons_of_mem z hx)) less
    rw [total_cons, total_cons]
    omega
  | cons_cons z _ ih =>
    have first := less z List.mem_cons_self
    have rest := ih (fun x hx => h x (List.mem_cons_of_mem z hx)) fun x hx => less x (List.mem_cons_of_mem z hx)
    rw [total_cons, total_cons, total_cons]
    omega

end Weights
