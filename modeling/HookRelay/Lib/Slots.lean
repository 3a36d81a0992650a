import Mathlib.Data.List.Basic

/-!
# Slots that keep apart

Parties in numbered slots of a list, any two of which are related: they hold different locks or have
reserved different keys. A party that changes keeps the relation to all others or to none of them.
-/

namespace Slots

variable {α : Type*} {R : α → α → Prop} {l : List α}

/-- The parties of any two slots are related. -/
def Apart (R : α → α → Prop) (l : List α) : Prop :=
  ∀ (i j : Nat) (x y : α), i ≠ j → l[i]? = some x → l[j]? = some y → R x y

theorem Apart.nil : Apart R [] := fun _ _ _ _ _ h _ => by simp at h

/-- The party of slot `i` becomes `z`. -/
theorem Apart.set (h : Apart R l) {i : Nat} {z : α}
    (new : ∀ j y, j ≠ i → l[j]? = some y → R z y ∧ R y z) : Apart R (l.set i z) := by
  intro j k x y ne hx hy
  by_cases hj : j = i
  · subst hj
    rw [List.getElem?_set_ne ne] at hy
    rw [List.getElem?_set] at hx
    split at hx
    · split at hx
      · cases hx
        exact (new k y ne.symm hy).1
      · cases hx
    · contradiction
  rw [List.getElem?_set_ne (Ne.symm hj)] at hx
  by_cases hk : k = i
  · subst hk
    rw [List.getElem?_set] at hy
    split at hy
    · split at hy
      · cases hy
        exact (new j x hj hx).2
      · cases hy
    · contradiction
  · rw [List.getElem?_set_ne (Ne.symm hk)] at hy
    exact h j k x y ne hx hy

/-- A party joins. -/
theorem Apart.snoc (h : Apart R l) {z : α} (new : ∀ y ∈ l, R z y ∧ R y z) : Apart R (l ++ [z]) := by
  intro i j x y ne hx hy
  have slot : ∀ {k : Nat} {w : α}, (l ++ [z])[k]? = some w →
      l[k]? = some w ∨ (k = l.length ∧ w = z) := by
    intro k w hw
    rcases Nat.lt_trichotomy k l.length with lt | rfl | gt
    · rw [List.getElem?_append_left lt] at hw
      exact .inl hw
    · rw [List.getElem?_concat_length] at hw
      exact .inr ⟨rfl, (Option.some.inj hw).symm⟩
    · rw [List.getElem?_eq_none (by simp; omega)] at hw
      cases hw
  rcases slot hx with old | ⟨hi, same⟩
  · rcases slot hy with old' | ⟨-, same⟩
    · exact h i j x y ne old old'
    · exact same ▸ (new x (List.mem_of_getElem? old)).2
  · rcases slot hy with old' | ⟨hj, -⟩
    · exact same ▸ (new y (List.mem_of_getElem? old')).1
    · exact absurd (hi.trans hj.symm) ne

/-- A party after a change of slot `i` is the new one or one of another slot. -/
theorem mem_set {i : Nat} {y z : α} (h : y ∈ l.set i z) : y = z ∨ ∃ j, j ≠ i ∧ l[j]? = some y := by
  obtain ⟨j, hj⟩ := List.mem_iff_getElem?.1 h
  by_cases same : j = i
  · subst same
    rw [List.getElem?_set] at hj
    simp only [if_true] at hj
    split at hj
    · exact .inl (Option.some.inj hj).symm
    · cases hj
  · rw [List.getElem?_set_ne (Ne.symm same)] at hj
    exact .inr ⟨j, same, hj⟩

/-- A party that does not change leaves all slots as they are. -/
theorem set_same {i : Nat} {x : α} (found : l[i]? = some x) : l.set i x = l := by
  obtain ⟨bound, rfl⟩ := List.getElem?_eq_some_iff.1 found
  exact List.set_getElem_self bound

/-- A party keeps its slot when another one changes, -/
theorem mem_set_of_ne {i : Nat} {x y z : α} (found : l[i]? = some x) (h : y ∈ l) (ne : y ≠ x) :
    y ∈ l.set i z := by
  obtain ⟨j, hj⟩ := List.mem_iff_getElem?.1 h
  have other : i ≠ j := by
    rintro rfl
    exact ne (Option.some.inj (hj.symm.trans found))
  exact List.mem_of_getElem? ((List.getElem?_set_ne other).trans hj)

/-- and stays when another one leaves. -/
theorem mem_eraseIdx_of_ne {i : Nat} {x y : α} (found : l[i]? = some x) (h : y ∈ l) (ne : y ≠ x) :
    y ∈ l.eraseIdx i := by
  obtain ⟨j, hj⟩ := List.mem_iff_getElem?.1 h
  refine List.mem_eraseIdx_iff_getElem?.2 ⟨j, ?_, hj⟩
  rintro rfl
  exact ne (Option.some.inj (hj.symm.trans found))

end Slots
