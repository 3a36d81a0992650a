import Mathlib.Order.Basic
import Mathlib.Tactic.TypeStar

/-!
# Duties handed over along a rising number

A duty is carried by numbered tokens. A token that was issued is still held, or its duty was
discharged, or the token with the next number was issued in its place. If the numbers issued
are bounded, the duty is discharged or some token is held: the highest token issued cannot
have been replaced.
-/

namespace Handover

variable {issued held : ℕ → Prop} {discharged : Prop}

/-- The duty is never dropped between two tokens. -/
def Passed (issued held : ℕ → Prop) (discharged : Prop) : Prop :=
  ∀ n, issued n → discharged ∨ held n ∨ issued (n + 1)

/-- From any issued token, some token held is reached within the bound. -/
theorem Passed.exists_held {bound : ℕ} (h : Passed issued held discharged)
    (hb : ∀ n, issued n → n < bound) {n : ℕ} (hn : issued n) : discharged ∨ ∃ m, held m := by
  -- Induction on the distance to the bound, which every replacement shortens.
  generalize hd : bound - n = d
  induction d generalizing n with
  | zero => have := hb n hn; omega
  | succ d ih =>
    rcases h n hn with done | here | next
    · exact .inl done
    · exact .inr ⟨n, here⟩
    · exact ih next (by omega)

end Handover
