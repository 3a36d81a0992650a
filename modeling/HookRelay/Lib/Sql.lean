import Mathlib.Data.List.Dedup
import Mathlib.Data.List.ReduceOption

/-!
# Three-valued conditions and aggregates of SQL

A condition is true, false or NULL, which is `none`. An aggregate ignores NULL and is NULL on a
group without values; `COUNT(CASE WHEN c THEN 1 END)` counts the rows where `c` is true.
-/

namespace Sql

abbrev Truth := Option Bool

/-- `NOT`. -/
def Truth.not : Truth → Truth := Option.map (!·)

/-- `AND`: false as soon as one side is. -/
def Truth.and : Truth → Truth → Truth
  | some false, _ => some false
  | _, some false => some false
  | some true, some true => some true
  | _, _ => none

/-- `bool_or`. -/
def boolOr (xs : List Truth) : Truth :=
  match xs.reduceOption with
  | [] => none
  | b :: bs => some ((b :: bs).any id)

section Rows

variable {α κ : Type*} [DecidableEq κ]

/-- `GROUP BY`: the keys, each with its rows. -/
def groupBy (key : α → κ) (rows : List α) : List (κ × List α) :=
  (rows.map key).dedup.map fun k => (k, rows.filter (key · = k))

/-- `COUNT(CASE WHEN c THEN 1 END)`. -/
def countWhen (c : α → Truth) (rows : List α) : Nat := rows.countP (c · = some true)

end Rows

@[simp] theorem Truth.not_some (b : Bool) : Truth.not (some b) = some (!b) := rfl

@[simp] theorem Truth.and_some (a b : Bool) : Truth.and (some a) (some b) = some (a && b) := by
  cases a <;> cases b <;> rfl

/-- `coalesce(…, false)`. -/
theorem coalesce_eq_true {x : Truth} : x.getD false = true ↔ x = some true := by
  cases x <;> simp

/-- `bool_or` is true when some input is. -/
theorem boolOr_eq_true {xs : List Truth} : boolOr xs = some true ↔ some true ∈ xs := by
  have values : ∀ b : Bool, b ∈ xs.reduceOption ↔ some b ∈ xs := fun b => List.reduceOption_mem_iff
  unfold boolOr
  split
  · rename_i empty
    simp [← values, empty]
  · rename_i b bs cons
    rw [Option.some.injEq, List.any_eq_true, ← values, cons]
    simp

/-- Over a group without NULL, `bool_or` is a value. -/
theorem boolOr_values {xs : List Bool} (h : xs ≠ []) : boolOr (xs.map some) = some (xs.any id) := by
  unfold boolOr
  have values : (xs.map some).reduceOption = xs := by
    simp [List.reduceOption, List.filterMap_map]
  rw [values]
  cases xs with
  | nil => exact absurd rfl h
  | cons b bs => rfl

section Rows

variable {α κ : Type*} [DecidableEq κ]

theorem mem_groupBy {key : α → κ} {rows : List α} {k : κ} {g : List α} :
    (k, g) ∈ groupBy key rows ↔ (∃ r ∈ rows, key r = k) ∧ g = rows.filter (key · = k) := by
  simp only [groupBy, List.mem_map, List.mem_dedup, Prod.mk.injEq]
  constructor
  · rintro ⟨_, ⟨r, hr, rfl⟩, rfl, rfl⟩
    exact ⟨⟨r, hr, rfl⟩, rfl⟩
  · rintro ⟨⟨r, hr, rfl⟩, rfl⟩
    exact ⟨_, ⟨r, hr, rfl⟩, rfl, rfl⟩

theorem countWhen_pos {c : α → Truth} {rows : List α} :
    0 < countWhen c rows ↔ ∃ r ∈ rows, c r = some true := by
  simp [countWhen, List.countP_pos_iff]

end Rows

end Sql
