import HookRelay.Lib.PyJsonValues

/-!
# `json.dumps` with `separators=(",", ":")`

What `json.dumps` writes with its own separators it writes with these.
-/

namespace PyJson

/-- The items with commas between them and no spaces. -/
def joinCompact : List Text → Text
  | [] => []
  | [t] => t
  | t :: t' :: ts => t ++ ',' :: joinCompact (t' :: ts)

/-- `json.dumps(value, separators=(",", ":"))`, or an exception. -/
def dumpsCompact : Nat → Value → Option Text
  | _, .null => some ['n', 'u', 'l', 'l']
  | _, .bool b => some (if b then ['t', 'r', 'u', 'e'] else ['f', 'a', 'l', 's', 'e'])
  | _, .int n => if (Nat.toDigits 10 n.natAbs).length ≤ maxDigits then some (intText n) else none
  | _, .float x => some (floatText x)
  | _, .str s => some (quote s)
  | limit + 1, .arr elements => do
    let items ← elements.mapM (dumpsCompact limit)
    some ('[' :: (joinCompact items ++ [']']))
  | limit + 1, .obj fields => do
    let items ← fields.mapM fun field => do
      let value ← dumpsCompact limit field.2
      some (quote field.1 ++ ':' :: value)
    some ('{' :: (joinCompact items ++ ['}']))
  | 0, .arr _ | 0, .obj _ => none

/-- Each item of a list that is mapped has an image. -/
theorem isSome_of_mapM {α β : Type} {f : α → Option β} {xs : List α} {ys : List β} (h : xs.mapM f = some ys) :
    ∀ x ∈ xs, (f x).isSome := by
  have each : List.Forall₂ (fun x y => f x = some y) xs ys := (forall₂_of_mapM h).imp fun _ _ both => both.2
  clear h
  induction each with
  | nil => exact fun x none => absurd none List.not_mem_nil
  | cons first _ ih =>
    intro x hx
    obtain rfl | hx := List.mem_cons.1 hx
    · rw [first]
      rfl
    · exact ih x hx

theorem dumpsCompact_isSome {limit : Nat} {v : Value} (writes : (dumps limit v).isSome) :
    (dumpsCompact limit v).isSome := by
  induction limit generalizing v with
  | zero =>
    cases v with
    | arr | obj => cases writes
    | null | bool | int | float | str => exact writes
  | succ limit ih =>
    cases v with
    | null | bool | int | float | str => exact writes
    | arr elements =>
      obtain ⟨t, writes⟩ := Option.isSome_iff_exists.1 writes
      obtain ⟨ts, items, -⟩ := Option.bind_eq_some_iff.1 writes
      obtain ⟨us, compact⟩ := Option.isSome_iff_exists.1
        (isSome_mapM fun v hv => ih (isSome_of_mapM items v hv))
      rw [dumpsCompact, compact]
      rfl
    | obj fields =>
      obtain ⟨t, writes⟩ := Option.isSome_iff_exists.1 writes
      obtain ⟨ts, items, -⟩ := Option.bind_eq_some_iff.1 writes
      have each : ∀ f ∈ fields, ((dumpsCompact limit f.2).bind fun value =>
          some (quote f.1 ++ ':' :: value)).isSome := by
        intro f hf
        obtain ⟨item, written⟩ := Option.isSome_iff_exists.1 (isSome_of_mapM items f hf)
        obtain ⟨value, inner, -⟩ := Option.bind_eq_some_iff.1 written
        obtain ⟨u, compact⟩ := Option.isSome_iff_exists.1 (ih (by rw [inner]; rfl))
        rw [compact]
        rfl
      obtain ⟨us, compact⟩ := Option.isSome_iff_exists.1 (isSome_mapM each)
      simp only [dumpsCompact, Option.bind_eq_bind, compact]
      rfl

end PyJson
