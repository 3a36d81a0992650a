import Mathlib.Data.List.Basic
import HookRelay.Lib.PyText

/-!
# Texts that are written and read back

`str.encode("utf-8")`, which `decode` inverts, and `int(text, 16)` of hexadecimal digits.
-/

namespace PyText

open PyJson (CodePoint Text hexValue)

/-! ## UTF-8 -/

/-- The bytes of a character. -/
def encodeChar (c : Char) : List UInt8 :=
  let n := c.toNat
  if n < 0x80 then [.ofNat n]
  else if n < 0x800 then [.ofNat (0xc0 + n / 0x40), .ofNat (0x80 + n % 0x40)]
  else if n < 0x10000 then
    [.ofNat (0xe0 + n / 0x1000), .ofNat (0x80 + n / 0x40 % 0x40), .ofNat (0x80 + n % 0x40)]
  else
    [.ofNat (0xf0 + n / 0x40000), .ofNat (0x80 + n / 0x1000 % 0x40), .ofNat (0x80 + n / 0x40 % 0x40),
      .ofNat (0x80 + n % 0x40)]

/-- `str.encode("utf-8")` of a text without surrogates. -/
def encodeUtf8 (t : Text) : List UInt8 := t.flatMap encodeChar

theorem toNat_byte {n : Nat} (h : n < 256) : (UInt8.ofNat n).toNat = n := by
  rw [UInt8.toNat_ofNat']
  exact Nat.mod_eq_of_lt h

theorem tail_byte {k : Nat} (h : k < 0x40) : tail (.ofNat (0x80 + k)) = some k := by
  have byte := toNat_byte (n := 0x80 + k) (by omega)
  unfold tail
  rw [if_pos, byte]
  · simp
  · rw [UInt8.le_iff_toNat_le, UInt8.le_iff_toNat_le, byte]
    exact ⟨Nat.le_add_right _ _, show 0x80 + k ≤ 0xbf by omega⟩

theorem byte_lt {n : Nat} (h : n < 256) (m : UInt8) : UInt8.ofNat n < m ↔ n < m.toNat := by
  rw [UInt8.lt_iff_toNat_lt, toNat_byte h]

theorem not_byte_lt {b k : Nat} {m : UInt8} (h : b + k < 256) (le : m.toNat ≤ b) :
    ¬ UInt8.ofNat (b + k) < m := by
  rw [byte_lt h, Nat.not_lt]
  exact Nat.le_add_right_of_le le

theorem charFrom_toNat {c : Char} {least : Nat} (h : least ≤ c.toNat) :
    charFrom least c.toNat = some c := by
  rw [charFrom, if_pos ⟨h, c.valid⟩, Char.ofNat_toNat]

theorem decodeUtf8_encodeChar (c : Char) (bytes : List UInt8) :
    decodeUtf8 (encodeChar c ++ bytes) = (decodeUtf8 bytes).map (c :: ·) := by
  have top : c.toNat < 0x110000 := by
    obtain low | ⟨-, high⟩ := c.valid
    · exact Nat.lt_trans low (by decide)
    · exact high
  unfold encodeChar
  dsimp only
  generalize size : c.toNat = n at top
  have value : ∀ least, least ≤ n → charFrom least n = some c := fun least le => by
    subst size
    exact charFrom_toNat le
  split_ifs with one two three
  · rw [List.singleton_append, decodeUtf8.eq_def]
    dsimp only
    rw [if_pos ((byte_lt (by omega) _).2 one), toNat_byte (by omega), ← size, Char.ofNat_toNat]
  · rw [List.cons_append, List.singleton_append, decodeUtf8.eq_def]
    dsimp only
    rw [if_neg (not_byte_lt (by omega) (by decide)),
      if_pos ((byte_lt (by omega) _).2 (show 0xc0 + n / 0x40 < 0xe0 by omega)), tail_byte (by omega),
      toNat_byte (by omega)]
    have whole : 0x40 * (0xc0 + n / 0x40 - 0xc0) + n % 0x40 = n := by omega
    simp only [Option.bind_eq_bind, Option.bind_some, whole, value 0x80 (Nat.not_lt.1 one)]
  · rw [List.cons_append, List.cons_append, List.singleton_append, decodeUtf8.eq_def]
    dsimp only
    rw [if_neg (not_byte_lt (by omega) (by decide)),
      if_neg (not_byte_lt (by omega) (by decide)),
      if_pos ((byte_lt (by omega) _).2 (show 0xe0 + n / 0x1000 < 0xf0 by omega)), tail_byte (by omega),
      tail_byte (by omega), toNat_byte (by omega)]
    have whole : 0x1000 * (0xe0 + n / 0x1000 - 0xe0) + 0x40 * (n / 0x40 % 0x40) + n % 0x40 = n := by omega
    simp only [Option.bind_eq_bind, Option.bind_some, whole, value 0x800 (Nat.not_lt.1 two)]
  · rw [List.cons_append, List.cons_append, List.cons_append, List.singleton_append, decodeUtf8.eq_def]
    dsimp only
    rw [if_neg (not_byte_lt (by omega) (by decide)),
      if_neg (not_byte_lt (by omega) (by decide)),
      if_neg (not_byte_lt (by omega) (by decide)), tail_byte (by omega),
      tail_byte (by omega), tail_byte (by omega), toNat_byte (by omega)]
    have whole : 0x40000 * (0xf0 + n / 0x40000 - 0xf0) + 0x1000 * (n / 0x1000 % 0x40) +
        0x40 * (n / 0x40 % 0x40) + n % 0x40 = n := by omega
    simp only [Option.bind_eq_bind, Option.bind_some, whole, value 0x10000 (Nat.not_lt.1 three)]

theorem decodeUtf8_encodeUtf8 (t : Text) : decodeUtf8 (encodeUtf8 t) = some t := by
  induction t with
  | nil => rfl
  | cons c t ih => rw [encodeUtf8, List.flatMap_cons, decodeUtf8_encodeChar, ← encodeUtf8, ih, Option.map_some]

/-! ## Strings -/

theorem remove_absent {a : CodePoint} {word s : List CodePoint} (absent : a ∉ s) :
    remove (a :: word) s = s := by
  unfold remove
  induction s with
  | nil => rfl
  | cons c s ih =>
    have first : a ≠ c := fun same => absent (same ▸ List.mem_cons_self)
    rw [removeFrom, List.isPrefixOf_cons_cons, if_neg (by simp [first]),
      ih fun mem => absent (List.mem_cons_of_mem _ mem)]

theorem remove_singleton (a : CodePoint) (s : List CodePoint) : remove [a] s = s.filter (· ≠ a) := by
  unfold remove
  induction s with
  | nil => rfl
  | cons c s ih =>
    by_cases first : c = a
    · subst first
      simpa [removeFrom] using ih
    · have other : a ≠ c := fun same => first same.symm
      rw [removeFrom, List.isPrefixOf_cons_cons, if_neg (by simp [other]), ih,
        List.filter_cons_of_pos (by simp [first])]

theorem strip_absent {chars s : List CodePoint} (absent : ∀ c ∈ s, c ∉ chars) : strip chars s = s := by
  have keep : ∀ t : List CodePoint, (∀ c ∈ t, c ∉ chars) → t.dropWhile chars.contains = t := by
    intro t absent
    cases t with
    | nil => rfl
    | cons c t => rw [List.dropWhile_cons_of_neg (by simpa using absent c List.mem_cons_self)]
  rw [strip, keep s absent, keep _ fun c hc => absent c (List.mem_reverse.1 hc), List.reverse_reverse]

theorem ofChar_inj {c d : Char} : PyJson.ofChar c = PyJson.ofChar d ↔ c = d := by
  constructor
  · intro same
    have points := congrArg Fin.val same
    exact Char.ext (UInt32.toNat_inj.1 points)
  · rintro rfl
    rfl

/-! ## Hexadecimal digits -/

theorem toAscii_ofChar {c : Char} (ascii : c.toNat < 0x80) : toAscii (PyJson.ofChar c) = c := by
  rw [toAscii, if_pos (show (PyJson.ofChar c).val < 0x80 from ascii)]
  exact Char.ofNat_toNat c

/-- What the parser sees of a digit. -/
theorem digitChar_ascii : ∀ d < 16, (Nat.digitChar d).toNat < 0x80 ∧ isSpace (Nat.digitChar d) = false ∧
    Nat.digitChar d ≠ '-' ∧ Nat.digitChar d ≠ '+' ∧ Nat.digitChar d ≠ '_' ∧ Nat.digitChar d ≠ 'x' ∧
    Nat.digitChar d ≠ 'X' ∧ digitValue 16 (Nat.digitChar d) = some d := by decide

theorem takeDigits_digitChar {ds : List Nat} (digits : ∀ d ∈ ds, d < 16) :
    takeDigits 16 (ds.map Nat.digitChar) = (ds, []) := by
  induction ds with
  | nil => rfl
  | cons d ds ih =>
    obtain ⟨-, -, -, -, line, -, -, value⟩ := digitChar_ascii d (digits d List.mem_cons_self)
    have rest := ih fun e he => digits e (List.mem_cons_of_mem _ he)
    rw [List.map_cons, takeDigits.eq_def]
    split
    · rename_i none
      cases none
    · rename_i c t same
      exact absurd (List.cons.inj same).1 line
    · rename_i c t other same
      obtain ⟨rfl, rfl⟩ := List.cons.inj same
      simp only [value, rest]

theorem takeSign_digitChar {d : Nat} (digit : d < 16) (t : Text) :
    takeSign (Nat.digitChar d :: t) = (false, Nat.digitChar d :: t) := by
  obtain ⟨-, -, minus, plus, -⟩ := digitChar_ascii d digit
  unfold takeSign
  split
  · rename_i same
    exact absurd (List.cons.inj same).1 minus
  · rename_i same
    exact absurd (List.cons.inj same).1 plus
  · rfl

theorem takePrefix_digitChar {ds : List Nat} (digits : ∀ d ∈ ds, d < 16) :
    takePrefix 16 (ds.map Nat.digitChar) = ds.map Nat.digitChar := by
  unfold takePrefix
  split
  · rename_i zero x t same
    have mem : x ∈ ds.map Nat.digitChar := by rw [same]; simp
    obtain ⟨d, hd, rfl⟩ := List.mem_map.1 mem
    obtain ⟨-, -, -, -, -, lower, upper, -⟩ := digitChar_ascii d (digits d hd)
    rw [if_neg (by simp [lower, upper])]
    exact same.symm
  · rfl

theorem parseInt_digitChar {ds : List Nat} (some_ : ds ≠ []) (digits : ∀ d ∈ ds, d < 16) :
    parseInt 16 (ds.map fun d => PyJson.ofChar (Nat.digitChar d)) =
      some ((ds.foldl (fun n d => 16 * n + d) 0 : Nat) : Int) := by
  have ascii : (ds.map fun d => PyJson.ofChar (Nat.digitChar d)).map toAscii = ds.map Nat.digitChar := by
    rw [List.map_map]
    exact List.map_congr_left fun d hd => toAscii_ofChar (digitChar_ascii d (digits d hd)).1
  obtain ⟨d, rest, rfl⟩ := List.exists_cons_of_ne_nil some_
  have digit := digits d List.mem_cons_self
  obtain ⟨-, space, -, -, line, -⟩ := digitChar_ascii d digit
  have signed : takeSign (((d :: rest).map Nat.digitChar).dropWhile isSpace) =
      (false, (d :: rest).map Nat.digitChar) := by
    rw [List.map_cons, List.dropWhile_cons_of_neg (by simp [space]), takeSign_digitChar digit]
  unfold parseInt
  rw [ascii, signed]
  dsimp only
  rw [takePrefix_digitChar digits, takeDigits_digitChar digits]
  dsimp only
  rw [if_pos]
  · simp only [bind_pure_comp, List.map_eq_map, Bool.false_eq_true, if_false]
    rw [← foldl_digits_cast]
    rfl
  · refine ⟨?_, List.cons_ne_nil _ _, fun ten => absurd ten (by decide), rfl⟩
    rw [List.map_cons, List.head?_cons]
    exact fun same => line (Option.some.inj same)

end PyText
