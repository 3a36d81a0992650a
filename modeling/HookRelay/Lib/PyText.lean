import HookRelay.Lib.PyJson

/-!
# Python's text functions

`bytes.decode("utf-8")`, `str.replace` with an empty replacement, `str.strip` and `int(text, base)`. A
`str` is a list of code points; `int` takes the decimal digits and the white space of Unicode 15.0.
-/

namespace PyText

open PyJson (CodePoint Text hexValue maxDigits)

/-! ## UTF-8 -/

/-- A continuation byte's six bits. -/
def tail (b : UInt8) : Option Nat := if 0x80 ≤ b ∧ b ≤ 0xbf then some (b.toNat - 0x80) else none

/-- The character of a code point, if it takes no fewer than `least` bytes and is no surrogate. -/
def charFrom (least n : Nat) : Option Char :=
  if least ≤ n ∧ n.isValidChar then some (Char.ofNat n) else none

/-- `bytes.decode("utf-8")`, or `UnicodeDecodeError`. -/
def decodeUtf8 : List UInt8 → Option Text
  | [] => some []
  | a :: t =>
    if a < 0x80 then (decodeUtf8 t).map (Char.ofNat a.toNat :: ·)
    else match t with
      | [] => none
      | b :: t =>
        if a < 0xe0 then do
          let c ← charFrom 0x80 (0x40 * (a.toNat - 0xc0) + (← tail b))
          (decodeUtf8 t).map (c :: ·)
        else match t with
          | [] => none
          | c :: t =>
            if a < 0xf0 then do
              let c ← charFrom 0x800 (0x1000 * (a.toNat - 0xe0) + 0x40 * (← tail b) + (← tail c))
              (decodeUtf8 t).map (c :: ·)
            else match t with
              | [] => none
              | d :: t => do
                let c ← charFrom 0x10000 (0x40000 * (a.toNat - 0xf0) + 0x1000 * (← tail b) +
                  0x40 * (← tail c) + (← tail d))
                (decodeUtf8 t).map (c :: ·)

/-! ## Strings -/

def str (s : String) : List CodePoint := s.toList.map PyJson.ofChar

/-- `s.replace(word, "")`, with the number of code points of an occurrence still to drop. -/
def removeFrom (word : List CodePoint) : Nat → List CodePoint → List CodePoint
  | _, [] => []
  | k + 1, _ :: s => removeFrom word k s
  | 0, c :: s =>
    if word.isPrefixOf (c :: s) then removeFrom word (word.length - 1) s else c :: removeFrom word 0 s

def remove (word s : List CodePoint) : List CodePoint := removeFrom word 0 s

/-- `s.strip(chars)`. -/
def strip (chars s : List CodePoint) : List CodePoint :=
  ((s.dropWhile chars.contains).reverse.dropWhile chars.contains).reverse

/-! ## Integers -/

/-- The zeros of the runs of ten decimal digits beyond ASCII. -/
def zeros : List Nat :=
  [0x660, 0x6f0, 0x7c0, 0x966, 0x9e6, 0xa66, 0xae6, 0xb66, 0xbe6, 0xc66, 0xce6, 0xd66, 0xde6, 0xe50,
    0xed0, 0xf20, 0x1040, 0x1090, 0x17e0, 0x1810, 0x1946, 0x19d0, 0x1a80, 0x1a90, 0x1b50, 0x1bb0,
    0x1c40, 0x1c50, 0xa620, 0xa8d0, 0xa900, 0xa9d0, 0xa9f0, 0xaa50, 0xabf0, 0xff10, 0x104a0, 0x10d30,
    0x11066, 0x110f0, 0x11136, 0x111d0, 0x112f0, 0x11450, 0x114d0, 0x11650, 0x116c0, 0x11730, 0x118e0,
    0x11950, 0x11c50, 0x11d50, 0x11da0, 0x11f50, 0x16a60, 0x16ac0, 0x16b50, 0x1d7ce, 0x1d7d8, 0x1d7e2,
    0x1d7ec, 0x1d7f6, 0x1e140, 0x1e2f0, 0x1e4f0, 0x1e950, 0x1fbf0]

/-- The white space beyond ASCII. -/
def spaces : List Nat :=
  [0x85, 0xa0, 0x1680, 0x2000, 0x2001, 0x2002, 0x2003, 0x2004, 0x2005, 0x2006, 0x2007, 0x2008, 0x2009,
    0x200a, 0x2028, 0x2029, 0x202f, 0x205f, 0x3000]

/-- What stands for a code point in the text that is parsed. -/
def toAscii (c : CodePoint) : Char :=
  if c.val < 0x80 then Char.ofNat c.val
  else if spaces.contains c.val then ' '
  else match zeros.find? fun z => z ≤ c.val && c.val < z + 10 with
    | some z => Char.ofNat ('0'.toNat + (c.val - z))
    | none => '?'

/-- The white space of C. -/
def isSpace (c : Char) : Bool := c = ' ' || ('\t' ≤ c && c ≤ '\r')

def digitValue (base : Nat) (c : Char) : Option Nat := (hexValue c).filter (· < base)

/-- Digits, with single underscores between them. -/
def takeDigits (base : Nat) : Text → List Nat × Text
  | [] => ([], [])
  | '_' :: c :: t =>
    match digitValue base c with
    | some d => let (ds, rest) := takeDigits base t; (d :: ds, rest)
    | none => ([], '_' :: c :: t)
  | c :: t =>
    match digitValue base c with
    | some d => let (ds, rest) := takeDigits base t; (d :: ds, rest)
    | none => ([], c :: t)

def takeSign : Text → Bool × Text
  | '-' :: t => (true, t)
  | '+' :: t => (false, t)
  | t => (false, t)

/-- `0x` before hexadecimal digits, with an underscore allowed behind it. -/
def takePrefix (base : Nat) : Text → Text
  | '0' :: x :: t =>
    if base = 16 ∧ (x = 'x' ∨ x = 'X') then
      match t with
      | '_' :: t => t
      | t => t
    else '0' :: x :: t
  | t => t

/-- `int(text, base)` for base 10 or 16, or `ValueError`. Only decimal digits are limited. -/
def parseInt (base : Nat) (s : List CodePoint) : Option Int :=
  let (negative, t) := takeSign ((s.map toAscii).dropWhile isSpace)
  let t := takePrefix base t
  let (digits, rest) := takeDigits base t
  if t.head? ≠ some '_' ∧ digits ≠ [] ∧ (base = 10 → digits.length ≤ maxDigits) ∧ rest.all isSpace then
    let n : Int := digits.foldl (fun n d => base * n + d) 0
    some (if negative then -n else n)
  else none

/-! ## Sizes -/

theorem takeDigits_lt (base : Nat) (t : Text) : ∀ d ∈ (takeDigits base t).1, d < base := by
  have value : ∀ c d, digitValue base c = some d → d < base := fun c d h => by
    simpa using (Option.filter_eq_some_iff.1 h).2
  induction t using takeDigits.induct base with
  | case1 => simp [takeDigits]
  | case2 c t d digit ds rest taken ih =>
    rw [takeDigits, digit]
    intro e he
    obtain rfl | he := List.mem_cons.1 he
    · exact value c _ digit
    · exact ih e he
  | case3 c t digit =>
    rw [takeDigits, digit]
    simp
  | case4 c t other d digit ds rest taken ih =>
    rw [takeDigits, digit]
    · intro e he
      obtain rfl | he := List.mem_cons.1 he
      · exact value c _ digit
      · exact ih e he
    · exact other
  | case5 c t other digit =>
    rw [takeDigits, digit]
    · simp
    · exact other

theorem foldl_digits_cast (base : Nat) (ds : List Nat) (m : Nat) :
    (ds.map fun d : Nat => (d : Int)).foldl (fun (n d : Int) => base * n + d) m =
      (ds.foldl (fun n d => base * n + d) m : Nat) := by
  induction ds generalizing m with
  | nil => rfl
  | cons d ds ih =>
    rw [List.map_cons, List.foldl_cons, List.foldl_cons, ← ih]
    push_cast
    rfl

theorem foldl_digits_lt {base : Nat} (ds : List Nat) (digits : ∀ d ∈ ds, d < base) :
    ds.foldl (fun n d => base * n + d) 0 < base ^ ds.length := by
  induction ds using List.reverseRecOn with
  | nil => simp
  | append_singleton ds d ih =>
    have front := ih fun e he => digits e (List.mem_append_left _ he)
    have last := digits d (by simp)
    rw [List.foldl_append, List.foldl_cons, List.foldl_nil, List.length_append, List.length_singleton,
      Nat.pow_succ]
    calc base * ds.foldl (fun n d => base * n + d) 0 + d
        < base * (ds.foldl (fun n d => base * n + d) 0 + 1) := by
          rw [Nat.mul_add, Nat.mul_one]
          exact Nat.add_lt_add_left last _
      _ ≤ base * base ^ ds.length := Nat.mul_le_mul_left _ front
      _ = base ^ ds.length * base := Nat.mul_comm _ _

/-- A decimal text denotes no number of more digits than `int` takes. -/
theorem parseInt_natAbs_lt {s : List CodePoint} {n : Int} (h : parseInt 10 s = some n) :
    n.natAbs < 10 ^ maxDigits := by
  unfold parseInt at h
  dsimp only at h
  generalize takeSign ((s.map toAscii).dropWhile isSpace) = signed at h
  have digits := takeDigits_lt 10 (takePrefix 10 signed.2)
  generalize takeDigits 10 (takePrefix 10 signed.2) = taken at h digits
  obtain ⟨⟨-, -, short, -⟩, rfl⟩ := Option.ite_none_right_eq_some.1 h |>.imp_right Option.some.inj
  have size := foldl_digits_lt taken.1 digits
  have cast := foldl_digits_cast 10 taken.1 0
  rw [Nat.cast_zero] at cast
  simp only [bind_pure_comp, List.map_eq_map]
  have value : (taken.1.foldl (fun n d => 10 * n + d) 0) < 10 ^ maxDigits :=
    Nat.lt_of_lt_of_le size (Nat.pow_le_pow_right (by decide) (short rfl))
  rw [cast]
  generalize taken.1.foldl (fun n d => 10 * n + d) 0 = m at value ⊢
  split
  · rw [Int.natAbs_neg, Int.natAbs_natCast]
    exact value
  · rw [Int.natAbs_natCast]
    exact value

end PyText
