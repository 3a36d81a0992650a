import HookRelay.Lib.PyJson

/-!
# What `json.dumps` writes `json.loads` reads back

For the values `loads` itself returns: no key stands twice in a dictionary, and no string splits a code
point into its surrogates. Behind the text of a value the scanner may find the end, a comma or a closing
bracket.
-/

namespace PyJson

/-- No high surrogate stands before a low one. -/
def Joined (s : List CodePoint) : Prop := s.IsChain fun a b => isHigh a = true → isLow b = false

/-- A value `json.loads` may return. -/
inductive Plain : Value → Prop where
  | null : Plain .null
  | bool (b : Bool) : Plain (.bool b)
  | int (n : Int) : Plain (.int n)
  | float (x : Binary64) : Plain (.float x)
  | str {s : List CodePoint} (joined : Joined s) : Plain (.str s)
  | arr {elements : List Value} (plain : ∀ v ∈ elements, Plain v) : Plain (.arr elements)
  | obj {fields : List Field} (distinct : (fields.map (·.1)).Nodup)
      (joined : ∀ f ∈ fields, Joined f.1) (plain : ∀ f ∈ fields, Plain f.2) : Plain (.obj fields)

/-- What may stand behind a value. -/
def Delimited (t : Text) : Prop := ∀ c rest, t = c :: rest → c = ',' ∨ c = ']' ∨ c = '}'

/-! ## Strings -/

theorem hexValue_digitChar : ∀ d < 0x10, hexValue (Nat.digitChar d) = some d := by decide

/-- `\uXXXX` is read as the unit it was written for. -/
theorem scanUnits_escapeUnit {n : Nat} (hn : n < 0x10000) (t : Text) :
    scanUnits (escapeUnit n ++ t) = (scanUnits t).map fun r => (Fin.ofNat _ n :: r.1, r.2) := by
  have digit : ∀ d, hexValue (Nat.digitChar (d % 0x10)) = some (d % 0x10) := fun d =>
    hexValue_digitChar _ (Nat.mod_lt d (by decide))
  have number : 0x1000 * (n / 0x1000 % 0x10) + 0x100 * (n / 0x100 % 0x10) + 0x10 * (n / 0x10 % 0x10) +
      n % 0x10 = n := by omega
  simp only [escapeUnit, List.cons_append, List.nil_append, scanUnits, hexUnit, digit,
    Option.bind_eq_bind, Option.bind_some, number]
  cases scanUnits t <;> rfl

/-- An escape of one character. -/
theorem scanUnits_unescape {e c : Char} (known : unescape e = some c) (other : e ≠ 'u') (t : Text) :
    scanUnits ('\\' :: e :: t) = (scanUnits t).map fun r => (ofChar c :: r.1, r.2) := by
  rw [scanUnits]
  · simp only [known, Option.bind_eq_bind, Option.bind_some]
    cases scanUnits t <;> rfl
  · exact fun _ _ _ _ _ same _ => other same

/-- A character that stands for itself. -/
theorem scanUnits_raw {c : Char} (printable : 0x20 ≤ c.toNat) (quote : c ≠ '"') (escape : c ≠ '\\')
    (t : Text) : scanUnits (c :: t) = (scanUnits t).map fun r => (ofChar c :: r.1, r.2) := by
  have ok : ¬ (c.toNat < 0x20 ∨ c = '\\') := by
    rintro (low | same)
    · omega
    · exact escape same
  rw [scanUnits]
  · simp only [ok, if_false]
    cases scanUnits t <;> rfl
  · exact quote
  · exact fun _ _ _ _ _ same _ => escape same
  · exact fun _ _ same _ => escape same

theorem ofNat_eq {n : Nat} (h : n < 0x110000) : Fin.ofNat 0x110000 n = ⟨n, h⟩ :=
  Fin.ext (Nat.mod_eq_of_lt h)

theorem toNat_ofNat {n : Nat} (ascii : n < 0x80) : (Char.ofNat n).toNat = n := by
  have valid : n.isValidChar := .inl (by omega)
  rw [Char.ofNat, dif_pos valid]
  rfl

theorem scanUnits_escape (c : CodePoint) (t : Text) :
    scanUnits (escape c ++ t) = (scanUnits t).map fun r => (units c ++ r.1, r.2) := by
  have unit : ∀ {x : Char}, c.val = x.toNat → x.toNat < 0x10000 → units c = [ofChar x] := by
    intro x value low
    rw [units, if_pos (value ▸ low)]
    exact congrArg (fun x => [x]) (Fin.ext value)
  have short : ∀ {e x : Char}, c.val = x.toNat → x.toNat < 0x10000 → unescape e = some x → e ≠ 'u' →
      scanUnits ('\\' :: e :: t) = (scanUnits t).map fun r => (units c ++ r.1, r.2) := by
    intro e x value low known other
    rw [scanUnits_unescape known other, unit value low]
    rfl
  unfold escape
  split_ifs with h₁ h₂ h₃ h₄ h₅ h₆ h₇ printable
  · exact short (x := '"') h₁ (by decide) rfl (by decide)
  · exact short (x := '\\') h₂ (by decide) rfl (by decide)
  · exact short (x := '\n') h₃ (by decide) rfl (by decide)
  · exact short (x := '\r') h₄ (by decide) rfl (by decide)
  · exact short (x := '\t') h₅ (by decide) rfl (by decide)
  · exact short (x := '\x0c') h₆ (by decide) rfl (by decide)
  · exact short (x := '\x08') h₇ (by decide) rfl (by decide)
  · have value : (Char.ofNat c.val).toNat = c.val := toNat_ofNat (by omega)
    have other : ∀ {x : Char}, c.val ≠ x.toNat → Char.ofNat c.val ≠ x := by
      rintro x ne rfl
      exact ne value.symm
    rw [List.cons_append, List.nil_append, scanUnits_raw (by omega) (other h₁) (other h₂),
      unit value.symm (by omega)]
    rfl
  · -- one escape, or one for each half of a surrogate pair
    have bound := c.isLt
    unfold units
    split
    · rename_i low
      rw [List.flatMap_singleton, scanUnits_escapeUnit low, ofNat_eq bound]
      rfl
    · have high : 0xd800 + (c.val - 0x10000) / 0x400 < 0x10000 := by omega
      have low : 0xdc00 + (c.val - 0x10000) % 0x400 < 0x10000 := by omega
      rw [List.flatMap_cons, List.flatMap_singleton, List.append_assoc, scanUnits_escapeUnit high,
        scanUnits_escapeUnit low, Option.map_map, ofNat_eq (Nat.lt_trans high (by decide)),
        ofNat_eq (Nat.lt_trans low (by decide))]
      rfl

theorem scanUnits_quoted (s : List CodePoint) (t : Text) :
    scanUnits (s.flatMap escape ++ '"' :: t) = some (s.flatMap units, t) := by
  induction s with
  | nil => rfl
  | cons c s ih =>
    rw [List.flatMap_cons, List.append_assoc, scanUnits_escape, ih]
    rfl

/-- Only a high surrogate before a low one is joined. -/
theorem joinSurrogates_cons {c : CodePoint} {s : List CodePoint}
    (apart : ∀ d ∈ s.head?, isHigh c = true → isLow d = false) :
    joinSurrogates (c :: s) = c :: joinSurrogates s := by
  cases s with
  | nil => rfl
  | cons d s =>
    have split : ¬ (isHigh c = true ∧ isLow d = true) := fun pair => by
      simp [apart d rfl pair.1] at pair
    rw [joinSurrogates, dif_neg split]

/-- The units of a code point start with a low surrogate only if it is one. -/
theorem units_head (c : CodePoint) : ∃ d t, units c = d :: t ∧ (isLow d = true → d = c) := by
  unfold units
  split
  · exact ⟨c, [], rfl, fun _ => rfl⟩
  · refine ⟨_, _, rfl, fun low => ?_⟩
    have bound := c.isLt
    simp only [isLow, Bool.and_eq_true, decide_eq_true_eq] at low
    omega

/-- A surrogate pair is the code point it was written for. -/
theorem joinSurrogates_pair {c : CodePoint} (astral : ¬ c.val < 0x10000) (s : List CodePoint) :
    joinSurrogates (units c ++ s) = c :: joinSurrogates s := by
  have bound := c.isLt
  rw [units, if_neg astral, List.cons_append, List.cons_append, List.nil_append, joinSurrogates]
  split
  · refine congrArg (fun d => d :: joinSurrogates s) (Fin.ext ?_)
    simp only [join]
    omega
  · rename_i apart
    refine absurd ⟨?_, ?_⟩ apart
    · simp only [isHigh, Bool.and_eq_true, decide_eq_true_eq]
      omega
    · simp only [isLow, Bool.and_eq_true, decide_eq_true_eq]
      omega

theorem joinSurrogates_units {s : List CodePoint} (joined : Joined s) :
    joinSurrogates (s.flatMap units) = s := by
  induction s with
  | nil => rfl
  | cons c s ih =>
    rw [List.flatMap_cons]
    by_cases basic : c.val < 0x10000
    · have apart : ∀ d ∈ (s.flatMap units).head?, isHigh c = true → isLow d = false := by
        cases s with
        | nil => simp
        | cons e s =>
          obtain ⟨d, t, starts, same⟩ := units_head e
          intro x first high
          simp only [List.flatMap_cons, starts, List.cons_append, List.head?_cons,
            Option.mem_some_iff] at first
          subst first
          -- a low surrogate here is the next code point itself
          by_contra low
          have low : isLow d = true := by simpa using low
          have next := (List.isChain_cons_cons.1 joined).1 high
          rw [← same low, low] at next
          cases next
      rw [units, if_pos basic, List.cons_append, List.nil_append, joinSurrogates_cons apart,
        ih joined.tail]
    · rw [joinSurrogates_pair basic, ih joined.tail]

theorem scanString_quote {s : List CodePoint} (joined : Joined s) (t : Text) :
    scanString (s.flatMap escape ++ '"' :: t) = .ok (s, t) := by
  rw [scanString, scanUnits_quoted]
  simp only [joinSurrogates_units joined]

/-! ## Numbers -/

theorem scanDigits_append {ds t : Text} (digits : ∀ c ∈ ds, c.isDigit = true)
    (stop : ∀ c rest, t = c :: rest → c.isDigit = false) : scanDigits (ds ++ t) = (ds, t) := by
  have none : t.takeWhile (·.isDigit) = [] ∧ t.dropWhile (·.isDigit) = t := by
    cases t with
    | nil => exact ⟨rfl, rfl⟩
    | cons c rest =>
      have last := stop c rest rfl
      simp [last]
  rw [scanDigits, List.takeWhile_append_of_pos digits, List.dropWhile_append_of_pos digits, none.1,
    none.2, List.append_nil]

theorem Delimited.nil : Delimited [] := fun _ _ none => by cases none

theorem Delimited.cons {c : Char} (h : c = ',' ∨ c = ']' ∨ c = '}') (t : Text) : Delimited (c :: t) :=
  fun _ _ same => by cases same; exact h

/-- A delimiter continues no number. -/
theorem Delimited.stops {t : Text} (h : Delimited t) :
    ∀ c rest, t = c :: rest → c.isDigit = false ∧ c ≠ '.' ∧ c ≠ 'e' ∧ c ≠ 'E' := by
  intro c rest same
  obtain rfl | rfl | rfl := h c rest same <;> decide

theorem scanInteger_append {ds t : Text} (integer : ds = ['0'] ∨ ∃ c cs, ds = c :: cs ∧ c ≠ '0')
    (digits : ∀ c ∈ ds, c.isDigit = true) (stop : ∀ c rest, t = c :: rest → c.isDigit = false) :
    scanInteger (ds ++ t) = some (ds, t) := by
  obtain rfl | ⟨c, cs, rfl, nonzero⟩ := integer
  · rfl
  · have digit := digits c List.mem_cons_self
    rw [List.cons_append, scanInteger, if_neg nonzero, if_pos digit, ← List.cons_append,
      scanDigits_append digits stop]

theorem scanFraction_none {t : Text} (stop : ∀ c rest, t = c :: rest → c ≠ '.') :
    scanFraction t = ([], t) := by
  unfold scanFraction
  split
  · exact absurd rfl (stop _ _ rfl)
  · rfl

theorem scanFraction_append {ds t : Text} (some_ : ds ≠ []) (digits : ∀ c ∈ ds, c.isDigit = true)
    (stop : ∀ c rest, t = c :: rest → c.isDigit = false) : scanFraction ('.' :: (ds ++ t)) = (ds, t) := by
  rw [scanFraction, scanDigits_append digits stop, if_neg some_]

theorem scanExponent_none {t : Text} (stop : ∀ c rest, t = c :: rest → c ≠ 'e' ∧ c ≠ 'E') :
    scanExponent t = (none, t) := by
  cases t with
  | nil => rfl
  | cons c rest =>
    have other : ¬ (c = 'e' ∨ c = 'E') := fun h => h.elim (stop c rest rfl).1 (stop c rest rfl).2
    rw [scanExponent, if_neg other]

theorem scanExponent_append {ds t : Text} (negative : Bool) (some_ : ds ≠ [])
    (digits : ∀ c ∈ ds, c.isDigit = true) (stop : ∀ c rest, t = c :: rest → c.isDigit = false) :
    scanExponent ('e' :: (if negative then '-' else '+') :: (ds ++ t)) = (some (negative, ds), t) := by
  have sign : ∀ rest, scanSign ((if negative then '-' else '+') :: rest) = (negative, rest) := by
    cases negative <;> exact fun _ => rfl
  rw [scanExponent, if_pos (.inl rfl), sign]
  simp only [scanDigits_append digits stop, some_, if_false]

/-- The digits of an integer. -/
theorem scanMagnitude_digits (negative : Bool) (m : Nat) (short : (Nat.toDigits 10 m).length ≤ maxDigits)
    {t : Text} (end_ : Delimited t) :
    scanMagnitude negative (Nat.toDigits 10 m ++ t) =
      .ok (.int (if negative then -(m : Int) else m), t) := by
  have integer : Nat.toDigits 10 m = ['0'] ∨ ∃ c cs, Nat.toDigits 10 m = c :: cs ∧ c ≠ '0' := by
    rcases Nat.eq_zero_or_pos m with rfl | positive
    · exact .inl rfl
    · exact .inr (Binary64.toDigits_head positive)
  rw [scanMagnitude, scanInteger_append integer (fun _ => Binary64.isDigit_of_mem_toDigits)
    fun c rest same => (end_.stops c rest same).1]
  simp only [scanFraction_none fun c rest same => (end_.stops c rest same).2.1,
    scanExponent_none fun c rest same => (end_.stops c rest same).2.2, and_self, if_true, short,
    Nat.ofDigitChars_ten_toDigits]

section Numeral

variable {n : Binary64.Numeral} {t : Text}

theorem scanExponent_text (proper : n.Proper) (end_ : Delimited t) :
    scanExponent (n.exponentText ++ t) = (n.exponent, t) := by
  unfold Binary64.Numeral.exponentText
  cases exponent : n.exponent with
  | none => exact scanExponent_none fun c rest same => (end_.stops c rest same).2.2
  | some e =>
    obtain ⟨some_, digits⟩ := proper.exponent_digits e.1 e.2 exponent
    exact scanExponent_append e.1 some_ digits fun c rest same => (end_.stops c rest same).1

/-- Neither a digit nor a point stands where an exponent may. -/
theorem exponentText_stops (end_ : Delimited t) :
    ∀ c rest, n.exponentText ++ t = c :: rest → c.isDigit = false ∧ c ≠ '.' := by
  unfold Binary64.Numeral.exponentText
  cases n.exponent with
  | none => exact fun c rest same => ⟨(end_.stops c rest same).1, (end_.stops c rest same).2.1⟩
  | some e =>
    intro c rest same
    cases same
    decide

theorem scanFraction_text (proper : n.Proper) (end_ : Delimited t) :
    scanFraction (n.fractionText ++ (n.exponentText ++ t)) = (n.fraction, n.exponentText ++ t) := by
  have stop := exponentText_stops (n := n) end_
  unfold Binary64.Numeral.fractionText
  split
  · rename_i none
    rw [List.nil_append, scanFraction_none fun c rest same => (stop c rest same).2, none]
  · rename_i some_
    exact scanFraction_append some_ proper.fraction_digits fun c rest same => (stop c rest same).1

theorem fractionText_stops (end_ : Delimited t) :
    ∀ c rest, n.fractionText ++ (n.exponentText ++ t) = c :: rest → c.isDigit = false := by
  unfold Binary64.Numeral.fractionText
  split
  · exact fun c rest same => (exponentText_stops end_ c rest same).1
  · intro c rest same
    cases same
    rfl

/-- A numeral with a fraction or an exponent. -/
theorem scanMagnitude_numeral (negative : Bool) (proper : n.Proper) (end_ : Delimited t) :
    scanMagnitude negative (n.text ++ t) = .ok (.float (n.toBinary64 negative), t) := by
  have marked : ¬ (n.fraction = [] ∧ n.exponent = none) := fun neither =>
    proper.marked.elim (· neither.1) (· neither.2)
  rw [Binary64.Numeral.text, List.append_assoc, List.append_assoc, scanMagnitude,
    scanInteger_append proper.integer proper.integer_digits (fractionText_stops end_)]
  simp only [scanFraction_text proper end_, scanExponent_text proper end_, marked, if_false]

end Numeral

/-! ## Values -/

section Scan

variable {array object : Text → Result (Value × Text)}

theorem ne_of_isDigit {c d : Char} (digit : c.isDigit = true) (other : d.isDigit = false) : d ≠ c := by
  rintro rfl
  rw [digit] at other
  cases other

/-- No literal begins like a number. -/
theorem scanLiteral_digit {c : Char} (digit : c.isDigit = true) (t : Text) :
    scanLiteral (c :: t) = none ∧ scanLiteral ('-' :: c :: t) = none := by
  have other : ∀ d : Char, d.isDigit = false → d ≠ c := fun _ => ne_of_isDigit digit
  constructor
  · simp [scanLiteral, literals, other 'n' rfl, other 't' rfl, other 'f' rfl, other 'N' rfl,
      other 'I' rfl, other '-' rfl]
  · simp [scanLiteral, literals, other 'I' rfl]

theorem scanWith_digit {c : Char} (digit : c.isDigit = true) (t : Text) :
    scanWith array object (c :: t) = scanMagnitude false (c :: t) := by
  have other : ∀ d : Char, d.isDigit = false → c ≠ d := fun _ no => (ne_of_isDigit digit no).symm
  rw [scanWith]
  · rw [(scanLiteral_digit digit t).1, scanNumber]
    exact fun _ same => other '-' rfl (List.head_eq_of_cons_eq same)
  all_goals exact fun _ same => other _ rfl (List.head_eq_of_cons_eq same)

theorem scanWith_minus {c : Char} (digit : c.isDigit = true) (t : Text) :
    scanWith array object ('-' :: c :: t) = scanMagnitude true (c :: t) := by
  rw [scanWith]
  · rw [(scanLiteral_digit digit t).2, scanNumber]
  all_goals exact fun _ same => absurd (List.head_eq_of_cons_eq same) (by decide)

/-- The values that hold no other value. -/
def Value.Flat : Value → Prop
  | .arr _ | .obj _ => False
  | _ => True

theorem isDigit_toDigits (m : Nat) :
    ∃ c ds, Nat.toDigits 10 m = c :: ds ∧ c.isDigit = true := by
  cases digits : Nat.toDigits 10 m with
  | nil => exact absurd digits Nat.toDigits_ne_nil
  | cons c ds =>
    exact ⟨c, ds, rfl, Binary64.isDigit_of_mem_toDigits (digits ▸ List.mem_cons_self)⟩

theorem isDigit_numeral {n : Binary64.Numeral} (proper : n.Proper) :
    ∃ c ds, n.text = c :: ds ∧ c.isDigit = true := by
  have digits := proper.integer_digits
  rw [Binary64.Numeral.text]
  obtain zero | ⟨c, ds, number, -⟩ := proper.integer
  · rw [zero]
    exact ⟨'0', _, rfl, rfl⟩
  · rw [number] at digits ⊢
    exact ⟨c, _, rfl, digits c List.mem_cons_self⟩

/-- A number with its sign in front is scanned as its magnitude. -/
theorem scanWith_signed (negative : Bool) {m t : Text} (digit : ∃ c ds, m = c :: ds ∧ c.isDigit = true) :
    scanWith array object ((if negative then ['-'] else []) ++ m ++ t) = scanMagnitude negative (m ++ t) := by
  obtain ⟨c, ds, rfl, digit⟩ := digit
  cases negative
  · exact scanWith_digit digit _
  · exact scanWith_minus digit _

theorem intText_eq (n : Int) :
    intText n = (if decide (n < 0) then ['-'] else []) ++ Nat.toDigits 10 n.natAbs := by
  unfold intText
  by_cases negative : n < 0
  · rw [if_pos negative, if_pos (decide_eq_true negative)]
    rfl
  · rw [if_neg negative, if_neg (by simpa using negative)]
    rfl

theorem scanWith_flat {limit : Nat} {v : Value} (flat : v.Flat) (plain : Plain v) {t : Text}
    (writes : dumps limit v = some t) {rest : Text} (end_ : Delimited rest) :
    scanWith array object (t ++ rest) = .ok (v, rest) := by
  cases plain with
  | null =>
    obtain rfl : ['n', 'u', 'l', 'l'] = t := by simpa [dumps] using writes
    rfl
  | bool b =>
    obtain rfl : (if b then ['t', 'r', 'u', 'e'] else ['f', 'a', 'l', 's', 'e']) = t := by
      simpa [dumps] using writes
    cases b <;> rfl
  | int n =>
    by_cases short : (Nat.toDigits 10 n.natAbs).length ≤ maxDigits
    · obtain rfl : intText n = t := by simpa [dumps, short] using writes
      have value : (if decide (n < 0) then -(n.natAbs : Int) else n.natAbs) = n := by
        by_cases negative : n < 0
        · rw [if_pos (decide_eq_true negative)]
          omega
        · rw [if_neg (by simpa using negative)]
          omega
      rw [intText_eq, scanWith_signed _ (isDigit_toDigits _), scanMagnitude_digits _ _ short end_, value]
    · simp [dumps, short] at writes
  | float x =>
    obtain rfl : floatText x = t := by simpa [dumps] using writes
    cases x with
    | finite negative rank =>
      rw [floatText, scanWith_signed _ (isDigit_numeral (Binary64.numeral_proper _)),
        scanMagnitude_numeral _ (Binary64.numeral_proper _) end_, Binary64.toBinary64_numeral]
    | infinity negative => cases negative <;> rfl
    | nan => rfl
  | @str s joined =>
    obtain rfl : quote s = t := by simpa [dumps] using writes
    rw [quote, List.cons_append, List.append_assoc, scanWith]
    simp only [List.cons_append, List.nil_append, scanString_quote joined]
    rfl
  | arr => exact flat.elim
  | obj => exact flat.elim

end Scan

/-! ## Lists and dictionaries -/

/-- Neither white space, a closing bracket nor a byte order mark is in front. -/
def Solid (t : Text) : Prop :=
  ∃ c rest, t = c :: rest ∧
    c ≠ ' ' ∧ c ≠ '\t' ∧ c ≠ '\n' ∧ c ≠ '\r' ∧ c ≠ ']' ∧ c ≠ '}' ∧ c ≠ '\uFEFF'

/-- `scan` takes `item` off the front of a document that begins with `t`. -/
def Scans {α : Type} (scan : Text → Result (α × Text)) (item : α) (t : Text) : Prop :=
  Solid t ∧ ∀ rest, Delimited rest → scan (t ++ rest) = .ok (item, rest)

theorem Solid.append {t : Text} (h : Solid t) (rest : Text) : Solid (t ++ rest) := by
  obtain ⟨c, s, rfl, solid⟩ := h
  exact ⟨c, s ++ rest, rfl, solid⟩

theorem Solid.skip {t : Text} (h : Solid t) : skip t = t := by
  obtain ⟨c, s, rfl, h₁, h₂, h₃, h₄, -⟩ := h
  simp [PyJson.skip, h₁, h₂, h₃, h₄]

theorem skip_space (t : Text) : skip (' ' :: t) = skip t := rfl

theorem Solid.joinItems {t : Text} (h : Solid t) (ts : List Text) : Solid (joinItems (t :: ts)) := by
  cases ts with
  | nil => exact h
  | cons => exact h.append _

section Items

variable {α : Type} {scan : Text → Result (α × Text)}

theorem length_joinItems {items : List α} {ts : List Text} (each : List.Forall₂ (Scans scan) items ts) :
    ts.length ≤ (joinItems ts).length := by
  induction each with
  | nil => exact Nat.zero_le 0
  | @cons item t items ts scans rest ih =>
    have pos : 0 < t.length := by
      obtain ⟨c, s, rfl, -⟩ := scans.1
      exact Nat.zero_lt_succ _
    cases rest with
    | nil => exact pos
    | cons =>
      simp only [joinItems, List.length_append, List.length_cons] at ih ⊢
      omega

/-- Every item is taken, and the closing bracket ends the loop. -/
theorem scanItems_joinItems {close : Char} (closing : close = ']' ∨ close = '}') {items : List α}
    {ts : List Text} (each : List.Forall₂ (Scans scan) items ts) (some_ : ts ≠ []) {fuel : Nat}
    (enough : ts.length ≤ fuel) (rest : Text) :
    scanItems close scan fuel (joinItems ts ++ close :: rest) = .ok (items, rest) := by
  have skip_close : skip (close :: rest) = close :: rest := by rcases closing with rfl | rfl <;> rfl
  have comma : ',' ≠ close := by rcases closing with rfl | rfl <;> decide
  induction each generalizing fuel with
  | nil => exact absurd rfl some_
  | @cons item t items ts scans others ih =>
    obtain ⟨fuel, rfl⟩ : ∃ f, fuel = f + 1 := ⟨fuel - 1, by simp at enough; omega⟩
    cases others with
    | nil =>
      rw [joinItems, scanItems, scans.2 _ (.cons (.inr closing) rest)]
      simp only [bind, Except.bind, skip_close, if_true]
    | @cons item' t' items ts scans' others =>
      have solid : Solid (joinItems (t' :: ts) ++ close :: rest) := (scans'.1.joinItems ts).append _
      have tail := ih (List.cons_ne_nil _ _) (Nat.le_of_succ_le_succ enough)
      have skip_comma : ∀ s, skip (',' :: s) = ',' :: s := fun _ => rfl
      rw [joinItems, List.append_assoc, List.cons_append, List.cons_append, scanItems,
        scans.2 _ (.cons (.inl rfl) _)]
      simp only [bind, Except.bind, skip_comma, comma, if_false, if_true, skip_space, solid.skip, tail]

end Items

/-- What a list of texts is made of, item by item. -/
theorem forall₂_of_mapM {α β : Type} {f : α → Option β} {xs : List α} {ys : List β}
    (h : xs.mapM f = some ys) : List.Forall₂ (fun x y => x ∈ xs ∧ f x = some y) xs ys := by
  induction xs generalizing ys with
  | nil =>
    cases h
    exact .nil
  | cons x xs ih =>
    rw [List.mapM_cons] at h
    obtain ⟨y, head, h⟩ := Option.bind_eq_some_iff.1 h
    obtain ⟨zs, tail, h⟩ := Option.bind_eq_some_iff.1 h
    cases h
    exact .cons ⟨List.mem_cons_self, head⟩ ((ih tail).imp fun _ _ h => ⟨List.mem_cons_of_mem _ h.1, h.2⟩)

theorem foldl_setField (done fields : List Field) (distinct : ((done ++ fields).map (·.1)).Nodup) :
    fields.foldl setField done = done ++ fields := by
  induction fields generalizing done with
  | nil => exact (List.append_nil done).symm
  | cons field fields ih =>
    have new : done.any (·.1 = field.1) = false := by
      rw [List.map_append, List.map_cons, List.nodup_append] at distinct
      simp only [List.any_eq_false, decide_eq_true_eq]
      exact fun f hf => distinct.2.2 f.1 (List.mem_map_of_mem hf) field.1 List.mem_cons_self
    have one : setField done field = done ++ [field] := by rw [setField, new]; rfl
    rw [List.foldl_cons, one, ih (done ++ [field]) (by rwa [List.append_assoc]), List.append_assoc]
    rfl

theorem dictionary_distinct {fields : List Field} (distinct : (fields.map (·.1)).Nodup) :
    dictionary fields = .obj fields :=
  congrArg Value.obj (foldl_setField [] fields distinct)

theorem scans_field {scan : Text → Result (Value × Text)} {field : Field} {t : Text}
    (joined : Joined field.1) (value : Scans scan field.2 t) :
    Scans (scanField scan) field (quote field.1 ++ ':' :: ' ' :: t) := by
  refine ⟨⟨'"', _, rfl, by decide⟩, fun rest end_ => ?_⟩
  have colon : ∀ s, skip (':' :: s) = ':' :: s := fun _ => rfl
  simp only [quote, List.cons_append, List.append_assoc, List.nil_append, scanField,
    scanString_quote joined, bind, Except.bind, colon, skip_space, (value.1.append rest).skip,
    value.2 rest end_]

/-! ## The round trip -/

theorem solid_digit {c : Char} (digit : c.isDigit = true) (t : Text) : Solid (c :: t) := by
  have other : ∀ d : Char, d.isDigit = false → c ≠ d := fun _ no => (ne_of_isDigit digit no).symm
  exact ⟨c, t, rfl, other _ rfl, other _ rfl, other _ rfl, other _ rfl, other _ rfl, other _ rfl,
    other _ rfl⟩

theorem solid_signed (negative : Bool) {m : Text} (digit : ∃ c ds, m = c :: ds ∧ c.isDigit = true) :
    Solid ((if negative then ['-'] else []) ++ m) := by
  obtain ⟨c, ds, rfl, digit⟩ := digit
  cases negative
  · exact solid_digit digit ds
  · exact ⟨'-', _, rfl, by decide⟩

theorem solid_dumps {limit : Nat} {v : Value} {t : Text} (writes : dumps limit v = some t) : Solid t := by
  cases v with
  | null =>
    obtain rfl : ['n', 'u', 'l', 'l'] = t := by simpa [dumps] using writes
    exact ⟨_, _, rfl, by decide⟩
  | bool b =>
    obtain rfl : (if b then ['t', 'r', 'u', 'e'] else ['f', 'a', 'l', 's', 'e']) = t := by
      simpa [dumps] using writes
    cases b <;> exact ⟨_, _, rfl, by decide⟩
  | int n =>
    obtain ⟨-, rfl⟩ : _ ∧ intText n = t := by simpa [dumps] using writes
    exact intText_eq n ▸ solid_signed _ (isDigit_toDigits _)
  | float x =>
    obtain rfl : floatText x = t := by simpa [dumps] using writes
    cases x with
    | finite negative rank => exact solid_signed _ (isDigit_numeral (Binary64.numeral_proper _))
    | infinity negative => cases negative <;> exact ⟨_, _, rfl, by decide⟩
    | nan => exact ⟨_, _, rfl, by decide⟩
  | str s =>
    obtain rfl : quote s = t := by simpa [dumps] using writes
    exact ⟨_, _, rfl, by decide⟩
  | arr elements =>
    cases limit with
    | zero => cases writes
    | succ limit =>
      obtain ⟨ts, -, h⟩ := Option.bind_eq_some_iff.1 writes
      cases h
      exact ⟨_, _, rfl, by decide⟩
  | obj fields =>
    cases limit with
    | zero => cases writes
    | succ limit =>
      obtain ⟨ts, -, h⟩ := Option.bind_eq_some_iff.1 writes
      cases h
      exact ⟨_, _, rfl, by decide⟩

/-- The brackets and what is between them. -/
theorem scanArray_joinItems {scan : Text → Result (Value × Text)} {elements : List Value}
    {ts : List Text} (each : List.Forall₂ (Scans scan) elements ts) (rest : Text) :
    scanArray scan (joinItems ts ++ ']' :: rest) = .ok (.arr elements, rest) := by
  cases each with
  | nil => rfl
  | @cons v t vs ts first others =>
    have each := List.Forall₂.cons first others
    have solid : Solid (joinItems (t :: ts) ++ ']' :: rest) := (first.1.joinItems ts).append _
    have enough : (t :: ts).length ≤ (joinItems (t :: ts) ++ ']' :: rest).length := by
      rw [List.length_append]
      exact Nat.le_add_right_of_le (length_joinItems each)
    have items := scanItems_joinItems (.inl rfl) each (List.cons_ne_nil _ _) enough rest
    rw [scanArray, solid.skip]
    obtain ⟨c, s, starts, -, -, -, -, open_, -⟩ := solid
    rw [starts] at items ⊢
    split
    · rename_i same
      exact absurd (List.head_eq_of_cons_eq same) open_
    · rw [items]
      rfl

theorem scanObject_joinItems {scan : Text → Result (Value × Text)} {fields : List Field}
    {ts : List Text} (distinct : (fields.map (·.1)).Nodup)
    (each : List.Forall₂ (Scans (scanField scan)) fields ts) (rest : Text) :
    scanObject scan (joinItems ts ++ '}' :: rest) = .ok (.obj fields, rest) := by
  cases each with
  | nil => rfl
  | @cons field t fields ts first others =>
    have each := List.Forall₂.cons first others
    have solid : Solid (joinItems (t :: ts) ++ '}' :: rest) := (first.1.joinItems ts).append _
    have enough : (t :: ts).length ≤ (joinItems (t :: ts) ++ '}' :: rest).length := by
      rw [List.length_append]
      exact Nat.le_add_right_of_le (length_joinItems each)
    have items := scanItems_joinItems (.inr rfl) each (List.cons_ne_nil _ _) enough rest
    rw [scanObject, solid.skip]
    obtain ⟨c, s, starts, -, -, -, -, -, open_, -⟩ := solid
    rw [starts] at items ⊢
    split
    · rename_i same
      exact absurd (List.head_eq_of_cons_eq same) open_
    · rw [items]
      exact congrArg (fun v => Except.ok (v, rest)) (dictionary_distinct distinct)

theorem Value.flat_or (v : Value) :
    v.Flat ∨ (∃ elements, v = .arr elements) ∨ ∃ fields, v = .obj fields := by
  cases v with
  | arr elements => exact .inr (.inl ⟨elements, rfl⟩)
  | obj fields => exact .inr (.inr ⟨fields, rfl⟩)
  | null | bool | int | float | str => exact .inl trivial

theorem mapM_congr_left {α β : Type} {f g : α → Option β} {xs : List α} (each : ∀ x ∈ xs, f x = g x) :
    xs.mapM f = xs.mapM g := by
  induction xs with
  | nil => rfl
  | cons x xs ih =>
    rw [List.mapM_cons, List.mapM_cons, each x List.mem_cons_self,
      ih fun y hy => each y (List.mem_cons_of_mem _ hy)]

/-- The text of a dictionary of flat values is the same at every recursion limit. -/
theorem dumps_flat {fields : List Field} (flat : ∀ f ∈ fields, f.2.Flat) (a b : Nat) :
    dumps (a + 1) (.obj fields) = dumps (b + 1) (.obj fields) := by
  have each : ∀ f ∈ fields, dumps a f.2 = dumps b f.2 := by
    intro f hf
    have flat := flat f hf
    cases value : f.2 with
    | arr | obj =>
      rw [value] at flat
      cases flat
    | null | bool | int | float | str => simp only [dumps]
  simp only [dumps]
  rw [mapM_congr_left fun f hf => by rw [each f hf]]

/-- What `dumps` writes is scanned as the value it was written for. -/
theorem scans_dumps {limit : Nat} {v : Value} (plain : Plain v) {t : Text}
    (writes : dumps limit v = some t) : Scans (scanOnce limit) v t := by
  refine ⟨solid_dumps writes, fun rest end_ => ?_⟩
  induction limit generalizing v t rest with
  | zero =>
    obtain flat | ⟨elements, rfl⟩ | ⟨fields, rfl⟩ := v.flat_or
    · exact scanWith_flat flat plain writes end_
    · cases writes
    · cases writes
  | succ limit ih =>
    have inner : ∀ {v t}, Plain v → dumps limit v = some t → Scans (scanOnce limit) v t :=
      fun plain writes => ⟨solid_dumps writes, ih plain writes⟩
    obtain flat | ⟨elements, rfl⟩ | ⟨fields, rfl⟩ := v.flat_or
    · exact scanWith_flat flat plain writes end_
    · cases plain with | arr plain => ?_
      obtain ⟨ts, items, h⟩ := Option.bind_eq_some_iff.1 writes
      cases h
      have each := (forall₂_of_mapM items).imp fun v t h => inner (plain v h.1) h.2
      rw [List.cons_append, List.append_assoc]
      exact scanArray_joinItems each rest
    · cases plain with | obj distinct joined plain => ?_
      obtain ⟨ts, items, h⟩ := Option.bind_eq_some_iff.1 writes
      cases h
      have each : List.Forall₂ (Scans (scanField (scanOnce limit))) fields ts :=
        (forall₂_of_mapM items).imp fun field t h => by
          obtain ⟨value, dumped, h'⟩ := Option.bind_eq_some_iff.1 h.2
          cases h'
          exact scans_field (joined field h.1) (inner (plain field h.1) dumped)
      rw [List.cons_append, List.append_assoc]
      exact scanObject_joinItems distinct each rest

/-- `json.loads(json.dumps(value)) == value`. -/
theorem loads_dumps {limit : Nat} {v : Value} (plain : Plain v) {t : Text}
    (writes : dumps limit v = some t) : loads limit t = .ok v := by
  have ⟨solid, scans⟩ := scans_dumps plain writes
  have whole := scans [] .nil
  have unmarked : t.head? ≠ some '\uFEFF' := by
    obtain ⟨c, s, rfl, -, -, -, -, -, -, mark⟩ := solid
    exact fun same => mark (Option.some.inj same)
  rw [List.append_nil] at whole
  rw [loads, if_neg unmarked, solid.skip, whole]
  rfl

end PyJson
