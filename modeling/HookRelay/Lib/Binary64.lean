import Mathlib.Data.List.DropRight
import Mathlib.Data.Nat.Log
import Mathlib.Tactic.Ring
import Mathlib.Tactic.NormNum

/-!
# IEEE 754 binary64 numbers and their decimal texts

A finite number is its sign and the rank of its magnitude: ranks count the magnitudes from zero upwards,
so the rank is also the bit pattern without the sign. A decimal is rounded to the nearest magnitude, ties
to the even rank, and a number is written with the fewest digits that are rounded back to it.
-/

/-- The rank behind the last finite magnitude. -/
def Binary64.top : Nat := 0x7FF * 2 ^ 52

inductive Binary64 where
  | finite (negative : Bool) (rank : Fin Binary64.top)
  | infinity (negative : Bool)
  | nan
  deriving DecidableEq

namespace Binary64

/-! ## Ranks and magnitudes -/

/-- The magnitude of a rank, in units of `2⁻¹⁰⁷⁴`. -/
def units (rank : Nat) : Nat :=
  if rank < 2 ^ 52 then rank else (2 ^ 52 + rank % 2 ^ 52) * 2 ^ (rank / 2 ^ 52 - 1)

/-- The integer nearest to `n / d`, the even one of two. -/
def halfEven (n d : Nat) : Nat :=
  if 2 * (n % d) < d then n / d
  else if d < 2 * (n % d) then n / d + 1
  else n / d + n / d % 2

/-- The rank nearest to `n / d` units. It has a place for every binade and 53 bits for the integer
within: the rank behind a binade is the first one of the next. -/
def nearest (n d : Nat) : Nat :=
  let j := (n / d).log2 - 52
  j * 2 ^ 52 + halfEven n (d * 2 ^ j)

theorem halfEven_mul (n d : Nat) {c : Nat} (hc : 0 < c) : halfEven (n * c) (d * c) = halfEven n d := by
  have rem : n * c % (d * c) = n % d * c := Nat.mul_mod_mul_right c n d
  have lt : ∀ {a b : Nat}, a * c < b * c ↔ a < b := fun {a b} => Nat.mul_lt_mul_right hc
  simp only [halfEven, rem, Nat.mul_div_mul_right _ _ hc, ← Nat.mul_assoc, lt]

theorem halfEven_exact (m : Nat) {d : Nat} (hd : 0 < d) : halfEven (m * d) d = m := by
  simp [halfEven, hd]

/-- The nearest rank depends on the ratio only. -/
theorem nearest_mul (n d : Nat) {c : Nat} (hc : 0 < c) : nearest (n * c) (d * c) = nearest n d := by
  simp only [nearest, Nat.mul_div_mul_right _ _ hc]
  rw [Nat.mul_right_comm d c, halfEven_mul _ _ hc]

/-- The rank nearest to a magnitude is its own. -/
theorem nearest_units (rank : Nat) {d : Nat} (hd : 0 < d) : nearest (units rank * d) d = rank := by
  unfold nearest
  simp only [Nat.mul_div_cancel _ hd]
  by_cases low : rank < 2 ^ 53
  · have same : units rank = rank := by
      unfold units
      split
      · rfl
      · have quotient : rank / 2 ^ 52 = 1 := by omega
        rw [quotient, Nat.sub_self, Nat.pow_zero, Nat.mul_one]
        omega
    have small : rank.log2 - 52 = 0 := by
      rcases Nat.eq_zero_or_pos rank with rfl | pos
      · rfl
      · have := (Nat.log2_lt (Nat.ne_of_gt pos)).2 low
        omega
    rw [same, small, Nat.pow_zero, Nat.mul_one, halfEven_exact _ hd, Nat.zero_mul, Nat.zero_add]
  · -- a full binade: the rank is the exponent and 52 bits of the integer
    generalize exponent : rank / 2 ^ 52 - 1 = j
    generalize integer : 2 ^ 52 + rank % 2 ^ 52 = m
    have size : units rank = m * 2 ^ j := by
      rw [units, if_neg (by omega), exponent, integer]
    have binade : (m * 2 ^ j).log2 = 52 + j := by
      have lower : 2 ^ 52 ≤ m := by omega
      have upper : m < 2 ^ 53 := by omega
      have pos : 0 < 2 ^ j := Nat.two_pow_pos j
      have lo : 2 ^ (52 + j) ≤ m * 2 ^ j := by
        rw [Nat.pow_add]
        exact Nat.mul_le_mul_right _ lower
      have hi : m * 2 ^ j < 2 ^ (52 + j + 1) := by
        rw [show 52 + j + 1 = 53 + j by omega, Nat.pow_add]
        exact (Nat.mul_lt_mul_right pos).2 upper
      have ne : m * 2 ^ j ≠ 0 := Nat.ne_of_gt (Nat.lt_of_lt_of_le (Nat.two_pow_pos _) lo)
      exact (Nat.log2_eq_iff ne).2 ⟨lo, hi⟩
    rw [size, binade, Nat.add_sub_cancel_left]
    have exact_ : m * 2 ^ j * d = m * (d * 2 ^ j) := by ring
    rw [exact_, halfEven_exact _ (Nat.mul_pos hd (Nat.two_pow_pos j))]
    omega

theorem nearest_of_ratio {n d n' d' : Nat} (hd : 0 < d) (hd' : 0 < d') (same : n * d' = n' * d) :
    nearest n d = nearest n' d' := by
  rw [← nearest_mul n d hd', ← nearest_mul n' d' hd, same, Nat.mul_comm d d']

theorem nearest_zero (d : Nat) : nearest 0 d = 0 := by
  simp [nearest, halfEven, Nat.log2_zero]

/-! ## Decimals -/

/-- The rank nearest to `m · 10ᵉ`. -/
def decimalRank (m : Nat) (e : Int) : Nat :=
  nearest (m * 10 ^ e.toNat * 2 ^ 1074) (10 ^ (-e).toNat)

theorem decimalRank_zero (e : Int) : decimalRank 0 e = 0 := by
  rw [decimalRank, Nat.zero_mul, Nat.zero_mul, nearest_zero]

/-- Zeros behind the digits move the point. -/
theorem decimalRank_shift (m i : Nat) {e e' : Int} (shift : e' = e + i) :
    decimalRank (m * 10 ^ i) e = decimalRank m e' := by
  apply nearest_of_ratio (Nat.pow_pos (by decide)) (Nat.pow_pos (by decide))
  have exponents : i + e.toNat + (-e').toNat = e'.toNat + (-e).toNat := by omega
  generalize 2 ^ 1074 = unit
  calc m * 10 ^ i * 10 ^ e.toNat * unit * 10 ^ (-e').toNat
      = m * 10 ^ (i + e.toNat + (-e').toNat) * unit := by rw [pow_add, pow_add]; ring
    _ = m * 10 ^ (e'.toNat + (-e).toNat) * unit := by rw [exponents]
    _ = m * 10 ^ e'.toNat * unit * 10 ^ (-e).toNat := by rw [pow_add]; ring

/-- `m · 10ᵉ`, rounded. -/
def ofDecimal (negative : Bool) (m : Nat) (e : Int) : Binary64 :=
  if h : decimalRank m e < top then .finite negative ⟨decimalRank m e, h⟩ else .infinity negative

/-! ## Integers -/

/-- `float(n)`, which raises `OverflowError` where `n` is rounded to infinity. -/
def ofInt (n : Int) : Option Binary64 :=
  let rank := nearest (n.natAbs * 2 ^ 1074) 1
  if h : rank < top then some (.finite (n < 0) ⟨rank, h⟩) else none

/-- The integer part of a magnitude. -/
def truncate (rank : Nat) : Nat := units rank / 2 ^ 1074

/-- A finite magnitude is below the next power of two. -/
theorem units_lt (rank : Fin top) {k : Nat} (last : k = 2098) : units rank < 2 ^ k := by
  have size : rank.val / 2 ^ 52 ≤ 2046 := by
    have := rank.isLt
    unfold top at this
    omega
  unfold units
  split
  · rename_i small
    exact Nat.lt_of_lt_of_le small (Nat.pow_le_pow_right (by decide) (by omega))
  · have integer : 2 ^ 52 + rank.val % 2 ^ 52 < 2 ^ 53 := by omega
    generalize exponent : rank.val / 2 ^ 52 - 1 = j
    calc (2 ^ 52 + rank.val % 2 ^ 52) * 2 ^ j
        < 2 ^ 53 * 2 ^ j := (Nat.mul_lt_mul_right (Nat.two_pow_pos j)).2 integer
      _ = 2 ^ (53 + j) := (Nat.pow_add 2 53 j).symm
      _ ≤ 2 ^ k := Nat.pow_le_pow_right (by decide) (by omega)

/-- An integer part has no more than 1024 bits. -/
theorem truncate_lt (rank : Fin top) {k : Nat} (last : k = 1024) : truncate rank < 2 ^ k := by
  have whole : ∀ {unit : Nat}, units rank < unit * 2 ^ k → units rank / unit < 2 ^ k :=
    Nat.div_lt_of_lt_mul
  refine whole ?_
  rw [← Nat.pow_add]
  exact units_lt rank (by omega)

/-- Halfway from the last finite magnitude to `2¹⁰²⁴`. -/
def overflow : Nat := (2 ^ 54 - 1) * 2 ^ 970

/-- Below an even integer, the nearest one is less up to the tie. -/
theorem halfEven_lt {n e q : Nat} (he : 0 < e) (even : q % 2 = 0) (pos : 0 < q) :
    halfEven n (2 * e) < q ↔ n + e < q * (2 * e) := by
  have division := Nat.div_add_mod n (2 * e)
  have bound := Nat.mod_lt n (Nat.mul_pos (by decide : 0 < 2) he)
  generalize hk : n / (2 * e) = k at division
  generalize hr : n % (2 * e) = r at division bound
  have value : q * (2 * e) = 2 * e * q := Nat.mul_comm _ _
  rw [halfEven, hk, hr, value]
  rcases Nat.lt_trichotomy (k + 1) q with less | last | more
  · -- at least one whole integer is between
    have room : 2 * e * (k + 2) ≤ 2 * e * q := Nat.mul_le_mul_left _ less
    rw [Nat.mul_add] at room
    refine iff_of_true ?_ (by omega)
    split_ifs <;> omega
  · subst last
    rw [Nat.mul_add]
    split_ifs <;> omega
  · have past : 2 * e * q ≤ 2 * e * k := Nat.mul_le_mul_left _ (Nat.le_of_lt_succ more)
    refine iff_of_false ?_ (by omega)
    split_ifs <;> omega

theorem halfEven_bounds (n d : Nat) : n / d ≤ halfEven n d ∧ halfEven n d ≤ n / d + 1 := by
  unfold halfEven
  split_ifs <;> omega

/-- A magnitude is rounded to a finite one up to halfway behind the last. -/
theorem nearest_lt_top {n k : Nat} (hk : k = 2044) : nearest n 1 < top ↔ n + 2 ^ k < 2 ^ 54 * 2 ^ k := by
  rcases Nat.eq_zero_or_pos n with rfl | pos
  · have room := Nat.two_pow_pos k
    rw [nearest_zero]
    exact iff_of_true (by decide) (by omega)
  have lo := Nat.log2_self_le (Nat.ne_of_gt pos)
  have hi := Nat.lt_log2_self (n := n)
  generalize hL : n.log2 = L at lo hi
  have rank : nearest n 1 = (L - 52) * 2 ^ 52 + halfEven n (2 ^ (L - 52)) := by
    simp only [nearest, Nat.div_one, Nat.one_mul, hL]
  have bounds := halfEven_bounds n (2 ^ (L - 52))
  have top_eq : top = 2047 * 2 ^ 52 := rfl
  rw [rank, top_eq]
  rcases Nat.lt_trichotomy L (k + 53) with less | rfl | more
  · -- a lower binade
    have small : n < 2 ^ 53 * 2 ^ k := by
      refine Nat.lt_of_lt_of_le hi ?_
      rw [← Nat.pow_add]
      exact Nat.pow_le_pow_right (by decide) (by omega)
    have quotient : n / 2 ^ (L - 52) < 2 ^ 53 := by
      refine Nat.div_lt_of_lt_mul (Nat.lt_of_lt_of_le hi ?_)
      rw [← Nat.pow_add]
      exact Nat.pow_le_pow_right (by decide) (by omega)
    exact iff_of_true (by omega) (by omega)
  · have unit : k + 53 - 52 = k + 1 := by omega
    have tie := halfEven_lt (n := n) (q := 2 ^ 53) (Nat.two_pow_pos k) rfl (by decide)
    have binade : 2 ^ (k + 1) = 2 * 2 ^ k := Nat.pow_succ'
    rw [unit, binade]
    omega
  · have large : 2 ^ 54 * 2 ^ k ≤ n := by
      refine Nat.le_trans ?_ lo
      rw [← Nat.pow_add]
      exact Nat.pow_le_pow_right (by decide) (by omega)
    have quotient : 2 ^ 52 ≤ n / 2 ^ (L - 52) := by
      rw [Nat.le_div_iff_mul_le (Nat.two_pow_pos _), ← Nat.pow_add]
      exact Nat.le_trans (Nat.pow_le_pow_right (by decide) (by omega)) lo
    exact iff_of_false (by omega) (by omega)

theorem ofInt_isSome {n : Int} : (ofInt n).isSome ↔ n.natAbs < overflow := by
  have scale : ∀ {m k u : Nat}, m * 2 ^ u + 2 ^ (k + u) < 2 ^ 54 * 2 ^ (k + u) ↔
      m < (2 ^ 54 - 1) * 2 ^ k := by
    intro m k u
    rw [Nat.pow_add 2 k u, ← Nat.mul_assoc, ← Nat.add_mul, Nat.mul_lt_mul_right (Nat.two_pow_pos u)]
    omega
  have finite : (ofInt n).isSome ↔ nearest (n.natAbs * 2 ^ 1074) 1 < top := by
    unfold ofInt
    generalize nearest (n.natAbs * 2 ^ 1074) 1 = rank
    by_cases h : rank < top <;> simp [h]
  exact finite.trans ((nearest_lt_top (k := 970 + 1074) rfl).trans scale)

/-- A power of two is a float below `2¹⁰²⁴`. -/
theorem ofInt_two_pow {n : Nat} : (ofInt (2 ^ n)).isSome ↔ n < 1024 := by
  have between : ∀ {k : Nat}, 2 ^ n < (2 ^ 54 - 1) * 2 ^ k ↔ n < 54 + k := by
    intro k
    constructor
    · intro below
      refine (Nat.pow_lt_pow_iff_right (by decide : 1 < 2)).1 (Nat.lt_of_lt_of_le below ?_)
      rw [Nat.pow_add]
      exact Nat.mul_le_mul_right _ (Nat.sub_le _ _)
    · intro below
      have half : 2 ^ n ≤ 2 ^ (53 + k) := Nat.pow_le_pow_right (by decide) (by omega)
      have pos := Nat.two_pow_pos k
      rw [Nat.pow_add] at half
      omega
  have size : ((2 : Int) ^ n).natAbs = 2 ^ n := Int.natAbs_pow 2 n
  rw [ofInt_isSome, size]
  exact between (k := 970)

theorem decimalRank_expansion (rank : Nat) {k : Nat} (unit : k = 1074) :
    decimalRank (units rank * 5 ^ k) (-k) = rank := by
  have whole : (-k : Int).toNat = 0 := by omega
  rw [decimalRank, ← unit, neg_neg, whole, Int.toNat_natCast, Nat.pow_zero, Nat.mul_one, Nat.mul_assoc,
    ← Nat.mul_pow]
  exact nearest_units rank (Nat.pow_pos (by decide))

/-- The place of the decimal point in a magnitude: the number of digits before it, or less the zeros
behind it. -/
def pointPlace (rank : Nat) : Int :=
  (Nat.toDigits 10 (units rank * 10 ^ 1100 / 2 ^ 1074)).length - 1100

/-- The two decimals with `n` digits next to a magnitude, the nearer first. -/
def neighbours (rank n : Nat) : List (Nat × Int) :=
  let e := pointPlace rank - n
  let above := units rank * 10 ^ (-e).toNat
  let below := 2 ^ 1074 * 10 ^ e.toNat
  let near := halfEven above below
  [(near, e), (if near = above / below then near + 1 else near - 1, e)]

/-- The decimal with the fewest digits that is rounded to the rank. Seventeen digits suffice; behind
them the exact expansion stands, so that the search is total. -/
def shortest (rank : Nat) : Nat × Int :=
  (((List.range' 1 17).flatMap (neighbours rank)).find? fun x => decimalRank x.1 x.2 = rank).getD
    (units rank * 5 ^ 1074, -1074)

theorem decimalRank_shortest (rank : Nat) : decimalRank (shortest rank).1 (shortest rank).2 = rank := by
  unfold shortest
  cases found : ((List.range' 1 17).flatMap (neighbours rank)).find?
      (fun x => decimalRank x.1 x.2 = rank) with
  | some x =>
    have rounded := List.find?_some found
    exact of_decide_eq_true rounded
  | none => exact decimalRank_expansion rank rfl

/-! ## Numerals -/

/-- The text of a number without its sign: the digits before and behind the point, and the sign (is it
negative) and digits of the exponent. -/
structure Numeral where
  integer : List Char
  fraction : List Char := []
  exponent : Option (Bool × List Char) := none
  deriving DecidableEq

namespace Numeral

def fractionText (n : Numeral) : List Char := if n.fraction = [] then [] else '.' :: n.fraction

def exponentText (n : Numeral) : List Char :=
  n.exponent.elim [] fun (negative, digits) => 'e' :: (if negative then '-' else '+') :: digits

def text (n : Numeral) : List Char := n.integer ++ (n.fractionText ++ n.exponentText)

def exponentValue (n : Numeral) : Int :=
  n.exponent.elim 0 fun (negative, digits) =>
    if negative then -(Nat.ofDigitChars 10 digits 0 : Int) else Nat.ofDigitChars 10 digits 0

/-- The value, before it is rounded, as digits and a power of ten. -/
def digits (n : Numeral) : Nat := Nat.ofDigitChars 10 (n.integer ++ n.fraction) 0

def scale (n : Numeral) : Int := n.exponentValue - n.fraction.length

/-- `float(text)`. -/
def toBinary64 (negative : Bool) (n : Numeral) : Binary64 := ofDecimal negative n.digits n.scale

/-- At least two digits, as in `1e+16` and `1e-05`. -/
def exponentDigits (e : Nat) : List Char :=
  if e < 10 then '0' :: Nat.toDigits 10 e else Nat.toDigits 10 e

/-- `float.__repr__` without the sign: the digits `ds` behind a point at place `p`, in positional
notation from `1e-4` to less than `1e16`. -/
def ofDigits (ds : List Char) (p : Int) : Numeral :=
  if -4 < p ∧ p ≤ 16 then
    if p ≤ 0 then { integer := ['0'], fraction := List.replicate (-p).toNat '0' ++ ds }
    else if ds.length ≤ p then
      { integer := ds ++ List.replicate (p - ds.length).toNat '0', fraction := ['0'] }
    else { integer := ds.take p.toNat, fraction := ds.drop p.toNat }
  else
    { integer := ds.take 1, fraction := ds.drop 1,
      exponent := some (decide (p - 1 < 0), exponentDigits (p - 1).natAbs) }

/-- The numeral of `m · 10ᵉ`, without the zeros behind its digits. -/
def ofDecimal (m : Nat) (e : Int) : Numeral :=
  let ds := (Nat.toDigits 10 m).rdropWhile (· = '0')
  if ds = [] then { integer := ['0'], fraction := ['0'] }
  else ofDigits ds ((Nat.toDigits 10 m).length + e)

end Numeral

/-- `repr(x)`; `json` writes the other numbers `Infinity`, `-Infinity` and `NaN`. -/
def numeral (rank : Nat) : Numeral := Numeral.ofDecimal (shortest rank).1 (shortest rank).2

section RoundTrip

open Nat (ofDigitChars)

theorem Numeral.exponentDigits_value (e : Nat) : ofDigitChars 10 (Numeral.exponentDigits e) 0 = e := by
  unfold Numeral.exponentDigits
  split
  · rw [Nat.ofDigitChars_cons]
    exact Nat.ofDigitChars_ten_toDigits
  · exact Nat.ofDigitChars_ten_toDigits

theorem ofDigitChars_zeros (i : Nat) (ds : List Char) :
    ofDigitChars 10 (List.replicate i '0' ++ ds) 0 = ofDigitChars 10 ds 0 := by
  rw [Nat.ofDigitChars_append, Nat.ofDigitChars_replicate_zero, Nat.mul_zero]

theorem ofDigitChars_append_zeros (ds : List Char) (i : Nat) :
    ofDigitChars 10 (ds ++ List.replicate i '0') 0 = ofDigitChars 10 ds 0 * 10 ^ i := by
  rw [Nat.ofDigitChars_append, Nat.ofDigitChars_replicate_zero, Nat.mul_comm]

/-- The rank of a numeral of the digits `ds` behind a point at place `p`. -/
theorem Numeral.rank_ofDigits {ds : List Char} (some_ : ds ≠ []) (p : Int) :
    decimalRank (Numeral.ofDigits ds p).digits (Numeral.ofDigits ds p).scale =
      decimalRank (ofDigitChars 10 ds 0) (p - ds.length) := by
  have pos := List.length_pos_of_ne_nil some_
  unfold Numeral.ofDigits
  split
  · split
    · -- zeros between the point and the digits
      rename_i low
      have place : (0 : Int) - ((-p).toNat + ds.length : Nat) = p - ds.length := by omega
      simp only [digits, scale, exponentValue, Option.elim_none, List.length_append,
        List.length_replicate, place]
      rw [← List.append_assoc, ← List.replicate_one, List.replicate_append_replicate,
        ofDigitChars_zeros]
    · split
      · -- zeros between the digits and the point, and one behind it
        rename_i whole
        generalize zeros : (p - ds.length).toNat = i
        have value : ofDigitChars 10 (ds ++ List.replicate i '0' ++ ['0']) 0 =
            ofDigitChars 10 ds 0 * 10 ^ (i + 1) := by
          rw [← List.replicate_one, List.append_assoc, List.replicate_append_replicate,
            ofDigitChars_append_zeros]
        simp only [digits, scale, exponentValue, Option.elim_none, List.length_singleton, value]
        exact decimalRank_shift _ _ (by omega)
      · rename_i inside
        have place : (0 : Int) - (ds.length - p.toNat : Nat) = p - ds.length := by omega
        simp only [digits, scale, exponentValue, Option.elim_none, List.take_append_drop,
          List.length_drop, place]
  · have exponent : (if p - 1 < 0 then -((p - 1).natAbs : Int) else (p - 1).natAbs) = p - 1 := by
      split <;> omega
    have place : p - 1 - (ds.length - 1 : Nat) = p - ds.length := by omega
    simp only [digits, scale, exponentValue, Option.elim_some, List.take_append_drop, List.length_drop,
      exponentDigits_value, decide_eq_true_eq, exponent, place]

/-- The numeral of a decimal has its rank. -/
theorem Numeral.rank_ofDecimal (m : Nat) (e : Int) :
    decimalRank (Numeral.ofDecimal m e).digits (Numeral.ofDecimal m e).scale = decimalRank m e := by
  generalize kept : (Nat.toDigits 10 m).rdropWhile (· = '0') = ds
  generalize dropped : (Nat.toDigits 10 m).rtakeWhile (· = '0') = zeros
  have whole : Nat.toDigits 10 m = ds ++ zeros := by
    rw [← kept, ← dropped, List.rdropWhile_append_rtakeWhile]
  have all_zero : zeros = List.replicate zeros.length '0' := by
    refine List.eq_replicate_of_mem fun c hc => ?_
    rw [← dropped] at hc
    have zero := List.mem_rtakeWhile_imp hc
    exact of_decide_eq_true zero
  have value : m = ofDigitChars 10 ds 0 * 10 ^ zeros.length := by
    rw [← ofDigitChars_append_zeros, ← all_zero, ← whole, Nat.ofDigitChars_ten_toDigits]
  simp only [Numeral.ofDecimal, kept]
  split
  · rename_i none
    have zero : m = 0 := by
      rw [value, none, Nat.ofDigitChars_nil, Nat.zero_mul]
    have digits : Numeral.digits { integer := ['0'], fraction := ['0'] } = 0 := rfl
    rw [zero, digits, decimalRank_zero, decimalRank_zero]
  · rename_i some_
    rw [Numeral.rank_ofDigits some_]
    conv_rhs => rw [value]
    symm
    apply decimalRank_shift
    rw [whole, List.length_append]
    omega

theorem rank_numeral (rank : Nat) : decimalRank (numeral rank).digits (numeral rank).scale = rank :=
  (Numeral.rank_ofDecimal _ _).trans (decimalRank_shortest rank)

/-- What `repr` writes `float` reads back. -/
theorem toBinary64_numeral (negative : Bool) (rank : Fin top) :
    (numeral rank).toBinary64 negative = .finite negative rank := by
  simp only [Numeral.toBinary64, Binary64.ofDecimal, rank_numeral, rank.isLt, dite_true]

end RoundTrip

/-! ## The shape of a numeral -/

/-- The text is that of a float: no zero before the integer's digits, digits in every part, and a
fraction or an exponent. -/
structure Numeral.Proper (n : Numeral) : Prop where
  integer : n.integer = ['0'] ∨ ∃ c ds, n.integer = c :: ds ∧ c ≠ '0'
  integer_digits : ∀ c ∈ n.integer, c.isDigit = true
  fraction_digits : ∀ c ∈ n.fraction, c.isDigit = true
  exponent_digits : ∀ negative ds, n.exponent = some (negative, ds) →
    ds ≠ [] ∧ ∀ c ∈ ds, c.isDigit = true
  marked : n.fraction ≠ [] ∨ n.exponent ≠ none

theorem isDigit_of_mem_toDigits {m : Nat} {c : Char} (h : c ∈ Nat.toDigits 10 m) : c.isDigit = true :=
  Nat.isDigit_of_mem_toDigits (by decide) (by decide) h

/-- No number but zero begins with a zero. -/
theorem toDigits_head {m : Nat} (hm : 0 < m) : ∃ c ds, Nat.toDigits 10 m = c :: ds ∧ c ≠ '0' := by
  induction m using Nat.strong_induction_on with
  | _ m ih =>
    by_cases small : m < 10
    · have digit : ∀ m < 10, 0 < m → m.digitChar ≠ '0' := by decide
      exact ⟨m.digitChar, [], Nat.toDigits_of_lt_base small, digit m small hm⟩
    · obtain ⟨c, ds, head, ne⟩ := ih (m / 10) (Nat.div_lt_self hm (by decide)) (by omega)
      refine ⟨c, ds ++ [(m % 10).digitChar], ?_, ne⟩
      rw [Nat.toDigits_of_base_le (by decide) (Nat.le_of_not_lt small), head, List.cons_append]

theorem Numeral.exponentDigits_digits (e : Nat) :
    Numeral.exponentDigits e ≠ [] ∧ ∀ c ∈ Numeral.exponentDigits e, c.isDigit = true := by
  unfold Numeral.exponentDigits
  split
  · refine ⟨List.cons_ne_nil _ _, fun c hc => ?_⟩
    rcases List.mem_cons.1 hc with rfl | hc
    · rfl
    · exact isDigit_of_mem_toDigits hc
  · exact ⟨Nat.toDigits_ne_nil, fun c hc => isDigit_of_mem_toDigits hc⟩

theorem Numeral.ofDigits_proper {c : Char} {ds : List Char} (head : c ≠ '0')
    (all_digits : ∀ x ∈ c :: ds, x.isDigit = true) (p : Int) : (Numeral.ofDigits (c :: ds) p).Proper := by
  have zeros : ∀ {i : Nat} {x : Char}, x ∈ List.replicate i '0' → x.isDigit = true := fun hx => by
    rw [List.eq_of_mem_replicate hx]
    rfl
  unfold Numeral.ofDigits
  split
  · split
    · refine ⟨.inl rfl, by simp, fun x hx => ?_, fun _ _ none => (by cases none), .inl (by simp)⟩
      rcases List.mem_append.1 hx with hx | hx
      · exact zeros hx
      · exact all_digits x hx
    · split
      · refine ⟨.inr ⟨c, _, List.cons_append, head⟩, fun x hx => ?_, by simp,
          fun _ _ none => (by cases none), .inl (by simp)⟩
        rcases List.mem_append.1 hx with hx | hx
        · exact all_digits x hx
        · exact zeros hx
      · rename_i positive inside
        obtain ⟨i, place⟩ : ∃ i, p.toNat = i + 1 := ⟨p.toNat - 1, by omega⟩
        simp only [place, List.take_succ_cons, List.drop_succ_cons]
        refine ⟨.inr ⟨c, _, rfl, head⟩, fun x hx => ?_, fun x hx => ?_, fun _ _ none => (by cases none),
          .inl ?_⟩
        · rcases List.mem_cons.1 hx with rfl | hx
          · exact all_digits x List.mem_cons_self
          · exact all_digits x (List.mem_cons_of_mem _ (List.mem_of_mem_take hx))
        · exact all_digits x (List.mem_cons_of_mem _ (List.mem_of_mem_drop hx))
        · rw [ne_eq, List.drop_eq_nil_iff]
          simp only [List.length_cons] at inside
          omega
  · refine ⟨.inr ⟨c, [], rfl, head⟩, fun x hx => ?_, fun x hx => ?_, fun negative digits same => ?_,
      .inr (by simp)⟩
    · exact all_digits x (List.mem_of_mem_take hx)
    · exact all_digits x (List.mem_of_mem_drop hx)
    · cases same
      exact exponentDigits_digits _

theorem Numeral.ofDecimal_proper (m : Nat) (e : Int) : (Numeral.ofDecimal m e).Proper := by
  simp only [Numeral.ofDecimal]
  split
  · exact ⟨.inl rfl, by simp, by simp, fun _ _ none => (by cases none), .inl (by simp)⟩
  · rename_i some_
    have part := List.rdropWhile_prefix (fun c => decide (c = '0')) (l := Nat.toDigits 10 m)
    have pos : 0 < m := by
      rcases Nat.eq_zero_or_pos m with rfl | pos
      · exact absurd rfl some_
      · exact pos
    obtain ⟨c, ds, head, ne⟩ := toDigits_head pos
    obtain ⟨rest, whole⟩ := part
    obtain ⟨c', ds', same⟩ := List.exists_cons_of_ne_nil some_
    have first : c' = c := by
      rw [same, head, List.cons_append] at whole
      exact (List.cons.inj whole).1
    rw [same]
    apply Numeral.ofDigits_proper (first ▸ ne)
    intro x hx
    apply isDigit_of_mem_toDigits (m := m)
    rw [← whole, same]
    exact List.mem_append_left _ hx

theorem numeral_proper (rank : Nat) : (numeral rank).Proper := Numeral.ofDecimal_proper _ _

end Binary64
