import Mathlib.Data.List.Chain
import HookRelay.Lib.Binary64

/-!
# JSON as Python's `json` module writes and reads it

`json.dumps` and `json.loads` with their default arguments: the values they are about, the text
`dumps` writes, and the scanner of `loads` with the extensions it accepts and the exceptions it raises.
A document is a list of characters. A string value is a list of code points, which may be surrogates.

Both recurse once for each list or dictionary inside another, up to the interpreter's limit.
-/

namespace PyJson

/-- What a Python `str` is made of. -/
abbrev CodePoint := Fin 0x110000

abbrev Text := List Char

/-- The fields of a dictionary stand in its insertion order. -/
inductive Value where
  | null
  | bool (b : Bool)
  | int (n : Int)
  | float (x : Binary64)
  | str (s : List CodePoint)
  | arr (elements : List Value)
  | obj (fields : List (List CodePoint × Value))

/-- The exceptions of `json.loads`: `JSONDecodeError`, the `ValueError` of an integer with too many
digits, and `RecursionError`. -/
inductive LoadError where
  | decode
  | digits
  | recursion
  deriving DecidableEq

/-- `sys.get_int_max_str_digits()`. -/
def maxDigits : Nat := 4300

/-! ## Code points -/

def ofChar (c : Char) : CodePoint := ⟨c.toNat, by
  rcases c.valid with h | h
  · exact Nat.lt_trans h (by decide)
  · exact h.2⟩

/-- The first half of a surrogate pair. -/
def isHigh (c : CodePoint) : Bool := 0xd800 ≤ c.val && c.val < 0xdc00

/-- The second half. -/
def isLow (c : CodePoint) : Bool := 0xdc00 ≤ c.val && c.val < 0xe000

/-- The code units of a code point: itself, or a surrogate pair. -/
def units (c : CodePoint) : List CodePoint :=
  if c.val < 0x10000 then [c]
  else [⟨0xd800 + (c.val - 0x10000) / 0x400, by omega⟩, ⟨0xdc00 + (c.val - 0x10000) % 0x400, by omega⟩]

/-- The code point of a surrogate pair. -/
def join (high low : CodePoint) (h : isHigh high = true) : CodePoint :=
  ⟨0x10000 + (high.val - 0xd800) * 0x400 + (low.val - 0xdc00) % 0x400, by
    simp only [isHigh, Bool.and_eq_true, decide_eq_true_eq] at h
    omega⟩

def joinSurrogates : List CodePoint → List CodePoint
  | high :: low :: s =>
    if h : isHigh high = true ∧ isLow low = true then join high low h.1 :: joinSurrogates s
    else high :: joinSurrogates (low :: s)
  | s => s

/-! ## `json.dumps` -/

/-- `\uXXXX`. -/
def escapeUnit (n : Nat) : Text :=
  ['\\', 'u', Nat.digitChar (n / 0x1000 % 0x10), Nat.digitChar (n / 0x100 % 0x10),
    Nat.digitChar (n / 0x10 % 0x10), Nat.digitChar (n % 0x10)]

/-- `ensure_ascii`: printable ASCII stands for itself, but for the quote and the backslash. -/
def escape (c : CodePoint) : Text :=
  if c.val = 0x22 then ['\\', '"']
  else if c.val = 0x5c then ['\\', '\\']
  else if c.val = 0x0a then ['\\', 'n']
  else if c.val = 0x0d then ['\\', 'r']
  else if c.val = 0x09 then ['\\', 't']
  else if c.val = 0x0c then ['\\', 'f']
  else if c.val = 0x08 then ['\\', 'b']
  else if 0x20 ≤ c.val ∧ c.val ≤ 0x7e then [Char.ofNat c.val]
  else (units c).flatMap fun unit => escapeUnit unit.val

def quote (s : List CodePoint) : Text := '"' :: (s.flatMap escape ++ ['"'])

/-- `int.__repr__`. -/
def intText (n : Int) : Text :=
  if n < 0 then '-' :: Nat.toDigits 10 n.natAbs else Nat.toDigits 10 n.natAbs

def floatText : Binary64 → Text
  | .finite negative rank => (if negative then ['-'] else []) ++ (Binary64.numeral rank).text
  | .infinity negative => (if negative then ['-'] else []) ++ ['I', 'n', 'f', 'i', 'n', 'i', 't', 'y']
  | .nan => ['N', 'a', 'N']

/-- The items between the brackets. -/
def joinItems : List Text → Text
  | [] => []
  | [t] => t
  | t :: t' :: ts => t ++ ',' :: ' ' :: joinItems (t' :: ts)

/-- `json.dumps(value)`, or an exception. -/
def dumps : Nat → Value → Option Text
  | _, .null => some ['n', 'u', 'l', 'l']
  | _, .bool b => some (if b then ['t', 'r', 'u', 'e'] else ['f', 'a', 'l', 's', 'e'])
  | _, .int n => if (Nat.toDigits 10 n.natAbs).length ≤ maxDigits then some (intText n) else none
  | _, .float x => some (floatText x)
  | _, .str s => some (quote s)
  | limit + 1, .arr elements => do
    let items ← elements.mapM (dumps limit)
    some ('[' :: (joinItems items ++ [']']))
  | limit + 1, .obj fields => do
    let items ← fields.mapM fun field => do
      let value ← dumps limit field.2
      some (quote field.1 ++ ':' :: ' ' :: value)
    some ('{' :: (joinItems items ++ ['}']))
  | 0, .arr _ | 0, .obj _ => none

/-! ## `json.loads` -/

abbrev Result := Except LoadError

/-- A key with its value. -/
abbrev Field := List CodePoint × Value

def skip (t : Text) : Text := t.dropWhile fun c => c = ' ' || c = '\t' || c = '\n' || c = '\r'

def hexValue (c : Char) : Option Nat :=
  if '0' ≤ c ∧ c ≤ '9' then some (c.toNat - '0'.toNat)
  else if 'a' ≤ c ∧ c ≤ 'f' then some (c.toNat - 'a'.toNat + 10)
  else if 'A' ≤ c ∧ c ≤ 'F' then some (c.toNat - 'A'.toNat + 10)
  else none

def hexUnit (a b c d : Char) : Option CodePoint := do
  let a ← hexValue a
  let b ← hexValue b
  let c ← hexValue c
  let d ← hexValue d
  some (Fin.ofNat _ (0x1000 * a + 0x100 * b + 0x10 * c + d))

def unescape (c : Char) : Option Char :=
  if c = '"' ∨ c = '\\' ∨ c = '/' then some c
  else if c = 'b' then some '\x08'
  else if c = 'f' then some '\x0c'
  else if c = 'n' then some '\n'
  else if c = 'r' then some '\r'
  else if c = 't' then some '\t'
  else none

/-- The code units up to the closing quote. -/
def scanUnits : Text → Option (List CodePoint × Text)
  | [] => none
  | '"' :: t => some ([], t)
  | '\\' :: 'u' :: a :: b :: c :: d :: t => do
    let unit ← hexUnit a b c d
    let (s, t) ← scanUnits t
    some (unit :: s, t)
  | '\\' :: e :: t => do
    let c ← unescape e
    let (s, t) ← scanUnits t
    some (ofChar c :: s, t)
  | c :: t => do
    let (s, t) ← scanUnits t
    if c.toNat < 0x20 ∨ c = '\\' then none else some (ofChar c :: s, t)

/-- `scanstring`, behind the opening quote. -/
def scanString (t : Text) : Result (List CodePoint × Text) :=
  match scanUnits t with
  | some (s, t) => .ok (joinSurrogates s, t)
  | none => .error .decode

/-- The digits at the front. -/
def scanDigits (t : Text) : List Char × Text := (t.takeWhile (·.isDigit), t.dropWhile (·.isDigit))

/-- `-?(0|[1-9][0-9]*)`, without the sign. -/
def scanInteger (t : Text) : Option (List Char × Text) :=
  match t with
  | [] => none
  | c :: rest =>
    if c = '0' then some (['0'], rest) else if c.isDigit then some (scanDigits t) else none

/-- A point counts only with digits behind it. -/
def scanFraction (t : Text) : List Char × Text :=
  match t with
  | '.' :: rest => if (scanDigits rest).1 = [] then ([], t) else scanDigits rest
  | _ => ([], t)

/-- `[-+]?`. -/
def scanSign : Text → Bool × Text
  | '-' :: t => (true, t)
  | '+' :: t => (false, t)
  | t => (false, t)

/-- `e` or `E` with an optional sign counts only with digits behind it. -/
def scanExponent (t : Text) : Option (Bool × List Char) × Text :=
  match t with
  | [] => (none, t)
  | e :: rest =>
    if e = 'e' ∨ e = 'E' then
      let (negative, rest) := scanSign rest
      let (digits, rest) := scanDigits rest
      if digits = [] then (none, t) else (some (negative, digits), rest)
    else (none, t)

/-- `_match_number`, behind the sign: an integer, or a float if there is a fraction or an exponent. -/
def scanMagnitude (negative : Bool) (t : Text) : Result (Value × Text) :=
  match scanInteger t with
  | none => .error .decode
  | some (integer, t) =>
    let (fraction, t) := scanFraction t
    let (exponent, t) := scanExponent t
    if fraction = [] ∧ exponent = none then
      if integer.length ≤ maxDigits then
        let n : Int := Nat.ofDigitChars 10 integer 0
        .ok (.int (if negative then -n else n), t)
      else .error .digits
    else .ok (.float (Binary64.Numeral.toBinary64 negative ⟨integer, fraction, exponent⟩), t)

def scanNumber : Text → Result (Value × Text)
  | '-' :: t => scanMagnitude true t
  | t => scanMagnitude false t

def literals : List (Text × Value) :=
  [(['n', 'u', 'l', 'l'], .null), (['t', 'r', 'u', 'e'], .bool true),
    (['f', 'a', 'l', 's', 'e'], .bool false),
    (['N', 'a', 'N'], .float .nan), (['I', 'n', 'f', 'i', 'n', 'i', 't', 'y'], .float (.infinity false)),
    (['-', 'I', 'n', 'f', 'i', 'n', 'i', 't', 'y'], .float (.infinity true))]

def scanLiteral (t : Text) : Option (Value × Text) :=
  literals.findSome? fun (word, v) => if word.isPrefixOf t then some (v, t.drop word.length) else none

/-- `scan_once`, with what scans the rest of a list and of a dictionary. -/
def scanWith (array object : Text → Result (Value × Text)) (t : Text) : Result (Value × Text) :=
  match t with
  | '"' :: t => (scanString t).map fun (s, t) => (.str s, t)
  | '[' :: t => array t
  | '{' :: t => object t
  | t => match scanLiteral t with
    | some r => .ok r
    | none => scanNumber t

/-- The items up to the closing bracket. An item has at least one character, so that the loop does not
run out of `fuel`. -/
def scanItems {α : Type} (close : Char) (scan : Text → Result (α × Text)) :
    Nat → Text → Result (List α × Text)
  | 0, _ => .error .decode
  | fuel + 1, t => do
    let (item, t) ← scan t
    match skip t with
    | [] => .error .decode
    | c :: t =>
      if c = close then .ok ([item], t)
      else if c = ',' then do
        let (items, t) ← scanItems close scan fuel (skip t)
        .ok (item :: items, t)
      else .error .decode

def scanArray (scan : Text → Result (Value × Text)) (t : Text) : Result (Value × Text) :=
  match skip t with
  | ']' :: t => .ok (.arr [], t)
  | t => (scanItems ']' scan t.length t).map fun (vs, t) => (.arr vs, t)

def scanField (scan : Text → Result (Value × Text)) (t : Text) : Result (Field × Text) :=
  match t with
  | '"' :: t => do
    let (key, t) ← scanString t
    match skip t with
    | ':' :: t => do
      let (v, t) ← scan (skip t)
      .ok ((key, v), t)
    | _ => .error .decode
  | _ => .error .decode

/-- `dict[key] = value`: a key that is there keeps its place. -/
def setField (fields : List Field) (field : Field) : List Field :=
  if fields.any (·.1 = field.1) then fields.map fun f => if f.1 = field.1 then field else f
  else fields ++ [field]

def dictionary (fields : List Field) : Value := .obj (fields.foldl setField [])

def scanObject (scan : Text → Result (Value × Text)) (t : Text) : Result (Value × Text) :=
  match skip t with
  | '}' :: t => .ok (.obj [], t)
  | t => (scanItems '}' (scanField scan) t.length t).map fun (fields, t) => (dictionary fields, t)

def scanOnce : Nat → Text → Result (Value × Text)
  | 0 => scanWith (fun _ => .error .recursion) fun _ => .error .recursion
  | limit + 1 => scanWith (scanArray (scanOnce limit)) (scanObject (scanOnce limit))

/-- `json.loads(text)`: no byte order mark in front and nothing but white space behind. -/
def loads (limit : Nat) (t : Text) : Except LoadError Value :=
  if t.head? = some '\uFEFF' then .error .decode
  else do
    let (v, t) ← scanOnce limit (skip t)
    if skip t = [] then .ok v else .error .decode

end PyJson
