/-
# Reading binary fractions

The written form of a binary64 number: an optional sign, then digits with a
point somewhere among them or none, then an optional exponent; or the words for
infinity and NaN in any case. The digits may be those of any script, single
underscores may stand between them, and blanks around the whole. What is written
is rounded to the nearest number.

Key definitions: `readFloat?`.
-/
import DocTypes.Text.Classes

namespace DocTypes

/-- The lower case of an ASCII letter. -/
def asciiLower (c : Char) : Char := if 'A' ≤ c ∧ c ≤ 'Z' then Char.ofNat (c.toNat + 32) else c

/-- Reads digits with single underscores between them, as many as there are. -/
def readDigits : (afterDigit : Bool) → Text → Text × Text
  | _, [] => ([], [])
  | afterDigit, c :: s =>
    if c.isDigit then
      let (ds, rest) := readDigits true s
      (c :: ds, rest)
    else if c = '_' ∧ afterDigit ∧ (s.head?.any Char.isDigit) then readDigits false s
    else ([], c :: s)

/-- The value of decimal digits. -/
def digitsValue (ds : Text) : Nat := ds.foldl (fun n c => 10 * n + (c.toNat - 48)) 0

/-- Reads a sign, true for minus. -/
def readSign : Text → Bool × Text
  | '-' :: s => (true, s)
  | '+' :: s => (false, s)
  | s => (false, s)

/-- Reads an exponent that fills the whole text; none is zero. -/
def readExponent? : Text → Option Int
  | [] => some 0
  | c :: s =>
    if c = 'e' ∨ c = 'E' then
      let (minus, t) := readSign s
      match readDigits false t with
      | ([], _) => none
      | (ds, []) => some (if minus then -(digitsValue ds : Int) else digitsValue ds)
      | _ => none
    else none

/-- `n * 10 ^ e` rounded to the nearest number. Exponents that are out of reach
for the number of digits give zero or infinity at once. -/
def roundDecimal (n : Nat) (digits : Nat) (e : Int) : Float :=
  if n = 0 ∨ e < -(digits : Int) - 400 then 0
  else if 400 < e then 1 / 0
  else if e < 0 then Float.ofScientific n true (-e).toNat
  else Float.ofScientific n false e.toNat

/-- Reads digits, a point and an exponent. -/
def readMagnitude? (s : Text) : Option Float :=
  let (whole, rest) := readDigits false s
  let (part, rest) :=
    match rest with
    | '.' :: t => readDigits false t
    | t => ([], t)
  let ds := whole ++ part
  if ds.isEmpty then none
  else (readExponent? rest).map fun e => roundDecimal (digitsValue ds) ds.length (e - part.length)

/-- The number that a text writes. -/
def readFloat? (s : Text) : Option Float :=
  let (minus, t) := readSign (Text.trimBlank s).asciiDigits
  let word := t.map asciiLower
  let magnitude :=
    if word = "inf".toList ∨ word = "infinity".toList then some (1 / 0)
    else if word = "nan".toList then some (0 / 0)
    else readMagnitude? t
  magnitude.map fun x => if minus then -x else x

end DocTypes
