/-
# The shortest decimal of a binary fraction

A finite binary64 number is `m * 2 ^ q` (`Dyadic`). The reals that round to it
form an interval around it, whose ends belong to it exactly when `m` is even.
For one, two, up to seventeen digits, `shortest` looks at the two neighbours of
the number on the grid of decimals with that many digits; the first grid with a
neighbour in the interval gives the digits, the nearer of two, and the even one
at a tie. All of it is exact arithmetic on natural numbers.

`Layout` holds how the digits are written: between which exponents the point is
placed among them, and otherwise one digit before the point and an exponent.

Key definitions: `Dyadic`, `Dyadic.ofFloat?`, `shortest`, `Layout.write`.
-/
import DocTypes.Text

namespace DocTypes

/-- The positive number `mantissa * 2 ^ exponent`. `narrow` marks the least
number of its binade, whose lower neighbour is half as far as its upper one. -/
structure Dyadic where
  mantissa : Nat
  exponent : Int
  narrow : Bool

/-- The magnitude of a finite binary64 number, none for infinities and NaN. -/
def Dyadic.ofFloat? (x : Float) : Option Dyadic :=
  let bits := x.toBits.toNat
  let field : Nat := bits / Nat.pow 2 52 % Nat.pow 2 11
  let fraction : Nat := bits % Nat.pow 2 52
  if field = 2047 then none
  else if field = 0 then some ⟨fraction, -1074, false⟩
  else some ⟨Nat.pow 2 52 + fraction, (field : Int) - 1075, fraction == 0 && decide (1 < field)⟩

/-- Whether the sign bit of a binary64 number is set. -/
def signBit (x : Float) : Bool := x.toBits.toNat / Nat.pow 2 63 == 1

/-- The number `0.d₁d₂… * 10 ^ point`. -/
structure Decimal where
  digits : Text
  point : Int

/-- A fraction of natural numbers. -/
structure Ratio where
  num : Nat
  den : Nat

/-- `a < b`, both with positive denominators. -/
def Ratio.lt (a b : Ratio) : Bool := a.num * b.den < b.num * a.den

/-- `n * base ^ e`. -/
def Ratio.scaled (n base : Nat) (e : Int) : Ratio :=
  if 0 ≤ e then ⟨n * Nat.pow base e.toNat, 1⟩ else ⟨n, Nat.pow base (-e).toNat⟩

/-- Whether `r` rounds to the dyadic `d`: four times the mantissa is compared, so
that the ends of the interval are whole. -/
def Dyadic.covers (d : Dyadic) (r : Ratio) : Bool :=
  let low := Ratio.scaled (4 * d.mantissa - (if d.narrow then 1 else 2)) 2 (d.exponent - 2)
  let high := Ratio.scaled (4 * d.mantissa + 2) 2 (d.exponent - 2)
  if d.mantissa % 2 = 0 then !r.lt low && !high.lt r else low.lt r && r.lt high

/-- The least `k` with `r < 10 ^ k`, searched upwards for `steps` steps. -/
def pointFrom (r : Ratio) : (steps : Nat) → (start : Int) → Int
  | 0, k => k
  | steps + 1, k => if r.lt (Ratio.scaled 1 10 k) then k else pointFrom r steps (k + 1)

/-- The decimal exponent of a positive ratio: the least `k` with `r < 10 ^ k`. -/
def pointOf (r : Ratio) : Int :=
  pointFrom r 6 (((Nat.log2 r.num : Int) - Nat.log2 r.den) * 30103 / 100000 - 2)

/-- The neighbour of `r` on the grid `10 ^ e` that rounds to `d`: the nearer one
when both do, the even one when they are equally near. -/
def gridNeighbour? (d : Dyadic) (r : Ratio) (e : Int) : Option Nat :=
  let unit := Ratio.scaled 1 10 e
  let below := (r.num * unit.den) / (r.den * unit.num)
  let twice := 2 * (r.num * unit.den) - 2 * below * (r.den * unit.num)
  let lowFits := d.covers (Ratio.scaled below 10 e)
  let highFits := d.covers (Ratio.scaled (below + 1) 10 e)
  let lowNearer := twice < r.den * unit.num ∨ (twice = r.den * unit.num ∧ below % 2 = 0)
  if lowFits ∧ (lowNearer ∨ highFits = false) then some below
  else if highFits then some (below + 1)
  else none

/-- Tries the grids from `count` digits on, `more` of them. -/
def shortestFrom (d : Dyadic) (r : Ratio) (point : Int) : (more : Nat) → (count : Nat) → Decimal
  | 0, _ => ⟨[], point⟩
  | more + 1, count =>
    match gridNeighbour? d r (point - count) with
    | some n =>
      let digits := Text.ofNat n
      ⟨Text.trimEnd (· == '0') digits, point - count + digits.length⟩
    | none => shortestFrom d r point more (count + 1)

/-- The decimal with the fewest digits that rounds to `d`, and of those the one
nearest to it. Zero has the digit zero. -/
def shortest (d : Dyadic) : Decimal :=
  if d.mantissa = 0 then ⟨['0'], 1⟩
  else
    let r := Ratio.scaled d.mantissa 2 d.exponent
    shortestFrom d r (pointOf r) 17 1

/-- How the digits of a number are written. -/
structure Layout where
  /-- The least exponent with the point among the digits. -/
  leastPlain : Int
  /-- The first exponent above those with the point among the digits. -/
  firstScientific : Int
  /-- What stands after the digits of a whole number. -/
  wholeMark : Text
  /-- The least number of digits of an exponent. -/
  exponentWidth : Nat
  infinity : Text
  notANumber : Text

namespace Layout

/-- The digits with the point after the first `point` of them. -/
def plain (l : Layout) (d : Decimal) : Text :=
  if d.point ≤ 0 then ['0', '.'] ++ List.replicate (-d.point).toNat '0' ++ d.digits
  else
    let n := d.point.toNat
    if d.digits.length ≤ n then
      d.digits ++ List.replicate (n - d.digits.length) '0' ++ l.wholeMark
    else d.digits.take n ++ '.' :: d.digits.drop n

/-- One digit, the others after a point, and the exponent with its sign. -/
def scientific (l : Layout) (d : Decimal) : Text :=
  let e := d.point - 1
  let size := Text.ofNat e.natAbs
  let tail := d.digits.drop 1
  d.digits.take 1 ++ (if tail.isEmpty then [] else '.' :: tail) ++
    'e' :: (if e < 0 then '-' else '+') ::
      (List.replicate (l.exponentWidth - size.length) '0' ++ size)

/-- A binary64 number by the digits of its shortest decimal. -/
def write (l : Layout) (x : Float) : Text :=
  match Dyadic.ofFloat? x with
  | none =>
    if x.isNaN then l.notANumber else (if signBit x then ['-'] else []) ++ l.infinity
  | some m =>
    let d := shortest m
    (if signBit x then ['-'] else []) ++
      (if l.leastPlain ≤ d.point - 1 ∧ d.point - 1 < l.firstScientific then l.plain d
       else l.scientific d)

end Layout
end DocTypes
