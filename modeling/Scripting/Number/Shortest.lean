import Scripting.Number.Parts

/-!
The fewest decimal digits that read back. A finite number stands for the interval of reals that
round to it; `shortest` tries 1, 2, … 17 digits and takes the first grid of decimals with a point
in that interval, of two such points the nearer, of two equally near the even one.
-/

namespace Scripting

/-- The positive decimal `0.d₁d₂… · 10 ^ point`. -/
structure Decimal where
  digits : List Char
  point : Int
  deriving DecidableEq, Repr

def tenTo (k : Nat) : Nat := Nat.pow 10 k

namespace Shortest

/-- A positive number `mantissa · 2 ^ exponent` with the ends of its interval, in quarter units:
the ends are `low · 2 ^ (exponent - 2)` and `high · 2 ^ (exponent - 2)`. -/
structure Interval where
  mantissa : Nat
  exponent : Int
  low : Nat
  high : Nat
  closed : Bool

/-- The interval of a positive number. Below a power of two the neighbours are twice as dense. -/
def Interval.of (p : Parts) : Interval where
  mantissa := p.mantissa
  exponent := p.exponent
  low := 4 * p.mantissa - (if p.mantissa == twoTo 52 && p.exponent != -1074 then 1 else 2)
  high := 4 * p.mantissa + 2
  closed := p.mantissa % 2 == 0

/-- The decimal `d · 10 ^ power` in a scale that the interval shares. -/
def scaleDecimal (exponent power : Int) (d : Nat) : Nat :=
  d * tenTo power.toNat * twoTo (2 - exponent).toNat

/-- The binary `b · 2 ^ (exponent - 2)` in the same scale. -/
def scaleBinary (exponent power : Int) (b : Nat) : Nat :=
  b * twoTo (exponent - 2).toNat * tenTo (-power).toNat

/-- Whether the decimal `d · 10 ^ power` rounds to the number of the interval. -/
def Interval.contains (i : Interval) (power : Int) (d : Nat) : Bool :=
  let x := scaleDecimal i.exponent power d
  let low := scaleBinary i.exponent power i.low
  let high := scaleBinary i.exponent power i.high
  if i.closed then low ≤ x && x ≤ high else low < x && x < high

def below (p : Parts) (power : Int) : Bool :=
  scaleBinary p.exponent power (4 * p.mantissa) < scaleDecimal p.exponent power 1

/-- The `power` for which the number is at least `10 ^ (power - 1)` and less than `10 ^ power`: the
binary logarithm leaves three candidates. -/
def decimalPower (p : Parts) : Int :=
  let low := (((p.mantissa.log2 : Int) + p.exponent) * 30103).fdiv 100000
  if below p low then low else if below p (low + 1) then low + 1 else low + 2

/-- The point of the interval on the grid of decimals with `count` digits, if there is one. -/
def onGrid? (i : Interval) (top : Int) (count : Nat) : Option Nat :=
  let power := top - count
  let unit := scaleDecimal i.exponent power 1
  let value := scaleBinary i.exponent power (4 * i.mantissa)
  let below := value / unit
  let rest := value % unit
  let nearer :=
    if 2 * rest < unit then below
    else if unit < 2 * rest then below + 1
    else if below % 2 == 0 then below else below + 1
  let farther := if nearer == below then below + 1 else below
  if i.contains power nearer then some nearer
  else if i.contains power farther then some farther
  else none

/-- A point of the first of the grids with `count`, `count + 1`, … digits that meets the interval,
with the power of ten that it counts. -/
def search (i : Interval) (top : Int) : (steps count : Nat) → Nat × Int
  | 0, count => (0, top - count)
  | steps + 1, count =>
    match onGrid? i top count with
    | some d => (d, top - count)
    | none => search i top steps (count + 1)

end Shortest

open Shortest in
/-- The shortest decimal of a positive number. Seventeen digits always suffice. -/
def shortest (p : Parts) : Decimal :=
  let (d, power) := search (Interval.of p) (decimalPower p) 17 1
  let digits := Nat.toDigits 10 d
  ⟨(digits.reverse.dropWhile (· == '0')).reverse, digits.length + power⟩

end Scripting
