/-!
Numbers are binary floating-point values. A finite one is `± mantissa · 2 ^ exponent`; `Parts.of?`
takes it apart and `Parts.toFloat` puts it together, both exactly. Truncation to an integer and the
test for integral values are read off the parts.
-/

namespace Scripting

def twoTo (k : Nat) : Nat := Nat.pow 2 k

/-- A finite number as sign, mantissa and power of two. -/
structure Parts where
  negative : Bool
  mantissa : Nat
  exponent : Int
  deriving DecidableEq, Repr

namespace Parts

/-- The parts of a finite number; the infinities and the undefined number have none. -/
def of? (x : Float) : Option Parts :=
  let bits : Nat := x.toBits.toNat
  let negative := bits / twoTo 63 == 1
  let biased : Nat := bits / twoTo 52 % twoTo 11
  let fraction : Nat := bits % twoTo 52
  if biased == twoTo 11 - 1 then none
  else if biased == 0 then some ⟨negative, fraction, -1074⟩
  else some ⟨negative, fraction + twoTo 52, (biased : Int) - 1075⟩

/-- The number with the given parts, when it is one: the mantissa has at most 53 bits and the
exponent is at least that of the smallest positive number. -/
def toFloat (p : Parts) : Float :=
  let sign : Nat := if p.negative then twoTo 63 else 0
  let top := p.mantissa.log2
  if p.mantissa == 0 then Float.ofBits (UInt64.ofNat sign)
  else if (top : Int) + p.exponent < -1022 then
    Float.ofBits (UInt64.ofNat (sign + p.mantissa * twoTo (p.exponent + 1074).toNat))
  else
    let biased := ((top : Int) + p.exponent + 1023).toNat
    let fraction := p.mantissa * twoTo (52 - top) - twoTo 52
    Float.ofBits (UInt64.ofNat (sign + biased * twoTo 52 + fraction))

/-- The whole part of the magnitude. -/
def floor (p : Parts) : Nat :=
  if p.exponent < 0 then p.mantissa / twoTo (-p.exponent).toNat
  else p.mantissa * twoTo p.exponent.toNat

def isIntegral (p : Parts) : Bool :=
  if p.exponent < 0 then p.mantissa % twoTo (-p.exponent).toNat == 0 else true

/-- The number cut off toward zero. -/
def truncate (p : Parts) : Int := if p.negative then -(p.floor : Int) else p.floor

end Parts

namespace Number

/-- Whether a number carries a minus sign, zeros included. -/
def isNegative (x : Float) : Bool := x.toBits.toNat / twoTo 63 == 1

def truncate? (x : Float) : Option Int := (Parts.of? x).map Parts.truncate

/-- The value of a finite number without fractional part. -/
def integer? (x : Float) : Option Int :=
  match Parts.of? x with
  | some p => if p.isIntegral then some p.truncate else none
  | none => none

def isOddInteger (x : Float) : Bool :=
  match integer? x with
  | some n => n % 2 == 1
  | none => false

def infinity : Float := Float.ofBits 0x7FF0000000000000

def undefined : Float := Float.ofBits 0x7FF8000000000000

end Number

end Scripting
