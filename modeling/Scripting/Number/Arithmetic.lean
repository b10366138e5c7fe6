import Scripting.Number.Parts

/-!
Power and remainder with the cases in which they have no value: zero to a negative power, results
beyond the range, a negative base with a fractional power, the remainder of an infinity.
-/

namespace Scripting.Number

inductive PowerFault where
  | zeroBase
  | tooLarge
  | notReal
  deriving DecidableEq, Repr

/-- The magnitude raised to a power; an infinite result is beyond the range. -/
def magnitudePower (a b : Float) : Except PowerFault Float :=
  if a == 1 then .ok 1
  else
    let r := Float.pow a b
    if r.isInf then .error .tooLarge else .ok r

def infinitePower (a b : Float) : Float :=
  let odd := isOddInteger b
  if 0 < b then (if odd then a else a.abs)
  else if odd && isNegative a then -0.0 else 0

def powerToInfinity (a b : Float) : Float :=
  let m := a.abs
  if m == 1 then 1 else if (0 < b) == (1 < m) then b.abs else 0

def power (a b : Float) : Except PowerFault Float :=
  if b == 0 then .ok 1
  else if a.isNaN then .ok a
  else if b.isNaN then .ok (if a == 1 then 1 else b)
  else if b.isInf then .ok (powerToInfinity a b)
  else if a.isInf then .ok (infinitePower a b)
  else if a == 0 then
    if b < 0 then .error .zeroBase else .ok (if isOddInteger b then a else 0)
  else if a < 0 then
    if (integer? b).isNone then
      .error (if (Float.pow (-a) b).isInf then .tooLarge else .notReal)
    else (magnitudePower (-a) b).map fun r => if isOddInteger b then -r else r
  else magnitudePower a b

/-- The remainder of two finite numbers with the sign of the first, computed exactly. -/
def remainderParts (p q : Parts) : Parts :=
  let e := min p.exponent q.exponent
  let m := p.mantissa * twoTo (p.exponent - e).toNat
  let n := q.mantissa * twoTo (q.exponent - e).toNat
  ⟨p.negative, m % n, e⟩

/-- The remainder of a division by a number that is not zero; an infinite dividend has none. -/
def remainder? (x y : Float) : Option Float :=
  if x.isNaN || y.isNaN then some undefined
  else if x.isInf then none
  else match Parts.of? x, Parts.of? y with
    | some p, some q => some (remainderParts p q).toFloat
    | _, _ => some x

end Scripting.Number
