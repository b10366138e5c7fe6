import Scripting.Number.Shortest

/-!
The two texts of a number. `plain` is what programs print: no exponent, integral values without a
point. `shown` is used in messages and stored trees: always a point or an exponent, and an exponent
of at least two digits outside of `10 ^ -4 … 10 ^ 16`.
-/

namespace Scripting.Number

def integerText (n : Int) : List Char :=
  match n with
  | .ofNat k => Nat.toDigits 10 k
  | .negSucc k => '-' :: Nat.toDigits 10 (k + 1)

/-- A decimal without exponent; `.0` is left out. -/
def positional (d : Decimal) : List Char :=
  let count : Int := d.digits.length
  if d.point ≤ 0 then '0' :: '.' :: List.replicate (-d.point).toNat '0' ++ d.digits
  else if count ≤ d.point then d.digits ++ List.replicate (d.point - count).toNat '0'
  else d.digits.take d.point.toNat ++ '.' :: d.digits.drop d.point.toNat

/-- A decimal with one digit before the point and an exponent with a sign and two digits or more. -/
def scientific (d : Decimal) : List Char :=
  let power := d.point - 1
  let digits := Nat.toDigits 10 power.natAbs
  let padded := if digits.length < 2 then '0' :: digits else digits
  let fraction := match d.digits.drop 1 with
    | [] => []
    | rest => '.' :: rest
  d.digits.take 1 ++ fraction ++ 'e' :: (if power < 0 then '-' else '+') :: padded

/-- The text of a number without parts. -/
def unboundedText (x : Float) : List Char :=
  if x.isNaN then "nan".toList else if isNegative x then "-inf".toList else "inf".toList

/-- The text that programs print for a number. -/
def plain (x : Float) : String :=
  String.ofList <| match Parts.of? x with
  | none => unboundedText x
  | some p =>
    if p.isIntegral then integerText p.truncate
    else (if p.negative then ['-'] else []) ++ positional (shortest p)

/-- The text of a number in messages and stored trees. -/
def shown (x : Float) : String :=
  String.ofList <| match Parts.of? x with
  | none => unboundedText x
  | some p =>
    let sign := if p.negative then ['-'] else []
    if p.mantissa == 0 then sign ++ "0.0".toList
    else
      let d := shortest p
      if -4 < d.point && d.point ≤ 16 then
        let body := positional d
        sign ++ (if body.contains '.' then body else body ++ ".0".toList)
      else sign ++ scientific d

end Scripting.Number
