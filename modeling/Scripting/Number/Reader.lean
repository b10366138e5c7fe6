import Scripting.Number.Text
import Scripting.Text.Blank
import Scripting.Text.Digit

/-!
Reading numbers. A decimal numeral is cut into digits and powers of ten and rounded to the nearest
number once. Three readers share it: numerals of programs and of the conversion from text
(`numeral?`), the conversion from text with its sign (`signed?`), and the liberal reader of stored
trees with exponents, underscores and the names of infinity (`liberal?`). Integers of a command
line have a reader of their own (`wholeNumber?`).
-/

namespace Scripting.Number

open Text

/-- The number nearest to `digits · 10 ^ power`; far outside the range the answer is known. -/
def ofDecimal (digits : Nat) (power : Int) : Float :=
  let size : Int := (Nat.toDigits 10 digits).length
  if digits == 0 then 0
  else if 400 < size + power then infinity
  else if size + power < -400 then 0
  else Float.ofScientific digits (power < 0) power.natAbs

/-- The value of a string of decimal digits of any script. -/
def digitsValue (cs : List Char) : Nat := cs.foldl (fun n c => 10 * n + (decimal? c).getD 0) 0

/-- Reads `digits`, `digits.`, `digits.digits` or `.digits`. -/
def numeral? (cs : List Char) : Option Float :=
  let whole := cs.takeWhile isDecimal
  match cs.dropWhile isDecimal with
  | [] => if whole.isEmpty then none else some (ofDecimal (digitsValue whole) 0)
  | '.' :: fraction =>
    if fraction.all isDecimal && !(whole.isEmpty && fraction.isEmpty) then
      some (ofDecimal (digitsValue (whole ++ fraction)) (-(fraction.length : Int)))
    else none
  | _ => none

/-- Splits a sign off: whether it is a minus, and the rest. -/
def splitSign : List Char → Bool × List Char
  | '-' :: rest => (true, rest)
  | '+' :: rest => (false, rest)
  | cs => (false, cs)

def signed? (cs : List Char) : Option Float :=
  let (negative, rest) := splitSign cs
  (numeral? rest).map fun x => if negative then -x else x

def exponent? : List Char → Option Int
  | [] => some 0
  | c :: rest =>
    if c == 'e' || c == 'E' then
      let (negative, digits) := splitSign rest
      if digits.isEmpty || !digits.all isDecimal then none
      else some (if negative then -(digitsValue digits : Int) else digitsValue digits)
    else none

/-- Removes underscores, each of which stands between two digits. -/
def joinDigits? : List Char → Option (List Char)
  | [] => some []
  | c :: '_' :: d :: rest =>
    if isDecimal c && isDecimal d then (joinDigits? (d :: rest)).map (c :: ·) else none
  | c :: rest => if c == '_' then none else (joinDigits? rest).map (c :: ·)

def scientific? (cs : List Char) : Option Float :=
  let whole := cs.takeWhile isDecimal
  let (fraction, rest) := match cs.dropWhile isDecimal with
    | '.' :: rest => (rest.takeWhile isDecimal, rest.dropWhile isDecimal)
    | rest => ([], rest)
  if whole.isEmpty && fraction.isEmpty then none
  else (exponent? rest).map fun e =>
    ofDecimal (digitsValue (whole ++ fraction)) (e - fraction.length)

/-- Reads a number in any usual spelling, blanks around it included. -/
def liberal? (cs : List Char) : Option Float :=
  let (negative, rest) := splitSign (unpad cs)
  let name := String.ofList (rest.map Char.toLower)
  let magnitude :=
    if name == "inf" || name == "infinity" then some infinity
    else if name == "nan" then some undefined
    else (joinDigits? rest).bind scientific?
  magnitude.map fun x => if negative then -x else x

/-- The most digits that an integer may have when it is read. -/
def longestInteger : Nat := 4300

/-- Reads an integer, with a sign, underscores between digits and blanks around it. -/
def wholeNumber? (cs : List Char) : Option Int :=
  let (negative, rest) := splitSign (unpad cs)
  match joinDigits? rest with
  | none | some [] => none
  | some digits =>
    if !digits.all isDecimal || longestInteger < digits.length then none
    else some (if negative then -(digitsValue digits : Int) else digitsValue digits)

end Scripting.Number
