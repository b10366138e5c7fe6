import Scripting.Json
import Scripting.Number.Reader

/-!
Reading stored data. The reader takes the usual notation together with `NaN`, `Infinity` and
`-Infinity`; of two members with one name the later value counts, in the place of the earlier. The
first fault from the left is the answer.
-/

namespace Scripting.Json.Reader

inductive Fault where
  | malformed
  /-- An integer with more digits than can be read. -/
  | integerTooLong
  deriving DecidableEq, Repr

/-- The blanks between the parts of stored data. -/
def isGap (c : Char) : Bool := c == ' ' || c == '\t' || c == '\n' || c == '\r'

def skipGap (cs : List Char) : List Char := cs.dropWhile isGap

/-- What is left behind a given word. -/
def after? (word : String) (cs : List Char) : Option (List Char) :=
  if word.toList.isPrefixOf cs then some (cs.drop word.length) else none

def isAsciiDigit (c : Char) : Bool := '0' ≤ c && c ≤ '9'

def digitsValue (cs : List Char) : Nat := cs.foldl (fun n c => 10 * n + (c.toNat - '0'.toNat)) 0

def digits (cs : List Char) : List Char × List Char :=
  (cs.takeWhile isAsciiDigit, cs.dropWhile isAsciiDigit)

/-- The fraction at the front of a text: a point and at least one digit. -/
def fraction (cs : List Char) : List Char × List Char :=
  match cs with
  | '.' :: rest => if (digits rest).1.isEmpty then ([], cs) else digits rest
  | _ => ([], cs)

def exponent? (cs : List Char) : Option Int × List Char :=
  match cs with
  | c :: rest =>
    if c == 'e' || c == 'E' then
      let (negative, unsigned) := Number.splitSign rest
      let (ds, rest) := digits unsigned
      if ds.isEmpty then (none, cs)
      else (some (if negative then -(digitsValue ds : Int) else digitsValue ds), rest)
    else (none, cs)
  | [] => (none, cs)

/-- The number at the front of a text. A leading zero stands alone. -/
def number (cs : List Char) : Except Fault (Json × List Char) :=
  let (negative, unsigned) := match cs with
    | '-' :: rest => (true, rest)
    | _ => (false, cs)
  let (whole, rest) := match unsigned with
    | '0' :: rest => (['0'], rest)
    | _ => digits unsigned
  let (part, rest) := fraction rest
  let (power, rest) := exponent? rest
  if whole.isEmpty then .error .malformed
  else if part.isEmpty && power.isNone then
    if Number.longestInteger < whole.length then .error .integerTooLong
    else
      let n : Int := digitsValue whole
      .ok (.int (if negative then -n else n), rest)
  else
    let x := Number.ofDecimal (digitsValue (whole ++ part)) (power.getD 0 - part.length)
    .ok (.float (if negative then -x else x), rest)

def words : List (String × Json) :=
  [("null", .null), ("true", .bool true), ("false", .bool false),
    ("NaN", .float Number.undefined), ("Infinity", .float Number.infinity),
    ("-Infinity", .float (-Number.infinity))]

def scalar (cs : List Char) : Except Fault (Json × List Char) :=
  match words.findSome? fun (word, v) => (after? word cs).map fun rest => (v, rest) with
  | some found => .ok found
  | none => number cs

def hexValue? (c : Char) : Option Nat :=
  if '0' ≤ c && c ≤ '9' then some (c.toNat - '0'.toNat)
  else if 'a' ≤ c && c ≤ 'f' then some (c.toNat - 'a'.toNat + 10)
  else if 'A' ≤ c && c ≤ 'F' then some (c.toNat - 'A'.toNat + 10)
  else none

def unit? : List Char → Option (Nat × List Char)
  | a :: b :: c :: d :: rest => do
    let a ← hexValue? a
    let b ← hexValue? b
    let c ← hexValue? c
    let d ← hexValue? d
    some (((a * 16 + b) * 16 + c) * 16 + d, rest)
  | _ => none

/-- The character behind `\u`; two escapes may spell one character. A half of such a pair that
stands alone reads as the replacement character. -/
def escapedUnit? (cs : List Char) : Option (Char × List Char) := do
  let (high, rest) ← unit? cs
  if 0xD800 ≤ high && high < 0xDC00 then
    match rest with
    | '\\' :: 'u' :: more =>
      let (low, rest') ← unit? more
      if 0xDC00 ≤ low && low < 0xE000 then
        some (Char.ofNat (0x10000 + (high - 0xD800) * 0x400 + (low - 0xDC00)), rest')
      else some (Char.ofNat 0xFFFD, rest)
    | _ => some (Char.ofNat 0xFFFD, rest)
  else if 0xDC00 ≤ high && high < 0xE000 then some (Char.ofNat 0xFFFD, rest)
  else some (Char.ofNat high, rest)

def shortEscape? : Char → Option Char
  | '"' => some '"'
  | '\\' => some '\\'
  | '/' => some '/'
  | 'b' => some '\x08'
  | 'f' => some '\x0c'
  | 'n' => some '\n'
  | 'r' => some '\r'
  | 't' => some '\t'
  | _ => none

/-- The rest of a text behind its opening quote, with what follows its closing quote. -/
def textBody : (bound : Nat) → (read : List Char) → List Char →
    Except Fault (String × List Char)
  | 0, _, _ => .error .malformed
  | _ + 1, _, [] => .error .malformed
  | bound + 1, read, c :: rest =>
    if c == '"' then .ok (String.ofList read.reverse, rest)
    else if c == '\\' then
      match rest with
      | 'u' :: more =>
        match escapedUnit? more with
        | some (d, rest) => textBody bound (d :: read) rest
        | none => .error .malformed
      | e :: more =>
        match shortEscape? e with
        | some d => textBody bound (d :: read) more
        | none => .error .malformed
      | [] => .error .malformed
    else if c.toNat < 0x20 then .error .malformed
    else textBody bound (c :: read) rest

def text (cs : List Char) : Except Fault (String × List Char) := textBody (cs.length + 1) [] cs

/-- The name of a member with the colon behind it. -/
def memberName (cs : List Char) : Except Fault (String × List Char) :=
  match skipGap cs with
  | '"' :: rest => do
    let (name, rest) ← text rest
    match skipGap rest with
    | ':' :: rest => .ok (name, rest)
    | _ => .error .malformed
  | _ => .error .malformed

mutual

def value : (bound : Nat) → List Char → Except Fault (Json × List Char)
  | 0, _ => .error .malformed
  | bound + 1, cs =>
    match cs with
    | '"' :: rest => (text rest).map fun (s, rest) => (.text s, rest)
    | '[' :: rest =>
      match skipGap rest with
      | ']' :: rest => .ok (.array [], rest)
      | cs => items bound [] cs
    | '\x7b' :: rest =>
      match skipGap rest with
      | '\x7d' :: rest => .ok (.object [], rest)
      | cs => members bound [] cs
    | cs => scalar cs

/-- The rest of an array behind the items read so far, latest first. -/
def items : (bound : Nat) → (read : List Json) → List Char →
    Except Fault (Json × List Char)
  | 0, _, _ => .error .malformed
  | bound + 1, read, cs => do
    let (v, rest) ← value bound (skipGap cs)
    match skipGap rest with
    | ',' :: rest => items bound (v :: read) rest
    | ']' :: rest => .ok (.array (v :: read).reverse, rest)
    | _ => .error .malformed

def members : (bound : Nat) → (read : List (String × Json)) → List Char →
    Except Fault (Json × List Char)
  | 0, _, _ => .error .malformed
  | bound + 1, read, cs => do
    let (name, rest) ← memberName cs
    let (v, rest) ← value bound (skipGap rest)
    match skipGap rest with
    | ',' :: rest => members bound (Named.put name v read) rest
    | '\x7d' :: rest => .ok (.object (Named.put name v read), rest)
    | _ => .error .malformed

end

/-- The value that a whole text holds. -/
def read (s : String) : Except Fault Json :=
  let cs := skipGap s.toList
  match value (2 * cs.length + 2) cs with
  | .ok (v, rest) => if (skipGap rest).isEmpty then .ok v else .error .malformed
  | .error e => .error e

end Scripting.Json.Reader
