import Scripting.Number.Reader
import Scripting.Text.Letter
import Scripting.Token

/-!
Splitting a text into tokens. `gapLength` measures the blanks and comments in front of a text and
`scan` reads the token at its front with the number of characters that it takes; a `Cursor` walks
through the text with these two. `Stream.ofText` is the whole text as a stream of tokens that ends
with the input or with the first part that is no token.
-/

namespace Scripting

open Text

/-- Why a part of a text is no token. -/
inductive LexFault where
  | unexpected (c : Char)
  | undoubled (c : Char)
  | badNumeral (text : String)
  | numberRange
  | unterminated
  deriving DecidableEq, Repr

def LexFault.message : LexFault → String
  | unexpected c => "unexpected character " ++ quoted c.toString
  | undoubled c =>
    "unexpected character " ++ ticked c.toString ++ " (did you mean "
      ++ ticked (c.toString ++ c.toString) ++ "?)"
  | badNumeral s => "invalid number literal " ++ ticked s
  | numberRange => "number literal out of range"
  | unterminated => "unterminated string literal"

structure LexError where
  fault : LexFault
  position : Position
  deriving DecidableEq, Repr

namespace Lexer

/-- The number of characters in the blanks and comments at the front of a text. A comment runs up
to the end of its line. -/
def gapLength (inComment : Bool) : List Char → Nat
  | [] => 0
  | c :: rest =>
    if inComment then 1 + gapLength (c != '\n') rest
    else if isBlank c then 1 + gapLength false rest
    else if c == '#' || (c == '/' && rest.head? == some '/') then 1 + gapLength true rest
    else 0

/-- The number of characters of the numeral at the front of a text. A point belongs to it unless
another point follows. -/
def numeralLength : List Char → Nat
  | [] => 0
  | c :: rest =>
    if isDigit c || (c == '.' && rest.head? != some '.') then 1 + numeralLength rest else 0

def numeralKind (cs : List Char) : Except LexFault Token.Kind :=
  match Number.numeral? cs with
  | none => .error (.badNumeral (String.ofList cs))
  | some x => if x.isInf then .error .numberRange else .ok (.number x)

/-- The text up to the next closing quote, escapes undone, with the number of characters up to and
with that quote. -/
def textBody? : List Char → Option (List Char × Nat)
  | [] => none
  | '"' :: _ => some ([], 1)
  | '\\' :: c :: rest => (textBody? rest).map fun (cs, n) => (unescape c :: cs, n + 2)
  | c :: rest => if c == '\\' then none else (textBody? rest).map fun (cs, n) => (c :: cs, n + 1)

def wordKind (s : String) : Token.Kind :=
  match Keyword.ofText? s with
  | some k => .keyword k
  | none => .name s

/-- The outcome of reading a token, and the number of characters taken in doing so. -/
structure Lexeme where
  outcome : Except LexFault Token.Kind
  length : Nat

/-- The mark at the front of a text, the longer one first. -/
def scanMark (c : Char) (rest : List Char) : Lexeme :=
  match rest.head?.bind (Mark.ofPair? c) with
  | some m => ⟨.ok (.mark m), 2⟩
  | none =>
    match Mark.ofChar? c with
    | some m => ⟨.ok (.mark m), 1⟩
    | none =>
      if c == '&' || c == '|' then ⟨.error (.undoubled c), 1⟩ else ⟨.error (.unexpected c), 0⟩

def scan (c : Char) (rest : List Char) : Lexeme :=
  if isDigit c then
    let n := numeralLength (c :: rest)
    ⟨numeralKind ((c :: rest).take n), n⟩
  else if isNameStart c then
    let word := (c :: rest).takeWhile isNamePart
    ⟨.ok (wordKind (String.ofList word)), word.length⟩
  else if c == '"' then
    match textBody? rest with
    | some (cs, n) => ⟨.ok (.text (String.ofList cs)), n + 1⟩
    | none => ⟨.error .unterminated, rest.length + 1⟩
  else scanMark c rest

end Lexer

/-- A place in a text: the characters before it, nearest first, those after it, and its position. -/
structure Cursor where
  before : List Char
  rest : List Char
  position : Position

namespace Cursor

def ofText (s : String) : Cursor := ⟨[], s.toList, .start⟩

def offset (c : Cursor) : Nat := c.before.length

/-- The cursor after the next `n` characters, or at the end. -/
def skip (c : Cursor) (n : Nat) : Cursor where
  before := (c.rest.take n).reverse ++ c.before
  rest := c.rest.drop n
  position := c.position.after (c.rest.take n)

def skipGap (c : Cursor) : Cursor := c.skip (Lexer.gapLength false c.rest)

/-- The character `k` places ahead. A place before the front of the text counts from its end; one
that lies before the front even so does not exist, which is the outer `none`. -/
def look? (c : Cursor) (k : Int) : Option (Option Char) :=
  let text := c.before.reverse ++ c.rest
  let place := (c.offset : Int) + k
  if 0 ≤ place then some text[place.toNat]?
  else if -(text.length : Int) ≤ place then some text[(place + text.length).toNat]?
  else none

inductive Found where
  | token (t : Token)
  | finish (position : Position)
  | invalid (e : LexError)

/-- Reads the next token and moves behind it. After an error the cursor stands behind what could
not be read; a character that starts no token is left unread. -/
def next (c : Cursor) : Found × Cursor :=
  let c := c.skipGap
  match c.rest with
  | [] => (.finish c.position, c)
  | d :: rest =>
    let lexeme := Lexer.scan d rest
    let found := match lexeme.outcome with
      | .ok kind => .token ⟨kind, c.position⟩
      | .error fault => .invalid ⟨fault, c.position⟩
    (found, c.skip lexeme.length)

end Cursor

/-- The tokens of a text, up to its end or to the first part that is no token. -/
inductive Stream where
  | token (t : Token) (rest : Stream)
  | finish (position : Position)
  | invalid (e : LexError)

namespace Stream

def length : Stream → Nat
  | token _ rest => rest.length + 1
  | _ => 0

/-- The tokens from a cursor on. Each takes a character, so the characters bound their number. -/
def ofCursor : (bound : Nat) → Cursor → Stream
  | 0, c => .finish c.position
  | bound + 1, c =>
    match c.next with
    | (.token t, c') => .token t (ofCursor bound c')
    | (.finish p, _) => .finish p
    | (.invalid e, _) => .invalid e

def ofText (s : String) : Stream :=
  let c := Cursor.ofText s
  ofCursor (c.rest.length + 1) c

/-- The tokens as a list with the position of the end, or the error that stops them. -/
def tokens : Stream → Except LexError (List Token × Position)
  | token t rest => (tokens rest).map fun (ts, p) => (t :: ts, p)
  | finish p => .ok ([], p)
  | invalid e => .error e

end Stream

end Scripting
