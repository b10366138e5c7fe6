import Scripting.Number.Reader
import Scripting.Parser.Error
import Scripting.Text.Letter

/-!
Terminals of the grammar and what they stand for at the front of a text. Names are spelt with ASCII
letters, digits and underscores, a point belongs to a numeral only between digits, and a text does
not go on behind a backslash at the end of a line.
-/

namespace Scripting.Grammar

/-- The classes of leaves. -/
inductive Terminal where
  | name
  | number
  | text
  | keyword (word : Keyword)
  | mark (mark : Mark)
  deriving DecidableEq, Repr

/-- The name of a mark in a list of expected terminals. -/
def markName : Mark → String
  | .semicolon => "SEMICOLON"
  | .assign => "EQUAL"
  | .colon => "COLON"
  | .lbrace => "LBRACE"
  | .rbrace => "RBRACE"
  | .comma => "COMMA"
  | .lparen => "LPAR"
  | .rparen => "RPAR"
  | .lbracket => "LSQB"
  | .rbracket => "RSQB"
  | .lt => "LESSTHAN"
  | .gt => "MORETHAN"
  | .plus => "PLUS"
  | .minus => "MINUS"
  | .star => "STAR"
  | .slash => "SLASH"
  | .percent => "PERCENT"
  | .caret => "CIRCUMFLEX"
  | .bang => "BANG"
  | .dot => "DOT"
  | .dots => "__ANON_0"
  | .or => "__ANON_1"
  | .and => "__ANON_2"
  | .eq => "__ANON_3"
  | .neq => "__ANON_4"
  | .le => "__ANON_5"
  | .ge => "__ANON_6"
  | .plusPlus => "__ANON_7"

def Terminal.listed : Terminal → String
  | name => "NAME"
  | number => "NUMBER"
  | text => "STRING"
  | keyword k => String.ofList (k.text.toList.map Char.toUpper)
  | mark m => markName m

/-- A piece of text that a terminal stands for. -/
structure Leaf where
  terminal : Terminal
  text : List Char
  position : Position

def isNameStart (c : Char) : Bool := c.isAlpha || c == '_'

def isNamePart (c : Char) : Bool := c.isAlphanum || c == '_'

def isGap (c : Char) : Bool := c == ' ' || c == '\t' || c == '\x0c' || c == '\r' || c == '\n'

/-- The number of characters in the blanks and comments at the front of a text. -/
def gapLength (inComment : Bool) : List Char → Nat
  | [] => 0
  | c :: rest =>
    if inComment then 1 + gapLength (c != '\n') rest
    else if isGap c then 1 + gapLength false rest
    else if c == '#' || (c == '/' && rest.head? == some '/') then 1 + gapLength true rest
    else 0

def numeralLength (cs : List Char) : Nat :=
  let whole := (cs.takeWhile Text.isDecimal).length
  match cs.drop whole with
  | '.' :: rest =>
    let fraction := (rest.takeWhile Text.isDecimal).length
    if fraction == 0 then whole else whole + 1 + fraction
  | _ => whole

/-- The number of characters up to and with the closing quote. -/
def textLength? : List Char → Option Nat
  | [] => none
  | '"' :: _ => some 1
  | '\\' :: c :: rest => if c == '\n' then none else (textLength? rest).map (· + 2)
  | c :: rest => if c == '\\' then none else (textLength? rest).map (· + 1)

/-- The terminal of a word. A reserved word stands for nothing, unless a letter that names do not
have goes on with it. -/
def wordTerminal? (word rest : List Char) : Option Terminal :=
  match Keyword.ofText? (String.ofList word) with
  | none => some .name
  | some k =>
    if k.isReserved then
      if (rest.head?.map Text.isNamePart).getD false then some .name else none
    else some (.keyword k)

/-- The terminal at the front of a text, and the number of its characters. -/
def leafAt? (cs : List Char) : Option (Terminal × Nat) :=
  match cs with
  | [] => none
  | c :: rest =>
    if isNameStart c then
      let word := cs.takeWhile isNamePart
      (wordTerminal? word (cs.drop word.length)).map fun t => (t, word.length)
    else if Text.isDecimal c then some (.number, numeralLength cs)
    else if c == '"' then (textLength? rest).map fun n => (.text, n + 1)
    else match rest.head?.bind (Mark.ofPair? c) with
      | some m => some (.mark m, 2)
      | none => (Mark.ofChar? c).map fun m => (.mark m, 1)

end Scripting.Grammar
