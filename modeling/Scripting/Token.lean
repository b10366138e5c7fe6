import Scripting.Number.Text
import Scripting.Position
import Scripting.Text.Quoted

/-!
Tokens: numbers, texts, names, keywords and marks, each with the position of its first character.
`Token.Kind.describe` is how messages name a token that was found, `TokenClass.describe` how they
name one that was expected.
-/

namespace Scripting

/-- The words that are not names. The last seven are reserved without a meaning. -/
inductive Keyword where
  | true_ | false_ | let_ | const | fn | return_ | if_ | else_ | while_ | for_ | in_ | import_
  | print | type | break_ | continue_ | struct | enum | match_ | as_ | pub | mod | yield
  deriving DecidableEq, Repr

namespace Keyword

def all : List Keyword :=
  [true_, false_, let_, const, fn, return_, if_, else_, while_, for_, in_, import_, print, type,
    break_, continue_, struct, enum, match_, as_, pub, mod, yield]

def text : Keyword → String
  | true_ => "true"
  | false_ => "false"
  | let_ => "let"
  | const => "const"
  | fn => "fn"
  | return_ => "return"
  | if_ => "if"
  | else_ => "else"
  | while_ => "while"
  | for_ => "for"
  | in_ => "in"
  | import_ => "import"
  | print => "print"
  | type => "type"
  | break_ => "break"
  | continue_ => "continue"
  | struct => "struct"
  | enum => "enum"
  | match_ => "match"
  | as_ => "as"
  | pub => "pub"
  | mod => "mod"
  | yield => "yield"

def ofText? (s : String) : Option Keyword := all.find? (·.text == s)

def isReserved : Keyword → Bool
  | struct | enum | match_ | as_ | pub | mod | yield => true
  | _ => false

theorem mem_all (k : Keyword) : k ∈ all := by cases k <;> decide

end Keyword

inductive Mark where
  | lparen | rparen | lbrace | rbrace | lbracket | rbracket | comma | semicolon | colon | dot
  | dots | assign | plus | plusPlus | minus | star | slash | percent | caret | bang | eq | neq
  | lt | le | gt | ge | and | or
  deriving DecidableEq, Repr

namespace Mark

def all : List Mark :=
  [lparen, rparen, lbrace, rbrace, lbracket, rbracket, comma, semicolon, colon, dot, dots, assign,
    plus, plusPlus, minus, star, slash, percent, caret, bang, eq, neq, lt, le, gt, ge, and, or]

def text : Mark → String
  | lparen => "("
  | rparen => ")"
  | lbrace => "\x7b"
  | rbrace => "\x7d"
  | lbracket => "["
  | rbracket => "]"
  | comma => ","
  | semicolon => ";"
  | colon => ":"
  | dot => "."
  | dots => ".."
  | assign => "="
  | plus => "+"
  | plusPlus => "++"
  | minus => "-"
  | star => "*"
  | slash => "/"
  | percent => "%"
  | caret => "^"
  | bang => "!"
  | eq => "=="
  | neq => "!="
  | lt => "<"
  | le => "<="
  | gt => ">"
  | ge => ">="
  | and => "&&"
  | or => "||"

theorem mem_all (m : Mark) : m ∈ all := by cases m <;> decide

/-- The mark of two characters. -/
def ofPair? (c d : Char) : Option Mark :=
  match c, d with
  | '=', '=' => some eq
  | '!', '=' => some neq
  | '<', '=' => some le
  | '>', '=' => some ge
  | '.', '.' => some dots
  | '+', '+' => some plusPlus
  | '&', '&' => some and
  | '|', '|' => some or
  | _, _ => none

def ofChar? : Char → Option Mark
  | '(' => some lparen
  | ')' => some rparen
  | '\x7b' => some lbrace
  | '\x7d' => some rbrace
  | '[' => some lbracket
  | ']' => some rbracket
  | ',' => some comma
  | ';' => some semicolon
  | ':' => some colon
  | '.' => some dot
  | '=' => some assign
  | '+' => some plus
  | '-' => some minus
  | '*' => some star
  | '/' => some slash
  | '%' => some percent
  | '^' => some caret
  | '!' => some bang
  | '<' => some lt
  | '>' => some gt
  | _ => none

end Mark

inductive Token.Kind where
  | number (value : Float)
  | text (value : String)
  | name (value : String)
  | keyword (word : Keyword)
  | mark (mark : Mark)

structure Token where
  kind : Token.Kind
  position : Position

/-- A text between single quotes, without escapes. -/
def ticked (s : String) : String := "'" ++ s ++ "'"

/-- How a message names a token that was found. -/
def Token.Kind.describe : Token.Kind → String
  | number x => "number " ++ Number.shown x
  | text s => "string " ++ Text.quoted s
  | name s => "identifier " ++ ticked s
  | keyword k => ticked k.text
  | mark m => ticked m.text

/-- The kinds of input that a message can ask for: tokens by kind, the end of the input, and input
that is no token. -/
inductive TokenClass where
  | number
  | text
  | name
  | keyword (word : Keyword)
  | mark (mark : Mark)
  | finish
  | invalid
  deriving DecidableEq, Repr

def TokenClass.describe : TokenClass → String
  | number => "number"
  | text => "string"
  | name => "an identifier"
  | keyword k => ticked k.text
  | mark m => ticked m.text
  | finish => "end of input"
  | invalid => "error"

end Scripting
