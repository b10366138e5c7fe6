/-!
The operators of the language: their spelling in programs and in stored trees, and their labels in
messages.
-/

namespace Scripting

inductive BinaryOp where
  | add | sub | mul | div | pow | mod | eq | neq | lt | le | gt | ge | and | or | concat
  deriving DecidableEq, Repr

namespace BinaryOp

def all : List BinaryOp :=
  [add, sub, mul, div, pow, mod, eq, neq, lt, le, gt, ge, and, or, concat]

theorem mem_all (o : BinaryOp) : o ∈ all := by cases o <;> decide

def symbol : BinaryOp → String
  | add => "+"
  | sub => "-"
  | mul => "*"
  | div => "/"
  | pow => "^"
  | mod => "%"
  | eq => "=="
  | neq => "!="
  | lt => "<"
  | le => "<="
  | gt => ">"
  | ge => ">="
  | and => "&&"
  | or => "||"
  | concat => "++"

/-- The label of an operator in messages. -/
def label : BinaryOp → String
  | add => "ADD"
  | sub => "SUB"
  | mul => "MUL"
  | div => "DIV"
  | pow => "POW"
  | mod => "MOD"
  | eq => "EQ"
  | neq => "NEQ"
  | lt => "LT"
  | le => "LTE"
  | gt => "GT"
  | ge => "GTE"
  | and => "AND"
  | or => "OR"
  | concat => "CONCAT"

def ofSymbol? (s : String) : Option BinaryOp := all.find? (·.symbol == s)

end BinaryOp

inductive UnaryOp where
  | neg | not
  deriving DecidableEq, Repr

namespace UnaryOp

def all : List UnaryOp := [neg, not]

theorem mem_all (o : UnaryOp) : o ∈ all := by cases o <;> decide

def symbol : UnaryOp → String
  | neg => "-"
  | not => "!"

/-- The label of an operator in messages. -/
def label : UnaryOp → String
  | neg => "NEG"
  | not => "NOT"

def ofSymbol? (s : String) : Option UnaryOp := all.find? (·.symbol == s)

end UnaryOp

end Scripting
