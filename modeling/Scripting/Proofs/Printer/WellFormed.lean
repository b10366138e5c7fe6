import Scripting.Lexer
import Scripting.Parser.Expression
import Scripting.Proofs.Syntax.Form

/-!
The programs that can be written down. Numbers are finite and have no sign, since a sign is an
operator; tuples and printed lists have two elements or more, and a tuple is not printed as a single
value; a block in the place of an expression has a statement, since empty braces are a dictionary;
names are spelled like names.
-/

namespace Scripting

/-- Whether a text is spelled like a name and is no keyword. -/
def isIdentifier (s : String) : Bool :=
  s.toList.head?.any Text.isNameStart && s.toList.all Text.isNamePart && (Keyword.ofText? s).isNone

namespace Name

def isText : Name → Bool
  | text _ => true
  | _ => false

def isWritten (n : Name) : Bool := n.isText && isIdentifier n.shown

end Name

/-- Whether a number is finite with a clear sign bit. -/
def Number.isUnsigned (x : Float) : Bool := (Parts.of? x).any fun p => !p.negative

def Expr.isTuple : Expr → Bool
  | tuple _ => true
  | _ => false

def Stmt.isFunction : Stmt → Bool
  | function _ _ _ => true
  | _ => false

/-- What parsers make of some numbers, texts and names: tuples and printed lists have two elements or
more, a block in the place of an expression has a statement, the methods of a type are functions, and
nothing stands in the place of something else. -/
def Form.made (number : Float → Bool) (text name : String → Bool) : Form where
  number := number
  text := text
  name n := n.isText && name n.shown
  path n := n.isText && text n.shown
  recordType n := Parser.isTypeName n.shown
  block ss := !ss.isEmpty
  several es := 2 ≤ es.length
  single e := !e.isTuple
  method := Stmt.isFunction
  invalid := false
  strays := false

/-- What is made of numbers without a sign, any texts, and names that are spelled like names. -/
abbrev Form.written : Form := .made Number.isUnsigned (fun _ => true) isIdentifier

namespace Form

variable {number : Float → Bool} {text name : String → Bool}

@[simp] theorem made_whiles : (made number text name).whiles = true := rfl

@[simp] theorem made_block {ss : List Stmt} :
    (made number text name).block ss = true ↔ ss ≠ [] := by
  simp [made]

@[simp] theorem made_several {es : List Expr} :
    (made number text name).several es = true ↔ 2 ≤ es.length := by
  simp [made]

@[simp] theorem made_single {e : Expr} :
    (made number text name).single e = true ↔ e.isTuple = false := by
  simp [made]

end Form

/-- Whether a program can be written down. -/
def Program.wellFormed (p : Program) : Bool := Form.written.stmts p

end Scripting
