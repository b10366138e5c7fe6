import Scripting.Parser.Error
import Scripting.Syntax

/-!
Parsers take tokens off a stream. Looking at a part of the text that is no token is an error, so
every parser that looks further than it takes reports the first fault of the text.
-/

namespace Scripting

/-- A parser takes tokens from a stream or reports an error. -/
abbrev Parser := StateT Stream (Except SyntaxError)

namespace Parser

variable {α : Type}

def fault (f : SyntaxFault) (p : Position) : Parser α := fun _ => .error ⟨f, p⟩

/-- The next token, or `none` at the end of the input. -/
def look : Parser (Option Token) := fun s =>
  match s with
  | .token t _ => .ok (some t, s)
  | .finish _ => .ok (none, s)
  | .invalid e => .error ⟨.lexical e.fault, e.position⟩

def lookKind : Parser (Option Token.Kind) := do return (← look).map Token.kind

def advance : Parser Unit := fun s =>
  match s with
  | .token _ rest => .ok ((), rest)
  | .finish _ => .ok ((), s)
  | .invalid e => .error ⟨.lexical e.fault, e.position⟩

/-- Reports that something else was asked for. -/
def refuse (w : Wanted) : Parser α := fun s =>
  match s with
  | .token t _ => .error ⟨.mismatch w t.kind, t.position⟩
  | .finish p => .error ⟨.unfinished w, p⟩
  | .invalid e => .error ⟨.lexical e.fault, e.position⟩

def atMark (m : Mark) : Parser Bool := do
  match ← lookKind with
  | some (.mark k) => return k == m
  | _ => return false

def atKeyword (w : Keyword) : Parser Bool := do
  match ← lookKind with
  | some (.keyword k) => return k == w
  | _ => return false

/-- Takes a mark if it comes next, and tells whether it did. -/
def accept (m : Mark) : Parser Bool := do
  if ← atMark m then
    advance
    return true
  else return false

def acceptKeyword (w : Keyword) : Parser Bool := do
  if ← atKeyword w then
    advance
    return true
  else return false

/-- Takes a mark and gives its position. -/
def expect (m : Mark) : Parser Position := do
  match ← look with
  | some ⟨.mark k, p⟩ =>
    if k == m then
      advance
      return p
    else refuse (.token (.mark m))
  | _ => refuse (.token (.mark m))

def expectKeyword (w : Keyword) : Parser Unit := do
  if ← atKeyword w then advance else refuse (.token (.keyword w))

def expectName (w : Wanted) : Parser String := do
  match ← lookKind with
  | some (.name n) =>
    advance
    return n
  | _ => refuse w

def expectText : Parser String := do
  match ← lookKind with
  | some (.text s) =>
    advance
    return s
  | _ => refuse (.token .text)

/-- Whether the next two tokens are `fn` and a name. -/
def atFunction : Parser Bool := fun s =>
  match s with
  | .token ⟨.keyword .fn, _⟩ (.token ⟨.name _, _⟩ _) => .ok (true, s)
  | .invalid e => .error ⟨.lexical e.fault, e.position⟩
  | _ => .ok (false, s)

/-- Takes the semicolon that may end a statement. -/
def endStatement : Parser Unit := do
  let _ ← accept .semicolon

/-- Takes the type that may follow a name behind a colon; it has no meaning. -/
def typeNote : Parser Unit := do
  if ← accept .colon then
    match ← lookKind with
    | some (.name _) => advance
    | _ => return

/-- The parsers of the two recursive sorts, as the other parsers call them. Record literals are
left out of the headers of `if`, `while` and `for`, where a brace opens the body. -/
structure Sorts where
  expression : (records : Bool) → Parser Expr
  statement : Parser Stmt
  /-- The longest function in lines, if there is a limit. -/
  limit : Option Int
  /-- A bound on the number of tokens that are left. -/
  bound : Nat

/-- The loops below take a token in every round; this is their answer beyond the bound. -/
def exhausted : Parser α := fault .outOfSteps .start

def paramsRest : (bound : Nat) → Parser (List Name)
  | 0 => exhausted
  | bound + 1 => do
    if ← atMark .rparen then return []
    let p ← expectName .parameterName
    if ← accept .comma then return .text p :: (← paramsRest bound)
    if ← atMark .rparen then return [.text p]
    refuse .commaOrParen

def params (bound : Nat) : Parser (List Name) := do
  let _ ← expect .lparen
  let ps ← paramsRest bound
  let _ ← expect .rparen
  return ps

/-- Statements up to a closing brace or the end of the input; semicolons stand anywhere between. -/
def statements (r : Sorts) : (bound : Nat) → Parser (List Stmt)
  | 0 => exhausted
  | bound + 1 => do
    match ← lookKind with
    | none => return []
    | some (.mark .rbrace) => return []
    | some (.mark .semicolon) =>
      advance
      statements r bound
    | some _ =>
      let s ← r.statement
      return s :: (← statements r bound)

/-- Statements in braces, with the positions of the braces. -/
def braced (r : Sorts) : Parser (List Stmt × Position × Position) := do
  let first ← expect .lbrace
  let body ← statements r r.bound
  let last ← expect .rbrace
  return (body, first, last)

/-- Refuses a function with too many lines between its braces. -/
def checkLength (r : Sorts) (name : String) (first last : Position) : Parser Unit :=
  match r.limit with
  | none => pure ()
  | some limit =>
    let lines := last.line - first.line
    if limit < lines then fault (.tooLong name limit lines) first else pure ()

def functionBody (r : Sorts) (name : String) : Parser (List Stmt) := do
  let (body, first, last) ← braced r
  checkLength r name first last
  return body

def block (r : Sorts) : Parser (List Stmt) := do return (← braced r).1

end Parser

end Scripting
