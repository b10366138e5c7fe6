import Scripting.Parser.Expression

/-!
Statements by their first token. A semicolon may end a simple statement.
-/

namespace Scripting.Parser

def binding (r : Sorts) (w : Wanted) : Parser (Name × Expr) := do
  let n ← expectName w
  typeNote
  let _ ← expect .assign
  let e ← r.expression true
  endStatement
  return (.text n, e)

def function (r : Sorts) : Parser Stmt := do
  expectKeyword .fn
  let n ← expectName .functionName
  let ps ← params r.bound
  typeNote
  return .function (.text n) ps (← functionBody r n)

def returned (r : Sorts) : Parser Stmt := do
  let value ← match ← lookKind with
    | none | some (.mark .semicolon) | some (.mark .rbrace) => pure none
    | some _ => some <$> r.expression true
  endStatement
  return .return_ value

def conditional (r : Sorts) : Parser Stmt := do
  let c ← r.expression false
  let t ← block r
  if ← acceptKeyword .else_ then
    if ← atKeyword .if_ then
      return .if_ c t (some [← r.statement])
    return .if_ c t (some (← block r))
  return .if_ c t none

def whileLoop (r : Sorts) : Parser Stmt := do
  let c ← r.expression false
  return .while_ c (← block r)

def forLoop (r : Sorts) : Parser Stmt := do
  let n ← expectName .loopVariable
  expectKeyword .in_
  let a ← r.expression false
  let _ ← expect .dots
  let b ← r.expression false
  return .for_ (.text n) a b (← block r)

/-- The statement that prints expressions. A single tuple prints its elements. -/
def printing : List Expr → Stmt
  | [.tuple es] => .printAll es
  | [e] => .print e
  | es => .printAll es

def printed (r : Sorts) : Parser Stmt := do
  let e ← r.expression true
  let es ← commaExpressions r r.bound
  endStatement
  return printing (e :: es)

/-- The fields and methods of a type, in any order, up to the closing brace. -/
def typeMembers (r : Sorts) (type : String) :
    (bound : Nat) → Parser (List (Name × Expr) × List Stmt)
  | 0 => exhausted
  | bound + 1 => do
    match ← lookKind with
    | some (.mark .rbrace) => return ([], [])
    | some (.mark .comma) | some (.mark .semicolon) =>
      advance
      typeMembers r type bound
    | some (.keyword .fn) =>
      let m ← function r
      let (fs, ms) ← typeMembers r type bound
      return (fs, m :: ms)
    | some (.name n) =>
      advance
      let _ ← expect .colon
      let e ← r.expression true
      let (fs, ms) ← typeMembers r type bound
      return ((.text n, e) :: fs, ms)
    | _ => refuse (.typeMember type)

def typeDeclaration (r : Sorts) : Parser Stmt := do
  let n ← expectName .typeName
  let _ ← expect .lbrace
  let (fs, ms) ← typeMembers r n r.bound
  let _ ← expect .rbrace
  return .type (.text n) fs ms

/-- A statement that starts with a keyword; `none` if the keyword starts an expression. -/
def keywordStatement? (r : Sorts) : Keyword → Option (Parser Stmt)
  | .let_ => some do
    let (n, e) ← binding r .variableName
    return .let_ n e
  | .const => some do
    let (n, e) ← binding r .constantName
    return .const n e
  | .return_ => some (returned r)
  | .if_ => some (conditional r)
  | .while_ => some (whileLoop r)
  | .for_ => some (forLoop r)
  | .import_ => some do
    let path ← expectText
    endStatement
    return .import_ (.text path)
  | .break_ => some do
    endStatement
    return .break_
  | .continue_ => some do
    endStatement
    return .continue_
  | .print => some (printed r)
  | .type => some (typeDeclaration r)
  | _ => none

def expressionStatement (r : Sorts) : Parser Stmt := do
  let e ← r.expression true
  endStatement
  return .expr e

def statementOf (r : Sorts) : Parser Stmt := do
  match ← look with
  | some ⟨.keyword k, p⟩ =>
    match keywordStatement? r k with
    | some rest =>
      advance
      rest
    | none =>
      if k.isReserved then fault (.reserved k) p
      else if ← atFunction then function r
      else expressionStatement r
  | some ⟨.mark .lbrace, _⟩ => return .block (← block r)
  | _ => expressionStatement r

mutual

/-- Expressions, nested at most `bound` deep. -/
def expression (limit : Option Int) : (bound : Nat) → (records : Bool) → Parser Expr
  | 0, _ => exhausted
  | bound + 1, records =>
    assignment ⟨expression limit bound, statement limit bound, limit, bound⟩ records

def statement (limit : Option Int) : (bound : Nat) → Parser Stmt
  | 0 => exhausted
  | bound + 1 => statementOf ⟨expression limit bound, statement limit bound, limit, bound⟩

end

/-- A whole program: statements up to the end of the input. -/
def program (r : Sorts) : (bound : Nat) → Parser Program
  | 0 => exhausted
  | bound + 1 => do
    match ← lookKind with
    | none => return []
    | some (.mark .semicolon) =>
      advance
      program r bound
    | some _ =>
      let s ← r.statement
      return s :: (← program r bound)

/-- Enough steps for a stream: every token opens at most two levels. -/
def enough (s : Stream) : Nat := 2 * s.length + 2

def parseStream (limit : Option Int) (s : Stream) : Except SyntaxError Program :=
  let n := enough s
  (program ⟨expression limit n, statement limit n, limit, n⟩ n s).map Prod.fst

end Scripting.Parser

namespace Scripting

/-- The longest function, in lines, unless another limit is set. -/
def defaultLimit : Int := 64

/-- Parses a text. No function may have more than `limit` lines between its braces. -/
def parse (limit : Option Int) (source : String) : Except SyntaxError Program :=
  Parser.parseStream limit (Stream.ofText source)

end Scripting
