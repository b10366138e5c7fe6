import Scripting.Parser.Basic

/-!
Expressions, lowest precedence first: assignment, `||`, `&&`, equality, comparison, sums, products,
powers, signs, calls with field access and indexing, primaries. Powers and assignments group to the
right, all other levels to the left.
-/

namespace Scripting.Parser

/-- Expressions with commas between them, up to a closing mark that is left unread. A comma may
stand before the mark. -/
def expressions (r : Sorts) (closing : Mark) : (bound : Nat) → Parser (List Expr)
  | 0 => exhausted
  | bound + 1 => do
    if ← atMark closing then return []
    let e ← r.expression true
    if ← accept .comma then return e :: (← expressions r closing bound)
    return [e]

def recordFields (r : Sorts) : (bound : Nat) → Parser (List (Name × Expr))
  | 0 => exhausted
  | bound + 1 => do
    if ← atMark .rbrace then return []
    let n ← expectName .fieldName
    let _ ← expect .colon
    let e ← r.expression true
    if ← accept .comma then return (.text n, e) :: (← recordFields r bound)
    return [(.text n, e)]

def commaExpressions (r : Sorts) : (bound : Nat) → Parser (List Expr)
  | 0 => exhausted
  | bound + 1 => do
    if ← accept .comma then
      let e ← r.expression true
      return e :: (← commaExpressions r bound)
    return []

/-- The further pairs of a dictionary, each behind a comma; a last comma may stand alone. -/
def commaPairs (r : Sorts) : (bound : Nat) → Parser (List (Expr × Expr))
  | 0 => exhausted
  | bound + 1 => do
    if ← accept .comma then
      if ← atMark .rbrace then return []
      let k ← r.expression true
      let _ ← expect .colon
      let v ← r.expression true
      return (k, v) :: (← commaPairs r bound)
    return []

def group (r : Sorts) : Parser Expr := do
  let _ ← expect .lparen
  let e ← r.expression true
  match ← commaExpressions r r.bound with
  | [] =>
    let _ ← expect .rparen
    return e
  | es =>
    let _ ← expect .rparen
    return .tuple (e :: es)

def list (r : Sorts) : Parser Expr := do
  let _ ← expect .lbracket
  let es ← expressions r .rbracket r.bound
  let _ ← expect .rbracket
  return .list es

def record (r : Sorts) (type : String) : Parser Expr := do
  let _ ← expect .lbrace
  let fs ← recordFields r r.bound
  let _ ← expect .rbrace
  return .record (.text type) fs

/-- Whether a token starts a statement that is no expression. -/
def startsStatement : Token.Kind → Bool
  | .mark .lbrace => true
  | .keyword k =>
    match k with
    | .let_ | .const | .return_ | .if_ | .while_ | .for_ | .import_ | .break_ | .continue_ | .print
    | .type => true
    | _ => false
  | _ => false

def atStatement : Parser Bool := do
  match ← lookKind with
  | some k => if startsStatement k then return true else atFunction
  | none => return false

/-- A brace in the place of an expression opens a dictionary or a block. The first expression
decides: a dictionary has a colon behind it. -/
def brace (r : Sorts) : Parser Expr := do
  let _ ← expect .lbrace
  if ← accept .rbrace then return .dict []
  if ← atStatement then
    let ss ← statements r r.bound
    let _ ← expect .rbrace
    return .block ss
  let first ← r.expression true
  if ← accept .colon then
    let v ← r.expression true
    let ps ← commaPairs r r.bound
    let _ ← expect .rbrace
    return .dict ((first, v) :: ps)
  endStatement
  let ss ← statements r r.bound
  let _ ← expect .rbrace
  return .block (.expr first :: ss)

/-- A function literal; its body is a block or a single statement. -/
def lambda (r : Sorts) : Parser Expr := do
  expectKeyword .fn
  let ps ← params r.bound
  typeNote
  if ← atMark .lbrace then
    return .lambda ps (← functionBody r "<lambda>")
  return .lambda ps [← r.statement]

def isTypeName (n : String) : Bool := (n.toList.head?.map Text.isCapital).getD false

/-- The expressions that no operator takes apart. -/
def primary (r : Sorts) (records : Bool) : Parser Expr := do
  match ← lookKind with
  | some (.number x) =>
    advance
    return .number x
  | some (.text s) =>
    advance
    return .text s
  | some (.keyword .true_) =>
    advance
    return .bool true
  | some (.keyword .false_) =>
    advance
    return .bool false
  | some (.name n) =>
    advance
    if records && isTypeName n then
      if ← atMark .lbrace then record r n else return .name (.text n)
    else return .name (.text n)
  | some (.mark .lparen) => group r
  | some (.mark .lbracket) => list r
  | some (.mark .lbrace) => brace r
  | some (.keyword .fn) => lambda r
  | _ => refuse .expression

/-- Calls, field accesses and indexings behind an expression. -/
def trailers (r : Sorts) : (bound : Nat) → Expr → Parser Expr
  | 0, _ => exhausted
  | bound + 1, e => do
    match ← lookKind with
    | some (.mark .lparen) =>
      advance
      let args ← expressions r .rparen r.bound
      let _ ← expect .rparen
      trailers r bound (.call e args)
    | some (.mark .dot) =>
      advance
      let n ← expectName .memberName
      trailers r bound (.field e (.text n))
    | some (.mark .lbracket) =>
      advance
      let i ← r.expression true
      let _ ← expect .rbracket
      trailers r bound (.index e i)
    | _ => return e

def trailed (r : Sorts) (records : Bool) : Parser Expr := do
  trailers r r.bound (← primary r records)

def signed (r : Sorts) (records : Bool) : (bound : Nat) → Parser Expr
  | 0 => exhausted
  | bound + 1 => do
    if ← accept .minus then return .unary .neg (← signed r records bound)
    if ← accept .bang then return .unary .not (← signed r records bound)
    trailed r records

/-- Powers, which group to the right. -/
def power (r : Sorts) (records : Bool) : (bound : Nat) → Parser Expr
  | 0 => exhausted
  | bound + 1 => do
    let e ← signed r records r.bound
    if ← accept .caret then return .binary e .pow (← power r records bound)
    return e

/-- The rest of a level that groups to the left, behind its first operand. -/
def chain (op? : Mark → Option BinaryOp) (operand : Parser Expr) :
    (bound : Nat) → Expr → Parser Expr
  | 0, _ => exhausted
  | bound + 1, e => do
    match ← lookKind with
    | some (.mark m) =>
      match op? m with
      | some op =>
        advance
        let e' ← operand
        chain op? operand bound (.binary e op e')
      | none => return e
    | _ => return e

def level (r : Sorts) (op? : Mark → Option BinaryOp) (operand : Parser Expr) : Parser Expr := do
  chain op? operand r.bound (← operand)

def productOp? : Mark → Option BinaryOp
  | .star => some .mul
  | .slash => some .div
  | .percent => some .mod
  | _ => none

def sumOp? : Mark → Option BinaryOp
  | .plus => some .add
  | .minus => some .sub
  | .plusPlus => some .concat
  | _ => none

def comparisonOp? : Mark → Option BinaryOp
  | .lt => some .lt
  | .le => some .le
  | .gt => some .gt
  | .ge => some .ge
  | _ => none

def equalityOp? : Mark → Option BinaryOp
  | .eq => some .eq
  | .neq => some .neq
  | _ => none

def conjunctionOp? : Mark → Option BinaryOp
  | .and => some .and
  | _ => none

def disjunctionOp? : Mark → Option BinaryOp
  | .or => some .or
  | _ => none

def product (r : Sorts) (records : Bool) : Parser Expr :=
  level r productOp? (power r records r.bound)

def sum (r : Sorts) (records : Bool) : Parser Expr := level r sumOp? (product r records)

def comparison (r : Sorts) (records : Bool) : Parser Expr :=
  level r comparisonOp? (sum r records)

def equality (r : Sorts) (records : Bool) : Parser Expr :=
  level r equalityOp? (comparison r records)

def conjunction (r : Sorts) (records : Bool) : Parser Expr :=
  level r conjunctionOp? (equality r records)

def disjunction (r : Sorts) (records : Bool) : Parser Expr :=
  level r disjunctionOp? (conjunction r records)

/-- An assignment or any other expression. The target is checked when the value has been read. -/
def assignment (r : Sorts) (records : Bool) : Parser Expr := do
  let target ← disjunction r records
  match ← look with
  | some ⟨.mark .assign, p⟩ =>
    advance
    let value ← r.expression records
    match target with
    | .name n => return .assign n value
    | _ => fault .assignTarget p
  | _ => return target

end Scripting.Parser
