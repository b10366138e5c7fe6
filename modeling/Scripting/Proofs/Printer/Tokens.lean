import Scripting.Proofs.Parser.Basic

/-!
The reference printer up to the choice of blanks: the tokens of a program. Simple statements end with
a semicolon and function literals have braces. A subexpression stands in parentheses when its level
is below the one that its place asks for, when it is a record literal in the header of `if`, `while`
or `for`, and when it would put a brace at the front of a statement or of a dictionary key.
-/

namespace Scripting

namespace BinaryOp

/-- The level of an operator; a higher level binds tighter. -/
def level : BinaryOp → Nat
  | or => 1
  | and => 2
  | eq | neq => 3
  | lt | le | gt | ge => 4
  | add | sub | concat => 5
  | mul | div | mod => 6
  | pow => 7

def mark : BinaryOp → Mark
  | add => .plus
  | sub => .minus
  | mul => .star
  | div => .slash
  | pow => .caret
  | mod => .percent
  | eq => .eq
  | neq => .neq
  | lt => .lt
  | le => .le
  | gt => .gt
  | ge => .ge
  | and => .and
  | or => .or
  | concat => .plusPlus

/-- The level of the left operand. Powers group to the right, all other operators to the left. -/
def leftLevel : BinaryOp → Nat
  | pow => 8
  | op => op.level

def rightLevel : BinaryOp → Nat
  | pow => 7
  | op => op.level + 1

end BinaryOp

def UnaryOp.mark : UnaryOp → Mark
  | neg => .minus
  | not => .bang

def Name.token (n : Name) : Token.Kind := .name n.shown

namespace Expr

def level : Expr → Nat
  | assign _ _ => 0
  | binary _ op _ => op.level
  | unary _ _ => 8
  | call _ _ | field _ _ | index _ _ => 9
  | _ => 10

def isRecord : Expr → Bool
  | record _ _ => true
  | _ => false

/-- Whether an expression needs parentheses where `level` is asked for and record literals may or
may not stand. -/
def bracketed (records : Bool) (level : Nat) (e : Expr) : Bool :=
  e.level < level || !records && e.isRecord

end Expr

namespace Printer

/-- Tokens in parentheses if need be. -/
def wrap (b : Bool) (ks : List Token.Kind) : List Token.Kind :=
  if b then .mark .lparen :: ks ++ [.mark .rparen] else ks

/-- Tokens with parentheses if they start with a brace. -/
def guarded (ks : List Token.Kind) : List Token.Kind :=
  wrap (ks.head?.any (Token.Kind.isMark .lbrace)) ks

def params : List Name → List Token.Kind
  | [] => []
  | [n] => [n.token]
  | n :: ns => n.token :: .mark .comma :: params ns

def braces (ks : List Token.Kind) : List Token.Kind := .mark .lbrace :: ks ++ [.mark .rbrace]

def function (ps : List Name) (body : List Token.Kind) : List Token.Kind :=
  .mark .lparen :: params ps ++ .mark .rparen :: braces body

/-- Whether the statements behind `else` are a single `if`. -/
def isChain : List Stmt → Bool
  | [.if_ _ _ _] => true
  | _ => false

mutual

/-- The tokens of an expression in a place that asks for a level. -/
def expr (records : Bool) (level : Nat) (e : Expr) : List Token.Kind :=
  wrap (e.bracketed records level) (bare (records || e.bracketed records level) e)

/-- The tokens of an expression without parentheses around it. -/
def bare (records : Bool) : Expr → List Token.Kind
  | .number x => [.number x]
  | .bool true => [.keyword .true_]
  | .bool false => [.keyword .false_]
  | .text s => [.text s]
  | .name n => [n.token]
  | .binary l op r => expr records op.leftLevel l ++ .mark op.mark :: expr records op.rightLevel r
  | .unary op e => .mark op.mark :: expr records 8 e
  | .call f args => expr records 9 f ++ .mark .lparen :: exprs args ++ [.mark .rparen]
  | .assign n e => n.token :: .mark .assign :: expr records 0 e
  | .block ss => braces (stmts ss)
  | .lambda ps body => .keyword .fn :: function ps (stmts body)
  | .list es => .mark .lbracket :: exprs es ++ [.mark .rbracket]
  | .dict [] => braces []
  | .dict ((k, v) :: ps) =>
    braces (guarded (expr true 0 k) ++ .mark .colon :: expr true 0 v ++ commaPairs ps)
  | .tuple es => .mark .lparen :: exprs es ++ [.mark .rparen]
  | .field e n => expr records 9 e ++ [.mark .dot, n.token]
  | .index e i => expr records 9 e ++ .mark .lbracket :: expr true 0 i ++ [.mark .rbracket]
  | .record n fs => n.token :: braces (fields fs)
  | .datum _ | .invalid _ | .stray _ => []

def exprs : List Expr → List Token.Kind
  | [] => []
  | e :: es => expr true 0 e ++ commaExprs es

def commaExprs : List Expr → List Token.Kind
  | [] => []
  | e :: es => .mark .comma :: expr true 0 e ++ commaExprs es

def commaPairs : List (Expr × Expr) → List Token.Kind
  | [] => []
  | (k, v) :: ps =>
    .mark .comma :: expr true 0 k ++ .mark .colon :: expr true 0 v ++ commaPairs ps

def fields : List (Name × Expr) → List Token.Kind
  | [] => []
  | (n, e) :: fs => n.token :: .mark .colon :: expr true 0 e ++ .mark .comma :: fields fs

def stmt : Stmt → List Token.Kind
  | .expr e => guarded (expr true 0 e) ++ [.mark .semicolon]
  | .let_ n e => .keyword .let_ :: n.token :: .mark .assign :: expr true 0 e ++ [.mark .semicolon]
  | .const n e => .keyword .const :: n.token :: .mark .assign :: expr true 0 e ++ [.mark .semicolon]
  | .function n ps body => .keyword .fn :: n.token :: function ps (stmts body)
  | .return_ none => [.keyword .return_, .mark .semicolon]
  | .return_ (some e) => .keyword .return_ :: expr true 0 e ++ [.mark .semicolon]
  | .if_ c t e => .keyword .if_ :: expr false 0 c ++ braces (stmts t) ++ otherwise e
  | .while_ c body => .keyword .while_ :: expr false 0 c ++ braces (stmts body)
  | .for_ n a b body =>
    .keyword .for_ :: n.token :: .keyword .in_ :: expr false 0 a ++ .mark .dots :: expr false 0 b ++
      braces (stmts body)
  | .import_ path => [.keyword .import_, .text path.shown, .mark .semicolon]
  | .block ss => braces (stmts ss)
  | .break_ => [.keyword .break_, .mark .semicolon]
  | .continue_ => [.keyword .continue_, .mark .semicolon]
  | .print e => .keyword .print :: expr true 0 e ++ [.mark .semicolon]
  | .printAll es => .keyword .print :: exprs es ++ [.mark .semicolon]
  | .type n fs ms => .keyword .type :: n.token :: braces (fields fs ++ stmts ms)
  | .invalid _ | .stray _ => []

def otherwise : Option (List Stmt) → List Token.Kind
  | none => []
  | some ss => .keyword .else_ :: if isChain ss then stmts ss else braces (stmts ss)

def stmts : List Stmt → List Token.Kind
  | [] => []
  | s :: ss => stmt s ++ stmts ss

end

end Printer

end Scripting
