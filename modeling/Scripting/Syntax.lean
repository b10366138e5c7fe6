import Scripting.Tree.Shown

/-!
Programs. A program is a list of statements; expressions and statements contain each other through
blocks and function bodies. Programs that were read from storage can hold anything where a
statement or an expression belongs: such a place holds a `stray`, which fails only when it is
reached. They can also hold other data in the place of a text literal, which is then a value of its
own.
-/

namespace Scripting

/-- What can stand where a statement, an expression or a list of them belongs. -/
inductive Stray where
  /-- Something else in the place of a statement or an expression. -/
  | misplaced (what : Tree)
  /-- Something in the place of a list that has no items, or a node with such a member. -/
  | unusable (what : Tree)
  /-- Something in the place of a method that has no name, parameters and body. -/
  | noMethod (what : Tree)

def Stray.what : Stray → Tree
  | misplaced t | unusable t | noMethod t => t

mutual

inductive Expr where
  | number (value : Float)
  | bool (value : Bool)
  | text (value : String)
  | datum (value : Tree)
  | name (name : Name)
  | binary (left : Expr) (op : BinaryOp) (right : Expr)
  | unary (op : UnaryOp) (operand : Expr)
  | call (function : Expr) (arguments : List Expr)
  | assign (name : Name) (value : Expr)
  | block (statements : List Stmt)
  | lambda (params : List Name) (body : List Stmt)
  | list (elements : List Expr)
  | dict (pairs : List (Expr × Expr))
  | tuple (elements : List Expr)
  | field (object : Expr) (name : Name)
  | index (collection : Expr) (index : Expr)
  | record (type : Name) (fields : List (Name × Expr))
  | invalid (text : String)
  | stray (what : Stray)

inductive Stmt where
  | expr (value : Expr)
  | let_ (name : Name) (value : Expr)
  | const (name : Name) (value : Expr)
  | function (name : Name) (params : List Name) (body : List Stmt)
  | return_ (value : Option Expr)
  | if_ (condition : Expr) (thenBranch : List Stmt) (elseBranch : Option (List Stmt))
  | while_ (condition : Expr) (body : List Stmt)
  | for_ (counter : Name) (first : Expr) (stop : Expr) (body : List Stmt)
  | import_ (path : Name)
  | block (statements : List Stmt)
  | break_
  | continue_
  | print (value : Expr)
  | printAll (values : List Expr)
  | type (name : Name) (fields : List (Name × Expr)) (methods : List Stmt)
  | invalid (text : String)
  | stray (what : Stray)

end

theorem Expr.sizeOf_pos (e : Expr) : 0 < sizeOf e := by
  cases e <;> simp +arith

abbrev Program := List Stmt

/-- The name of the kind of statement, as the trace shows it. -/
def Stmt.kindName : Stmt → String
  | expr _ => NodeKind.exprStmt.name
  | let_ _ _ => NodeKind.letStmt.name
  | const _ _ => NodeKind.constStmt.name
  | function _ _ _ => NodeKind.functionStmt.name
  | return_ _ => NodeKind.returnStmt.name
  | if_ _ _ _ => NodeKind.ifStmt.name
  | while_ _ _ => NodeKind.whileStmt.name
  | for_ _ _ _ _ => NodeKind.forStmt.name
  | import_ _ => NodeKind.importStmt.name
  | block _ => NodeKind.blockStmt.name
  | break_ => NodeKind.breakStmt.name
  | continue_ => NodeKind.continueStmt.name
  | print _ => NodeKind.printStmt.name
  | printAll _ => NodeKind.printArgsStmt.name
  | type _ _ _ => NodeKind.typeStmt.name
  | invalid _ => NodeKind.invalidStmt.name
  | stray w => w.what.typeName

end Scripting
