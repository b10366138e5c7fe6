import Scripting.Syntax
import Scripting.Tree.Storage

/-!
Programs as trees and trees as programs. Every program is a tree; a tree is read as a program with
strays wherever something stands that does not belong there.
-/

namespace Scripting

/-- A name as a tree. Names that are no texts are kept apart from those that are. -/
def Name.toTree : Name → Tree
  | text s => .text s
  | data s | compound s => .list [.text s]

mutual

def Expr.toTree : Expr → Tree
  | .number x => .node .numberLit [.float x]
  | .bool b => .node .boolLit [.bool b]
  | .text s => .node .stringLit [.text s]
  | .datum t => .node .stringLit [t]
  | .name n => .node .variableRef [n.toTree]
  | .binary l op r => .node .binary [l.toTree, .binaryOp op, r.toTree]
  | .unary op e => .node .unary [.unaryOp op, e.toTree]
  | .call f args => .node .call [f.toTree, .list (exprTrees args)]
  | .assign n e => .node .assign [n.toTree, e.toTree]
  | .block ss => .node .blockExpr [.list (stmtTrees ss)]
  | .lambda ps body => .node .lambda [.list (ps.map Name.toTree), .list (stmtTrees body)]
  | .list es => .node .listLit [.list (exprTrees es)]
  | .dict ps => .node .dictLit [.list (pairTrees ps)]
  | .tuple es => .node .tupleLit [.list (exprTrees es)]
  | .field e n => .node .fieldAccess [e.toTree, n.toTree]
  | .index c i => .node .index [c.toTree, i.toTree]
  | .record n fs => .node .instanceLit [n.toTree, .list (fieldTrees fs)]
  | .invalid s => .node .invalidExpr [.text s]
  | .stray w => w.what

def exprTrees : List Expr → List Tree
  | [] => []
  | e :: rest => e.toTree :: exprTrees rest

def pairTrees : List (Expr × Expr) → List Tree
  | [] => []
  | (k, v) :: rest => .pair k.toTree v.toTree :: pairTrees rest

def fieldTrees : List (Name × Expr) → List Tree
  | [] => []
  | (n, e) :: rest => .pair n.toTree e.toTree :: fieldTrees rest

def Stmt.toTree : Stmt → Tree
  | .expr e => .node .exprStmt [e.toTree]
  | .let_ n e => .node .letStmt [n.toTree, e.toTree]
  | .const n e => .node .constStmt [n.toTree, e.toTree]
  | .function n ps body =>
    .node .functionStmt [n.toTree, .list (ps.map Name.toTree), .list (stmtTrees body)]
  | .return_ none => .node .returnStmt [.null]
  | .return_ (some e) => .node .returnStmt [e.toTree]
  | .if_ c t none => .node .ifStmt [c.toTree, .list (stmtTrees t), .null]
  | .if_ c t (some e) => .node .ifStmt [c.toTree, .list (stmtTrees t), .list (stmtTrees e)]
  | .while_ c body => .node .whileStmt [c.toTree, .list (stmtTrees body)]
  | .for_ n a b body => .node .forStmt [n.toTree, a.toTree, b.toTree, .list (stmtTrees body)]
  | .import_ p => .node .importStmt [p.toTree]
  | .block ss => .node .blockStmt [.list (stmtTrees ss)]
  | .break_ => .node .breakStmt []
  | .continue_ => .node .continueStmt []
  | .print e => .node .printStmt [e.toTree]
  | .printAll es => .node .printArgsStmt [.list (exprTrees es)]
  | .type n fs ms => .node .typeStmt [n.toTree, .list (fieldTrees fs), .list (stmtTrees ms)]
  | .invalid s => .node .invalidStmt [.text s]
  | .stray w => w.what

def stmtTrees : List Stmt → List Tree
  | [] => []
  | s :: rest => s.toTree :: stmtTrees rest

end

namespace Tree

def truth : Tree → Bool
  | null => false
  | bool b => b
  | int n => n != 0
  | float x => x != 0
  | text s => !s.isEmpty
  | list items => !items.isEmpty
  | _ => true

def params? : Tree → Option (List Name)
  | list items => some (items.map toName)
  | text s => some ((characters s).map .text)
  | _ => none

mutual

def toExpr : Tree → Expr
  | .node kind members =>
    match kind, members with
    | .numberLit, [.float x] => .number x
    | .boolLit, [t] => .bool t.truth
    | .stringLit, [.text s] => .text s
    | .stringLit, [t] => .datum t
    | .variableRef, [n] => .name n.toName
    | .binary, [l, .binaryOp op, r] => .binary l.toExpr op r.toExpr
    | .unary, [.unaryOp op, e] => .unary op e.toExpr
    | .call, [f, args] => .call f.toExpr args.toExprs
    | .assign, [n, e] => .assign n.toName e.toExpr
    | .blockExpr, [ss] => .block ss.toStmts
    | .lambda, [ps, body] =>
      match ps.params? with
      | some names => .lambda names body.toStmts
      | none => .stray (.unusable (.node kind members))
    | .listLit, [es] => .list es.toExprs
    | .dictLit, [ps] => .dict ps.toPairs
    | .tupleLit, [es] => .tuple es.toExprs
    | .fieldAccess, [e, n] => .field e.toExpr n.toName
    | .index, [c, i] => .index c.toExpr i.toExpr
    | .instanceLit, [n, fs] => .record n.toName fs.toFields
    | .invalidExpr, [t] => .invalid t.display
    | kind, members => .stray (.misplaced (.node kind members))
  | t => .stray (.misplaced t)

def toExprs : Tree → List Expr
  | .list items => exprsOf items
  | .text s => (characters s).map fun c => .stray (.misplaced (.text c))
  | t => [.stray (.unusable t)]

def exprsOf : List Tree → List Expr
  | [] => []
  | t :: rest => t.toExpr :: exprsOf rest

def toPairs : Tree → List (Expr × Expr)
  | .list items => pairsOf items
  | _ => []

def pairsOf : List Tree → List (Expr × Expr)
  | [] => []
  | .pair k v :: rest => (k.toExpr, v.toExpr) :: pairsOf rest
  | _ :: rest => pairsOf rest

def toFields : Tree → List (Name × Expr)
  | .list items => fieldsOf items
  | _ => []

def fieldsOf : List Tree → List (Name × Expr)
  | [] => []
  | .pair n e :: rest => (n.toName, e.toExpr) :: fieldsOf rest
  | _ :: rest => fieldsOf rest

def toStmt : Tree → Stmt
  | .node kind members =>
    match kind, members with
    | .exprStmt, [e] => .expr e.toExpr
    | .letStmt, [n, e] => .let_ n.toName e.toExpr
    | .constStmt, [n, e] => .const n.toName e.toExpr
    | .functionStmt, [n, ps, body] =>
      match ps.params? with
      | some names => .function n.toName names body.toStmts
      | none => .stray (.unusable (.node kind members))
    | .returnStmt, [.null] => .return_ none
    | .returnStmt, [e] => .return_ (some e.toExpr)
    | .ifStmt, [c, t, .null] => .if_ c.toExpr t.toStmts none
    | .ifStmt, [c, t, e] => .if_ c.toExpr t.toStmts (some e.toStmts)
    | .whileStmt, [c, body] => .while_ c.toExpr body.toStmts
    | .forStmt, [n, a, b, body] => .for_ n.toName a.toExpr b.toExpr body.toStmts
    | .importStmt, [p] => .import_ p.toName
    | .blockStmt, [ss] => .block ss.toStmts
    | .breakStmt, [] => .break_
    | .continueStmt, [] => .continue_
    | .printStmt, [e] => .print e.toExpr
    | .printArgsStmt, [es] => .printAll es.toExprs
    | .typeStmt, [n, fs, ms] => .type n.toName fs.toFields ms.toMethods
    | .invalidStmt, [t] => .invalid t.display
    | kind, members => .stray (.misplaced (.node kind members))
  | t => .stray (.misplaced t)

def toStmts : Tree → List Stmt
  | .list items => stmtsOf items
  | .text s => (characters s).map fun c => .stray (.misplaced (.text c))
  | t => [.stray (.unusable t)]

def stmtsOf : List Tree → List Stmt
  | [] => []
  | t :: rest => t.toStmt :: stmtsOf rest

def toMethods : Tree → List Stmt
  | .list items => methodsOf items
  | .text s => (characters s).map fun c => .stray (.noMethod (.text c))
  | t => [.stray (.unusable t)]

/-- Trees as methods. A function literal has parameters and a body but no name. -/
def methodsOf : List Tree → List Stmt
  | [] => []
  | .node .functionStmt members :: rest =>
    (Tree.node .functionStmt members).toStmt :: methodsOf rest
  | .node .lambda [ps, body] :: rest =>
    .stray (if ps.params?.isSome then .noMethod (.node .lambda [ps, body]) else .unusable ps)
      :: methodsOf rest
  | t :: rest => .stray (.noMethod t) :: methodsOf rest

end

end Tree

def Program.toJson (p : Program) : Json := Tree.programToJson (stmtTrees p)

def Program.ofJson (v : Json) : Except StorageFault Program :=
  (Tree.programOfJson v).map Tree.stmtsOf

/-- Whether two programs are equal. -/
def Program.same (p q : Program) : Bool := Tree.sameAll (stmtTrees p) (stmtTrees q)

end Scripting
