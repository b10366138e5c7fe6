/-!
The kinds of nodes in a stored program and the members of each. A member is stored as plain data,
as a list of pairs, as an operator or as a number; some members may be left out.
-/

namespace Scripting

inductive NodeKind where
  | numberLit | boolLit | stringLit | variableRef | binary | unary | call | assign | blockExpr
  | lambda | listLit | dictLit | tupleLit | fieldAccess | index | instanceLit | invalidExpr
  | exprStmt | letStmt | constStmt | functionStmt | returnStmt | ifStmt | whileStmt | forStmt
  | importStmt | blockStmt | breakStmt | continueStmt | printStmt | printArgsStmt | typeStmt
  | invalidStmt
  deriving DecidableEq, Repr

/-- How a member of a node is stored. -/
inductive Shape where
  | plain
  | pairs
  | binaryOp
  | unaryOp
  | number
  deriving DecidableEq, Repr

/-- What stands for a member that is left out. -/
inductive Absent where
  | refused
  | null
  | empty
  deriving DecidableEq, Repr

/-- A member of a node: its name, how it is stored, and what stands for it when it is left out. -/
structure Slot where
  name : String
  shape : Shape := .plain
  absent : Absent := .refused
  deriving DecidableEq, Repr

namespace NodeKind

def all : List NodeKind :=
  [numberLit, boolLit, stringLit, variableRef, binary, unary, call, assign, blockExpr, lambda,
    listLit, dictLit, tupleLit, fieldAccess, index, instanceLit, invalidExpr, exprStmt, letStmt,
    constStmt, functionStmt, returnStmt, ifStmt, whileStmt, forStmt, importStmt, blockStmt,
    breakStmt, continueStmt, printStmt, printArgsStmt, typeStmt, invalidStmt]

theorem mem_all (k : NodeKind) : k ∈ all := by cases k <;> decide

def name : NodeKind → String
  | numberLit => "NumberLit"
  | boolLit => "BoolLit"
  | stringLit => "StringLit"
  | variableRef => "Variable"
  | binary => "Binary"
  | unary => "Unary"
  | call => "Call"
  | assign => "Assign"
  | blockExpr => "BlockExpr"
  | lambda => "Lambda"
  | listLit => "ListLit"
  | dictLit => "DictLit"
  | tupleLit => "TupleLit"
  | fieldAccess => "FieldAccess"
  | index => "Index"
  | instanceLit => "InstanceLit"
  | invalidExpr => "InvalidExpr"
  | exprStmt => "ExprStmt"
  | letStmt => "LetStmt"
  | constStmt => "ConstStmt"
  | functionStmt => "FunctionStmt"
  | returnStmt => "ReturnStmt"
  | ifStmt => "IfStmt"
  | whileStmt => "WhileStmt"
  | forStmt => "ForStmt"
  | importStmt => "ImportStmt"
  | blockStmt => "BlockStmt"
  | breakStmt => "BreakStmt"
  | continueStmt => "ContinueStmt"
  | printStmt => "PrintStmt"
  | printArgsStmt => "PrintArgsStmt"
  | typeStmt => "TypeStmt"
  | invalidStmt => "InvalidStmt"

def ofName? (s : String) : Option NodeKind := all.find? (·.name == s)

def slots : NodeKind → List Slot
  | numberLit => [{ name := "value", shape := .number }]
  | boolLit => [{ name := "value" }]
  | stringLit => [{ name := "value" }]
  | variableRef => [{ name := "name" }]
  | binary => [{ name := "left" }, { name := "op", shape := .binaryOp }, { name := "right" }]
  | unary => [{ name := "op", shape := .unaryOp }, { name := "expr" }]
  | call => [{ name := "function" }, { name := "arguments" }]
  | assign => [{ name := "name" }, { name := "expr" }]
  | blockExpr => [{ name := "statements" }]
  | lambda => [{ name := "params" }, { name := "body" }]
  | listLit => [{ name := "elements" }]
  | dictLit => [{ name := "pairs", shape := .pairs }]
  | tupleLit => [{ name := "elements" }]
  | fieldAccess => [{ name := "object" }, { name := "field" }]
  | index => [{ name := "collection" }, { name := "index" }]
  | instanceLit => [{ name := "type_name" }, { name := "fields", shape := .pairs }]
  | invalidExpr => [{ name := "text" }]
  | exprStmt => [{ name := "expr" }]
  | letStmt => [{ name := "name" }, { name := "expr" }]
  | constStmt => [{ name := "name" }, { name := "expr" }]
  | functionStmt => [{ name := "name" }, { name := "params" }, { name := "body" }]
  | returnStmt => [{ name := "expr", absent := .null }]
  | ifStmt =>
    [{ name := "condition" }, { name := "then_branch" }, { name := "else_branch", absent := .null }]
  | whileStmt => [{ name := "condition" }, { name := "body" }]
  | forStmt => [{ name := "var" }, { name := "start" }, { name := "end" }, { name := "body" }]
  | importStmt => [{ name := "path" }]
  | blockStmt => [{ name := "statements" }]
  | breakStmt => []
  | continueStmt => []
  | printStmt => [{ name := "expr" }]
  | printArgsStmt => [{ name := "exprs" }]
  | typeStmt =>
    [{ name := "name" }, { name := "fields", shape := .pairs, absent := .empty },
      { name := "methods", absent := .empty }]
  | invalidStmt => [{ name := "text" }]

end NodeKind

end Scripting
