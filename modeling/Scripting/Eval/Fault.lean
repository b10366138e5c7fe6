import Scripting.Syntax
import Scripting.Token

/-!
Why a run fails. Runtime errors belong to the language: each has a name and a message. Defects do
not: they come up when a stored program holds something in the wrong place, when the remainder of an
infinity is asked for, and when the limit on calls is beyond what the host can do.
-/

namespace Scripting

/-- The errors of the language. Types are given by name and values by text. -/
inductive RuntimeError where
  | undefinedVariable (name : Name)
  | unknownType (name : Name)
  | unknownBuiltin (name : Name)
  | constantAssignment (name : Name)
  | negationOperand (type : String)
  | logicOperands (op : BinaryOp) (left right : String)
  | additionOperands (left right : String)
  | numberOperands (op : BinaryOp) (left right : String)
  | unknownOperator (op : BinaryOp)
  | notCallable (type : String)
  | rangeBound (type : String)
  | dictKey (type : String)
  | noSuchField (type name : Name)
  | unknownMember (name : Name) (type : String)
  | unknownField (name type : String)
  | recordKey (type key : String)
  | notIndexable (type : String)
  | indexNotInteger (what text : String)
  | indexOutOfRange (what : String) (index : Int) (length : Nat)
  | listExpected (function type : String)
  | textExpected (function type : String)
  | notNumeral (quoted : String)
  | argumentCount (function : Name) (expected given : Nat)
  | callDepth (limit : Int)
  | stackExhausted
  | divisionByZero
  | moduloByZero
  | zeroToNegativePower
  | powerTooLarge (base exponent : String)
  | powerNotReal (base exponent : String)
  | returnOutside
  | breakOutside
  | continueOutside
  | leavesBlock
  | invalidStatement (text : String)
  | invalidExpression (text : String)
  deriving DecidableEq, Repr

namespace RuntimeError

def name : RuntimeError → String
  | undefinedVariable _ | unknownType _ | unknownBuiltin _ => "NameError"
  | constantAssignment _ | negationOperand _ | logicOperands _ _ _ | additionOperands _ _
  | numberOperands _ _ _ | unknownOperator _ | notCallable _ | rangeBound _ | dictKey _
  | recordKey _ _ | notIndexable _ | indexNotInteger _ _ | listExpected _ _
  | textExpected _ _ => "TypeError"
  | noSuchField _ _ | notNumeral _ | powerNotReal _ _ => "ValueError"
  | unknownMember _ _ | unknownField _ _ => "AttributeError"
  | indexOutOfRange _ _ _ => "IndexError"
  | argumentCount _ _ _ => "ArityError"
  | callDepth _ | stackExhausted => "StackOverflow"
  | divisionByZero | moduloByZero | zeroToNegativePower => "ZeroDivisionError"
  | powerTooLarge _ _ => "OverflowError"
  | returnOutside | breakOutside | continueOutside | leavesBlock => "ControlFlowError"
  | invalidStatement _ | invalidExpression _ => "SyntaxError"

def message : RuntimeError → String
  | undefinedVariable n => "undefined variable " ++ ticked n.shown
  | unknownType n => "unknown type " ++ ticked n.shown
  | unknownBuiltin n => "unknown builtin " ++ ticked n.shown
  | constantAssignment n => "cannot assign to constant " ++ ticked n.shown
  | negationOperand t => "unary '-' expects a Number, got " ++ t
  | logicOperands op a b => ticked op.symbol ++ " expects Bool operands, got " ++ a ++ " and " ++ b
  | additionOperands a b => "cannot add " ++ a ++ " and " ++ b
  | numberOperands op a b =>
    ticked op.symbol ++ " expects Number operands, got " ++ a ++ " and " ++ b
  | unknownOperator op => "unknown operator " ++ op.symbol
  | notCallable t => "cannot call a value of type " ++ t
  | rangeBound t => "for range bounds must be finite numbers, got " ++ t
  | dictKey t => "dict keys must be Strings, got " ++ t
  | noSuchField t n => "type " ++ ticked t.shown ++ " has no field " ++ ticked n.shown
  | unknownMember n t => "unknown field or method " ++ ticked n.shown ++ " on " ++ t
  | unknownField n t => "unknown field " ++ ticked n ++ " on " ++ t
  | recordKey t k => t ++ " keys must be Strings, got " ++ k
  | notIndexable t => "cannot index a value of type " ++ t
  | indexNotInteger what s => what ++ " index must be an integer, got " ++ s
  | indexOutOfRange what i n =>
    what ++ " index out of range: " ++ toString i ++ " (length " ++ toString n ++ ")"
  | listExpected f t => f ++ " expects a List, got " ++ t
  | textExpected f t => f ++ " expects a String, got " ++ t
  | notNumeral s => "cannot convert " ++ s ++ " to a number"
  | argumentCount f n k =>
    "argument count mismatch: " ++ f.shown ++ " expects " ++ toString n ++ " argument(s), got "
      ++ toString k
  | callDepth n => "maximum call depth of " ++ toString n ++ " exceeded"
  | stackExhausted => "maximum recursion depth exceeded"
  | divisionByZero => "division by zero"
  | moduloByZero => "modulo by zero"
  | zeroToNegativePower => "zero cannot be raised to a negative power"
  | powerTooLarge a b => a ++ " ^ " ++ b ++ " is too large"
  | powerNotReal a b => a ++ " ^ " ++ b ++ " is not a real number"
  | returnOutside => "'return' outside of a function"
  | breakOutside => "'break' outside of a loop"
  | continueOutside => "'continue' outside of a loop"
  | leavesBlock => "control flow statements cannot leave a block expression"
  | invalidStatement s => "invalid statement: " ++ s
  | invalidExpression s => "invalid expression: " ++ s

def text (e : RuntimeError) : String := e.name ++ ": " ++ e.message

end RuntimeError

/-- What is wrong with a program that should not have been run, with a number, or with the limit on
calls. -/
inductive Defect where
  /-- Something else stands in the place of a statement. -/
  | notStatement (type : String)
  /-- Something else stands in the place of an expression. -/
  | notExpression (type : String)
  /-- Something else stands in the place of a list or a name. -/
  | wrongType
  /-- Something else stands in the place of a method. -/
  | notMethod
  /-- The remainder of an infinity. -/
  | remainderOfInfinity
  /-- A limit on calls that needs more of the stack of the host than can be asked for. -/
  | limitTooLarge
  deriving DecidableEq, Repr

namespace Defect

inductive Family where
  | notImplemented
  | type
  | attribute
  | value
  | overflow
  deriving DecidableEq, Repr

def family : Defect → Family
  | notStatement _ | notExpression _ => .notImplemented
  | wrongType => .type
  | notMethod => .attribute
  | remainderOfInfinity => .value
  | limitTooLarge => .overflow

def message? : Defect → Option String
  | notStatement t => some ("execute: unexpected node type <class '" ++ t ++ "'>")
  | notExpression t => some ("evaluate: unexpected node type <class '" ++ t ++ "'>")
  | remainderOfInfinity => some "math domain error"
  | wrongType | notMethod | limitTooLarge => none

end Defect

/-- How a run can end without a value. -/
inductive Failure where
  | error (e : RuntimeError)
  | defect (d : Defect)
  /-- The stack of the host did not hold the wording of a message. -/
  | exhausted
  /-- The bound on the number of steps was too small. -/
  | outOfSteps
  deriving DecidableEq, Repr

end Scripting
