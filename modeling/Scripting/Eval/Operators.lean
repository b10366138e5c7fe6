import Scripting.Eval.Fault
import Scripting.Number.Arithmetic
import Scripting.Value.Equality
import Scripting.Value.Text

/-!
Operators, indices and members: what values say about each other, without any state.
-/

namespace Scripting

/-- The answer of an operation on values. -/
abbrev Answer := Except Failure Value

def Answer.fail (e : RuntimeError) : Answer := .error (.error e)

namespace Value

def powerOf (x y : Float) : Answer :=
  match Number.power x y with
  | .ok z => .ok (.number z)
  | .error .zeroBase => .fail .zeroToNegativePower
  | .error .tooLarge => .fail (.powerTooLarge (Number.plain x) (Number.plain y))
  | .error .notReal => .fail (.powerNotReal (Number.plain x) (Number.plain y))

def remainderOf (x y : Float) : Answer :=
  if y == 0 then .fail .moduloByZero
  else match Number.remainder? x y with
    | some z => .ok (.number z)
    | none => .error (.defect .remainderOfInfinity)

def applyNumbers (op : BinaryOp) (x y : Float) : Answer :=
  match op with
  | .sub => .ok (.number (x - y))
  | .mul => .ok (.number (x * y))
  | .div => if y == 0 then .fail .divisionByZero else .ok (.number (x / y))
  | .mod => remainderOf x y
  | .pow => powerOf x y
  | .lt => .ok (.bool (x < y))
  | .le => .ok (.bool (x ≤ y))
  | .gt => .ok (.bool (x > y))
  | .ge => .ok (.bool (x ≥ y))
  | _ => .fail (.unknownOperator op)

/-- A logical operator. Both operands have been evaluated. -/
def applyLogic (op : BinaryOp) (combine : Bool → Bool → Bool) : Value → Value → Answer
  | bool a, bool b => .ok (.bool (combine a b))
  | v, w => .fail (.logicOperands op v.typeName w.typeName)

/-- The sum of two numbers or the joint text of two texts. -/
def applyAdd : Value → Value → Answer
  | number x, number y => .ok (.number (x + y))
  | text a, text b => .ok (.text (a ++ b))
  | v, w => .fail (.additionOperands v.typeName w.typeName)

def applyBinary (op : BinaryOp) (v w : Value) : Answer :=
  match op with
  | .eq => .ok (.bool (v.same w))
  | .neq => .ok (.bool !(v.same w))
  | .and => applyLogic op (· && ·) v w
  | .or => applyLogic op (· || ·) v w
  | .concat => .ok (.text (v.shown ++ w.shown))
  | .add => applyAdd v w
  | _ =>
    match v, w with
    | number x, number y => applyNumbers op x y
    | _, _ => .fail (.numberOperands op v.typeName w.typeName)

def applyUnary (op : UnaryOp) (v : Value) : Answer :=
  match op, v with
  | .not, v => .ok (.bool !v.isTruthy)
  | .neg, number x => .ok (.number (-x))
  | .neg, v => .fail (.negationOperand v.typeName)

/-- The place that an index means in something of a given length. -/
def toIndex (what : String) (length : Nat) (v : Value) : Except Failure Nat :=
  let place := match v with
    | number x => Number.integer? x
    | _ => none
  match place with
  | none => .error (.error (.indexNotInteger what v.shown))
  | some i =>
    if i < 0 || (length : Int) ≤ i then .error (.error (.indexOutOfRange what i length))
    else .ok i.toNat

def getIndex (v i : Value) : Answer :=
  match v with
  | list items => do
    let k ← toIndex "list" items.length i
    .ok (items.getD k .null)
  | text s => do
    let k ← toIndex "string" s.length i
    .ok (.text (s.toList.getD k ' ').toString)
  | record _ fields =>
    match i with
    | text n =>
      match fields.lookup (.text n) with
      | some w => .ok w
      | none => .fail (.unknownField n v.typeName)
    | _ => .fail (.recordKey v.typeName i.typeName)
  | _ => .fail (.notIndexable v.typeName)

end Value

end Scripting
