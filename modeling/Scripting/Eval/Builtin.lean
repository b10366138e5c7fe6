import Scripting.Eval.Machine
import Scripting.Eval.Operators
import Scripting.Number.Reader
import Scripting.Text.Casing

/-!
Built-in functions and methods. A built-in function is a value that knows its name; the table of
built-ins gives the parameters and the effect. Methods of lists and texts get their receiver as the
first argument.
-/

namespace Scripting

/-- The built-in functions, and the methods of lists and texts. -/
inductive Builtin where
  | input | toNumber | length | push | remove
  | listPush | listRemove | listLength | listLen
  | textLen | textLength | textUpper | textLower
  deriving DecidableEq, Repr

namespace Builtin

def all : List Builtin :=
  [input, toNumber, length, push, remove, listPush, listRemove, listLength, listLen, textLen,
    textLength, textUpper, textLower]

theorem mem_all (b : Builtin) : b ∈ all := by cases b <;> decide

/-- The name of a built-in; methods are named for their receiver. -/
def name : Builtin → String
  | input => "input"
  | toNumber => "to_number"
  | length => "length"
  | push => "push"
  | remove => "remove"
  | listPush => "list.push"
  | listRemove => "list.remove"
  | listLength => "list.length"
  | listLen => "list.len"
  | textLen => "string.len"
  | textLength => "string.length"
  | textUpper => "string.to_upper"
  | textLower => "string.to_lower"

/-- The parameters of a built-in, without the receiver of a method. -/
def params : Builtin → List String
  | input | listLength | listLen | textLen | textLength | textUpper | textLower => []
  | toNumber => ["text"]
  | length => ["list"]
  | push => ["list", "item"]
  | remove => ["list", "index"]
  | listPush => ["item"]
  | listRemove => ["index"]

def ofName? (n : Name) : Option Builtin := all.find? fun b => Name.text b.name == n

/-- The built-ins that every program starts with. -/
def globals : List Builtin := [input, toNumber, length, push, remove]

def function (b : Builtin) (receiver : Option Value) : Function :=
  .mk (b.params.map .text) [] (.text b.name) none true receiver

def listMethod? : Name → Option Builtin
  | .text "push" => some listPush
  | .text "remove" => some listRemove
  | .text "length" => some listLength
  | .text "len" => some listLen
  | _ => none

def textMethod? : Name → Option Builtin
  | .text "len" => some textLen
  | .text "length" => some textLength
  | .text "to_upper" => some textUpper
  | .text "to_lower" => some textLower
  | _ => none

def expectList (name : String) : Value → Except Failure (List Value)
  | .list items => .ok items
  | v => .error (.error (.listExpected name v.typeName))

def expectText (name : String) : Value → Except Failure String
  | .text s => .ok s
  | v => .error (.error (.textExpected name v.typeName))

def readNumber (v : Value) : Answer := do
  let s ← expectText "to_number" v
  match Number.signed? (Text.strip s.toList) with
  | some x => .ok (.number x)
  | none => .error (.error (.notNumeral (Text.quoted s)))

def lengthOf (v : Value) : Answer := do
  let items ← expectList "length" v
  .ok (.number items.length.toFloat)

def pushOnto (v item : Value) : Answer := do
  let items ← expectList "push" v
  .ok (.list (items ++ [item]))

def removeFrom (v index : Value) : Answer := do
  let items ← expectList "remove" v
  let k ← Value.toIndex "list" items.length index
  .ok (.list (items.eraseIdx k))

/-- A built-in that needs no input, on its arguments. -/
def answer : Builtin → List Value → Answer
  | toNumber, [v] => readNumber v
  | length, [v] | listLength, [v] | listLen, [v] => lengthOf v
  | push, [v, item] | listPush, [v, item] => pushOnto v item
  | remove, [v, index] | listRemove, [v, index] => removeFrom v index
  | textLen, [.text s] | textLength, [.text s] => .ok (.number s.length.toFloat)
  | textUpper, [.text s] => .ok (.text (String.ofList (Text.upper s.toList)))
  | textLower, [.text s] => .ok (.text (String.ofList (Text.lower s.toList)))
  | _, _ => .error (.defect .wrongType)

def apply (settings : Settings) (b : Builtin) (args : List Value) : Eval Value :=
  match b with
  | input => do return .text (← Eval.readLine settings)
  | b => Eval.ofExcept (b.answer args)

end Builtin

/-- A method taken from a record: the receiver fills a first parameter named `self`. -/
def Function.bindTo (f : Function) (receiver : Value) : Function :=
  let params := match f.params with
    | .text "self" :: rest => rest
    | params => params
  .mk params f.body f.name f.closure false (some receiver)

/-- The member of a record with a given name: methods come before fields. -/
def Value.getRecordMember (v : Value) (t : RecordType) (fields : List (Name × Value))
    (name : Name) : Answer :=
  if name.isKey then
    match t.methods.lookup name with
    | some f => .ok (.function (f.bindTo v))
    | none =>
      match fields.lookup name with
      | some w => .ok w
      | none => .fail (.unknownMember name v.typeName)
  else .error (.defect .wrongType)

def Value.getMember (v : Value) (name : Name) : Answer :=
  let unknown : Answer := .fail (.unknownMember name v.typeName)
  match v with
  | .record t fields => v.getRecordMember t fields name
  | .list _ =>
    match Builtin.listMethod? name with
    | some b => .ok (.function (b.function (some v)))
    | none => unknown
  | .text _ =>
    match Builtin.textMethod? name with
    | some b => .ok (.function (b.function (some v)))
    | none => unknown
  | _ => unknown

/-- A fresh state with the built-ins in its outermost frame. -/
def Machine.fresh (input : String) : Machine where
  store := Builtin.globals.foldl
    (fun s b => s.set globals (.text b.name) (.function (b.function none))) Store.root
  active := globals
  callDepth := 0
  input := input.toList
  output := ""
  journal := {}
  told := 0

end Scripting
