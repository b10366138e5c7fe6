import Scripting.Named
import Scripting.Syntax
import Scripting.Text.Quoted
import Scripting.Number.Text

/-!
Values of programs. Values never change: only frames do, and a function refers to the frame that it
was made in. A record keeps the type that it was made from as the type was then. Data that is no
value of the language can get in through stored programs; it counts as true and equals nothing.
-/

namespace Scripting

/-- Frames are known by number. -/
abbrev FrameId := Nat

mutual

inductive Value where
  | number (x : Float)
  | bool (b : Bool)
  | text (s : String)
  | null
  | list (items : List Value)
  | function (f : Function)
  | type (t : RecordType)
  | record (t : RecordType) (fields : List (Name × Value))
  /-- Data that a stored program has in the place of a text. -/
  | datum (t : Tree)

/-- A function: its parameters, its body, its name, the frame that it was made in, whether it is
built in, and the receiver of a method that was taken from a value. -/
inductive Function where
  | mk (params : List Name) (body : List Stmt) (name : Name) (closure : Option FrameId)
    (native : Bool) (receiver : Option Value)

/-- A record type: its name, the default values of its fields, and its methods. -/
inductive RecordType where
  | mk (name : Name) (fields : List (Name × Value)) (methods : List (Name × Function))

end

namespace Function

def params : Function → List Name
  | mk params _ _ _ _ _ => params

def body : Function → List Stmt
  | mk _ body _ _ _ _ => body

def name : Function → Name
  | mk _ _ name _ _ _ => name

def closure : Function → Option FrameId
  | mk _ _ _ closure _ _ => closure

def native : Function → Bool
  | mk _ _ _ _ native _ => native

def receiver : Function → Option Value
  | mk _ _ _ _ _ receiver => receiver

/-- The name of a function that was given none. -/
def unnamed : Name := .text "<lambda>"

def text (f : Function) : String :=
  if f.native then "<builtin " ++ f.name.shown ++ ">" else "<fn " ++ f.name.shown ++ ">"

end Function

namespace RecordType

def name : RecordType → Name
  | mk name _ _ => name

def fields : RecordType → List (Name × Value)
  | mk _ fields _ => fields

def methods : RecordType → List (Name × Function)
  | mk _ _ methods => methods

/-- The type of dictionaries, which has neither fields nor methods. -/
def dict : RecordType := mk (.text "dict") [] []

instance : Inhabited RecordType := ⟨dict⟩

end RecordType

namespace Value

instance : Inhabited Value := ⟨null⟩

/-- The value of data in the place of a text. Truth values, numbers and texts are values of the
language. -/
def ofTree : Tree → Value
  | .bool b => bool b
  | .float x => number x
  | .text s => text s
  | t => datum t

def typeName : Value → String
  | number _ => "Number"
  | bool _ => "Bool"
  | text _ => "String"
  | null => "Null"
  | list _ => "List"
  | function _ => "Function"
  | type _ => "Type"
  | record t _ => t.name.shown
  | datum t => t.typeName

def isNumber : Value → Bool
  | number _ => true
  | _ => false

def isTruthy : Value → Bool
  | number x => x != 0
  | bool b => b
  | text s => !s.isEmpty
  | null => false
  | list items => !items.isEmpty
  | function _ | type _ | record _ _ | datum _ => true

end Value

end Scripting
