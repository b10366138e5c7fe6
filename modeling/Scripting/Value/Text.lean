import Scripting.Value

/-!
The texts of values: `Value.text` is what programs print, and `Value.literal?` is a number, a truth
value or a text as a program would write it. Inside of a list or a record texts stand in quotes.
-/

namespace Scripting.Value

def boolText (b : Bool) : String := if b then "true" else "false"

def recordText (name : String) (fields : List String) : String :=
  if fields.isEmpty then name ++ " \x7b\x7d"
  else name ++ " \x7b " ++ ", ".intercalate fields ++ " \x7d"

mutual

def render (nested : Bool) : Value → String
  | number x => Number.plain x
  | bool b => boolText b
  | text s => if nested then Text.literal s else s
  | null => "null"
  | list items => "[" ++ ", ".intercalate (renderItems items) ++ "]"
  | function f => f.text
  | type t => "<type " ++ t.name.shown ++ ">"
  | record t fields => recordText t.name.shown (renderFields fields)
  | datum t => t.shown

def renderItems : List Value → List String
  | [] => []
  | v :: rest => render true v :: renderItems rest

def renderFields : List (Name × Value) → List String
  | [] => []
  | (n, v) :: rest => (n.shown ++ ": " ++ render true v) :: renderFields rest

end

/-- The text that programs print for a value. -/
def shown (v : Value) : String := render false v

/-- A value as a program writes it; compound values have no such form. -/
def literal? : Value → Option String
  | number x => some (Number.plain x)
  | bool b => some (boolText b)
  | text s => some (Text.literal s)
  | _ => none

end Scripting.Value
