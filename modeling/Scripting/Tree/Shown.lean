import Scripting.Name
import Scripting.Number.Text
import Scripting.Tree

/-!
Trees as messages show them: the names of their types, a form in one line, and what a tree is as a
name.
-/

namespace Scripting.Tree

def typeName : Tree → String
  | null => "NoneType"
  | bool _ => "bool"
  | int _ => "int"
  | float _ => "float"
  | text _ => "str"
  | binaryOp _ => "BinOp"
  | unaryOp _ => "UnOp"
  | list _ => "list"
  | pair _ _ => "tuple"
  | node kind _ => kind.name

/-- The name of the type of a tree together with the place where the kinds of nodes belong. -/
def fullTypeName : Tree → String
  | node kind _ => "edl.ast." ++ kind.name
  | t => t.typeName

mutual

def shown : Tree → String
  | null => "None"
  | bool b => if b then "True" else "False"
  | int n => String.ofList (Number.integerText n)
  | float x => Number.shown x
  | text s => Text.quoted s
  | binaryOp op => "<BinOp." ++ op.label ++ ": " ++ Text.quoted op.symbol ++ ">"
  | unaryOp op => "<UnOp." ++ op.label ++ ": " ++ Text.quoted op.symbol ++ ">"
  | list items => "[" ++ ", ".intercalate (shownItems items) ++ "]"
  | pair a b => "(" ++ shown a ++ ", " ++ shown b ++ ")"
  | node kind members =>
    kind.name ++ "(" ++ ", ".intercalate (shownMembers (kind.slots.map Slot.name) members) ++ ")"

def shownItems : List Tree → List String
  | [] => []
  | t :: rest => shown t :: shownItems rest

def shownMembers : List String → List Tree → List String
  | name :: names, t :: rest => (name ++ "=" ++ shown t) :: shownMembers names rest
  | _, _ => []

end

def display : Tree → String
  | text s => s
  | t => t.shown

/-- A tree in the place of a name. -/
def toName : Tree → Name
  | text s => .text s
  | list items => .compound (list items).shown
  | pair a b => .compound (pair a b).shown
  | node kind members => .compound (node kind members).shown
  | t => .data t.shown

end Scripting.Tree
