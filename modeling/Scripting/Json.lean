import Scripting.Named

/-!
Stored data: objects keep the order of their members, and whole numbers are told apart from
fractional ones.
-/

namespace Scripting

/-- A stored value. -/
inductive Json where
  | null
  | bool (b : Bool)
  | int (n : Int)
  | float (x : Float)
  | text (s : String)
  | array (items : List Json)
  | object (members : List (String × Json))

namespace Json

def member? (name : String) : Json → Option Json
  | object members => members.lookup name
  | _ => none

end Json

end Scripting
