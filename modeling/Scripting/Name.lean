import Scripting.Text.Quoted

/-!
Names of variables, parameters, fields and types. The names in a written program are texts. Stored
programs can have plain data as names, which are known by the form in which messages show them, and
lists or nodes, which cannot be looked up.
-/

namespace Scripting

inductive Name where
  | text (s : String)
  /-- Plain data, such as a number. -/
  | data (shown : String)
  /-- A list or a node. -/
  | compound (shown : String)
  deriving DecidableEq, Repr

namespace Name

def shown : Name → String
  | text s | data s | compound s => s

/-- A name in a list of names, where texts stand in quotes. -/
def quoted : Name → String
  | text s => Text.quoted s
  | data s | compound s => s

/-- Whether a name can be bound and looked up. -/
def isKey : Name → Bool
  | text _ | data _ => true
  | compound _ => false

end Name

end Scripting
