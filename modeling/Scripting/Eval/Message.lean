import Scripting.Eval.Fault
import Scripting.Value.Text

/-!
The messages of a run to its trace, and what a run takes from its host. A message is worded from the
values that it shows, and the stack of the host has to hold this; nothing else that a run does needs
more of the stack at one level of the trace than at another.
-/

namespace Scripting

/-- What a run tells its trace: of the statements of the program, of declarations and imports, and of
conditions and calls. -/
inductive Message where
  | statement (s : Stmt)
  | let_ (name : Name) (value : Value) (depth : Nat)
  | const (name : Name) (value : Value)
  | function (name : Name) (params : List Name)
  | import_ (path : Name)
  | type (name : Name) (fields methods : List Name)
  | condition (value : Value)
  | call (function : Name) (args : List Value)

namespace Message

/-- The level of detail from which on a message is written. -/
def level : Message → Int
  | statement _ => 1
  | let_ _ _ _ | const _ _ | function _ _ | import_ _ | type _ _ _ => 2
  | condition _ | call _ _ => 3

def quotedNames (names : List Name) : String :=
  "[" ++ ", ".intercalate (names.map Name.quoted) ++ "]"

def line : Message → String
  | statement s => "exec " ++ s.kindName
  | let_ n v depth => "let " ++ n.shown ++ " = " ++ v.shown ++ " (depth " ++ toString depth ++ ")"
  | const n v => "const " ++ n.shown ++ " = " ++ v.shown
  | function n ps => "define function " ++ n.shown ++ "(" ++ ", ".intercalate (ps.map Name.shown) ++ ")"
  | import_ path => "import " ++ path.quoted ++ " ignored"
  | type n fields methods =>
    "define type " ++ n.shown ++ " fields=" ++ quotedNames fields ++ " methods=" ++ quotedNames methods
  | condition v => "if condition " ++ v.shown ++ " -> " ++ (if v.isTruthy then "True" else "False")
  | call f args => "call " ++ f.shown ++ "(" ++ ", ".intercalate (args.map Value.shown) ++ ")"

def values : Message → List Value
  | let_ _ v _ | const _ v | condition v => [v]
  | call _ args => args
  | statement _ | function _ _ | import_ _ | type _ _ _ => []

end Message

namespace Value

mutual

/-- How deep lists and records are nested in a value. -/
def nesting : Value → Nat
  | list items => nestingOfItems items + 1
  | record _ fields => nestingOfFields fields + 1
  | _ => 0

def nestingOfItems : List Value → Nat
  | [] => 0
  | v :: rest => max (nesting v) (nestingOfItems rest)

def nestingOfFields : List (Name × Value) → Nat
  | [] => 0
  | (_, v) :: rest => max (nesting v) (nestingOfFields rest)

end

end Value

/-- What a run takes from its host: the limit on the depth of the stack as the run finds it, the
greatest limit that can be asked for, and how deep the stack gets when a message is worded, given how
many messages came before it. -/
structure Host where
  stackLimit : Int
  greatestLimit : Int
  depth : (number : Nat) → Message → Nat

/-- The host that programs are run on. Of its stack only what the nesting of a value takes is counted:
four entries for each list or record around another one. -/
def Host.standard : Host where
  stackLimit := 1000
  greatestLimit := 2147483647
  depth _ message := 4 * (message.values.map Value.nesting).foldl max 0

end Scripting
