import Scripting.Tree.Program
import Scripting.Value

/-!
Equality of values. Values of different variants are never equal; numbers are compared as numbers;
the order of fields and methods does not matter; functions are equal when name, parameters and body
are, whatever frame they were made in and whatever their receiver. Data that is no value of the
language is never equal to anything.
-/

namespace Scripting

def Function.same (f g : Function) : Bool :=
  f.params == g.params && Program.same f.body g.body && f.name == g.name && f.native == g.native

namespace Value

/-- Whether two lists of methods are equal up to order. -/
def sameMethods (fs gs : List (Name × Function)) : Bool :=
  fs.length == gs.length && fs.all fun (n, f) => ((gs.lookup n).map (Function.same f)).getD false

mutual

def same : Value → Value → Bool
  | number x, number y => x == y
  | bool a, bool b => a == b
  | text a, text b => a == b
  | null, null => true
  | list as, list bs => sameItems as bs
  | function f, function g => f.same g
  | type t, type u => sameType t u
  | record t fs, record u gs => sameType t u && fs.length == gs.length && sameFields fs gs
  | _, _ => false

def sameItems : List Value → List Value → Bool
  | [], [] => true
  | a :: as, b :: bs => same a b && sameItems as bs
  | _, _ => false

/-- Whether every field has an equal one of the same name in the other list. -/
def sameFields : List (Name × Value) → List (Name × Value) → Bool
  | [], _ => true
  | (n, v) :: rest, gs =>
    match gs.lookup n with
    | some w => same v w && sameFields rest gs
    | none => false

def sameType : RecordType → RecordType → Bool
  | .mk n fs ms, .mk k gs ns =>
    n == k && fs.length == gs.length && sameFields fs gs && sameMethods ms ns

end

end Value

end Scripting
