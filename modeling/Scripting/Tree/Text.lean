import Scripting.Json.Printer
import Scripting.Json.Reader
import Scripting.Tree.Program

/-!
Programs as text in storage: written with one item to a line, and read back.
-/

namespace Scripting.Program

def storedText (p : Program) : String := Json.Printer.render 0 p.toJson

inductive LoadFault where
  | notData (fault : Json.Reader.Fault)
  | notProgram (fault : StorageFault)
  deriving DecidableEq, Repr

def load (s : String) : Except LoadFault Program :=
  match Json.Reader.read s with
  | .error fault => .error (.notData fault)
  | .ok v => (Program.ofJson v).mapError .notProgram

/-- Whether a program comes back from its stored text. -/
def survivesStorage (p : Program) : Bool :=
  match load p.storedText with
  | .ok q => p.same q
  | .error _ => false

end Scripting.Program
