import Scripting.Eval.Step
import Scripting.Grammar.Choice
import Scripting.Parser.Statement

/-!
Sessions: a state that lives on from one piece of program to the next. After a failure the session
goes on with the state as the failure left it. A text is parsed as a whole before any of it runs.
-/

namespace Scripting

inductive FrontEnd where
  | descent
  | grammar
  deriving DecidableEq, Repr

def FrontEnd.parse (front : FrontEnd) (limit : Option Int) (source : String) :
    Except SyntaxError Program :=
  match front with
  | .descent => Scripting.parse limit source
  | .grammar => parseGrammar limit source

namespace Machine

def run (settings : Settings) (p : Program) (m : Machine) : Except Failure Value × Machine :=
  Eval.runAll settings manySteps .null p m

def runStmt (settings : Settings) (s : Stmt) (m : Machine) : Except Failure Value × Machine :=
  Eval.runStmt settings manySteps s m

def runExpr (settings : Settings) (e : Expr) (m : Machine) : Except Failure Value × Machine :=
  Eval.runExpr settings manySteps e m

def close (m : Machine) : Machine := { m with journal := m.journal.close }

end Machine

/-- A text as a text file gives it: every line ends with a line feed. -/
def normalizeLines : List Char → List Char
  | '\r' :: '\n' :: rest => '\n' :: normalizeLines rest
  | '\r' :: rest => '\n' :: normalizeLines rest
  | c :: rest => c :: normalizeLines rest
  | [] => []

end Scripting
