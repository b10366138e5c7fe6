import Scripting.CommandLine.Choices
import Scripting.CommandLine.Path
import Scripting.Console
import Scripting.Tree.Text

/-!
The command line program. It runs a program, runs a stored tree, stores the tree of a program, or
opens a console. Which file it reads follows from its arguments alone; the rest is a function of
that file and of the input.
-/

namespace Scripting.CommandLine

/-- What is found at a path. -/
inductive Found where
  | missing
  | folder
  | text (content : String)

/-- What ends a command without a message of its own. -/
inductive Escape where
  | folder
  | notData (fault : Json.Reader.Fault)
  | numberRange
  | failure (cause : Failure)
  deriving DecidableEq, Repr

/-- What a command does: its status, its output, its messages, and the files that it writes. -/
structure Report where
  status : Nat := 0
  output : String := ""
  messages : String := ""
  files : List (String × String) := []
  escape : Option Escape := none

/-- What a command is about. -/
inductive Job where
  | emit (path : String)
  | stored (path : String)
  | program (path : String)
  | console
  deriving DecidableEq, Repr

/-- A path that was given and is not empty, as it is shown. -/
def given? (path : Option String) : Option String :=
  match path with
  | none => none
  | some s => if s.isEmpty then none else some (Path.shown s)

namespace Choices

def job (c : Choices) : Job :=
  match given? c.emit, given? c.stored, given? c.program with
  | some path, _, _ => .emit path
  | none, some path, _ => .stored path
  | none, none, some path => .program path
  | none, none, none => .console

def limit (c : Choices) : Option Int := if c.unlimited then none else some c.lineLimit

def settings (c : Choices) : Settings where
  callLimit := c.callLimit
  debugLevel := c.verbosity
  inputStyle := .console

def mode (c : Choices) : Console.Mode := ⟨c.front, c.limit, c.settings⟩

end Choices

def Job.path? : Job → Option String
  | emit path | stored path | program path => some path
  | console => none

namespace Report

def failed (message : String) : Report := { status := 1, messages := message ++ "\n" }

/-- A command that ends without a message. -/
def escaped (escape : Escape) : Report := { status := 1, escape := some escape }

def traceFile (choices : Choices) (m : Machine) : List (String × String) :=
  if choices.verbosity = 0 then [] else [("debug.txt", m.journal.file)]

def ofRun (choices : Choices) (result : Except Failure Value) (m : Machine) : Report :=
  let report : Report := { output := m.output, files := traceFile choices m }
  match result with
  | .ok _ => report
  | .error (.error e) =>
    { report with status := 1, messages := "Runtime error: " ++ e.text ++ "\n" }
  | .error cause => { report with status := 1, escape := some (.failure cause) }

def run (choices : Choices) (program : Program) (input : String) : Report :=
  let (result, m) := (Machine.fresh input).run choices.settings program
  ofRun choices result m

def console (choices : Choices) (input : String) : Report :=
  let start : Console := { machine := Machine.fresh input, lines := .shared }
  let (cause, c) := (start.write Console.intro).run choices.mode
  let report : Report := { output := c.machine.output, files := traceFile choices c.machine }
  match cause with
  | none => report
  | some cause => { report with status := 1, escape := some (.failure cause) }

/-- Goes on with the text of a file, where every line ends with a line feed. -/
def reading (path : String) (found : Found) (next : String → Report) : Report :=
  match found with
  | .missing => failed ("Error: file " ++ path ++ " not found")
  | .folder => escaped .folder
  | .text content => next (String.ofList (normalizeLines content.toList))

def parsing (choices : Choices) (path source : String) (next : Program → Report) : Report :=
  match choices.front.parse choices.limit source with
  | .ok program => next program
  | .error e => failed (path ++ ": " ++ e.text)

def loading (path source : String) (next : Program → Report) : Report :=
  match Program.load source with
  | .ok program => next program
  | .error (.notData fault) => escaped (.notData fault)
  | .error (.notProgram fault) =>
    if fault.family = .range then escaped .numberRange
    else failed ("Error: " ++ path ++ " is not a valid AST file (" ++ fault.message ++ ")")

/-- Stores a program beside its file. -/
def store (path : String) (program : Program) : Report :=
  let place := path ++ ".ast.json"
  { output := place ++ "\n", files := [(place, program.storedText)] }

/-- Does what was chosen, given the file of the job and the input. -/
def ofChoices (choices : Choices) (found : Found) (input : String) : Report :=
  match choices.job with
  | .emit path =>
    reading path found fun source => parsing choices path source fun p => store path p
  | .stored path =>
    reading path found fun source => loading path source fun p => run choices p input
  | .program path =>
    reading path found fun source => parsing choices path source fun p => run choices p input
  | .console => console choices input

def misused (e : UsageError) : Report :=
  { status := 2, messages := "edl: error: " ++ e.message ++ "\n" }

def help : Report where
  output := "usage: edl [-h] [-v] [--lark] [--max-fn-lines N | --no-fn-length-check]\n"
    ++ "           [--max-depth N] [--emit-ast EDL_FILE | --ast AST_JSON_FILE]\n"
    ++ "           [program]\n\nEDL language interpreter\n\npositional arguments:\n"
    ++ "  program               EDL program file (.edl) to execute\n\noptions:\n"
    ++ "  -h, --help            show this help message and exit\n"
    ++ "  -v                    increase debug verbosity (can be repeated)\n"
    ++ "  --lark                parse with the lark grammar\n"
    ++ "  --max-fn-lines N      maximum number of lines in a function body (default:\n"
    ++ "                        64)\n"
    ++ "  --no-fn-length-check  do not limit function length\n"
    ++ "  --max-depth N         maximum function call depth (default: 200)\n"
    ++ "  --emit-ast EDL_FILE   emit AST JSON for the given .edl file\n"
    ++ "  --ast AST_JSON_FILE   execute AST from a JSON file\n"

end Report

/-- Whether a command line can read the input: help, misuse and storing leave it alone. -/
def readsInput (arguments : List String) : Bool :=
  match Order.ofArguments arguments with
  | .ok (.choose choices) =>
    match choices.job with
    | .emit _ => false
    | .stored _ | .program _ | .console => true
  | _ => false

def fileOf? (arguments : List String) : Option String :=
  match Order.ofArguments arguments with
  | .ok (.choose choices) => choices.job.path?
  | _ => none

def report (arguments : List String) (found : Found) (input : String) : Report :=
  match Order.ofArguments arguments with
  | .error e => .misused e
  | .ok .help => .help
  | .ok (.choose choices) => .ofChoices choices found input

end Scripting.CommandLine
