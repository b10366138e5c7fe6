import Scripting.Session
import Scripting.Text.Blank
import Scripting.Value.Text

/-!
The console: a session that is given line by line. A line that leaves a statement unfinished is kept
and joined with the next one; a finished text is run, and its value is shown unless it is null. The
lines have a text of their own, or they share the input of the programs that they run.
-/

namespace Scripting

namespace Console

/-- How the texts of a console are parsed and run. -/
structure Mode where
  front : FrontEnd := .descent
  limit : Option Int := some defaultLimit
  settings : Settings := {}

/-- Where the lines come from. -/
inductive Lines where
  | own (rest : List Char)
  | shared

/-- What a line asks for. -/
inductive Request where
  | nothing
  | help
  | leave
  | finish
  | evaluate (text : String)
  deriving DecidableEq, Repr

/-- What becomes of a console after a line. -/
inductive Reply where
  | proceed
  | stop
  | abort (cause : Failure)
  deriving DecidableEq, Repr

def isWordChar (c : Char) : Bool := c.isAlphanum || c == '_'

/-- The request of a line. The first word decides, whatever follows it. -/
def Request.ofLine (line : List Char) : Request :=
  let line := Text.strip line
  let word := String.ofList (line.takeWhile isWordChar)
  if line.isEmpty then .nothing
  else if line.head? == some '?' || word == "help" then .help
  else if word == "exit" then .leave
  else if word == "EOF" then .finish
  else .evaluate (String.ofList line)

/-- The lines above the first prompt. -/
def intro : String := "EDL interactive interpreter\nType 'exit' or press Ctrl-D to quit.\n"

def firstPrompt : String := "edl> "

/-- The prompt for the rest of an unfinished text. -/
def secondPrompt : String := "... "

def helpText : String :=
  "Type EDL statements or expressions, for example:\n  let x = 2 + 3;\n  print x * 2;\n"
    ++ "Unfinished input continues on a '... ' prompt. 'exit' quits.\n"

end Console

/-- A console between two lines: the state of its programs, where its lines come from, the text that
waits for the rest of a statement, and the prompt. -/
structure Console where
  machine : Machine
  lines : Console.Lines
  waiting : String := ""
  prompt : String := Console.firstPrompt

namespace Console

/-- Writes between the output of the programs. -/
def write (text : String) (c : Console) : Console :=
  { c with machine := { c.machine with output := c.machine.output ++ text } }

def unread (c : Console) : List Char :=
  match c.lines with
  | .own rest => rest
  | .shared => c.machine.input

/-- Takes the next line; where none is left the line asks to finish. -/
def takeLine (c : Console) : List Char × Console :=
  if c.unread.isEmpty then ("EOF".toList, c)
  else
    let (line, rest) := splitLine c.unread
    match c.lines with
    | .own _ => (line, { c with lines := .own rest })
    | .shared => (line, { c with machine := { c.machine with input := rest } })

def reset (c : Console) : Console := { c with waiting := "", prompt := firstPrompt }

/-- Runs the waiting text with a further line, or lets it wait if it is unfinished. -/
def evaluate (mode : Mode) (line : String) (c : Console) : Reply × Console :=
  let source := c.waiting ++ line
  match mode.front.parse mode.limit source with
  | .error e =>
    if e.fault.kind = .unexpectedEnd then
      (.proceed, { c with waiting := source ++ "\n", prompt := secondPrompt })
    else (.proceed, c.reset.write ("Error: " ++ e.text ++ "\n"))
  | .ok program =>
    let c := c.reset
    let (result, machine) := c.machine.run mode.settings program
    let c := { c with machine := machine }
    match result with
    | .ok .null => (.proceed, c)
    | .ok v => (.proceed, c.write (v.shown ++ "\n"))
    | .error (.error e) => (.proceed, c.write ("Error: " ++ e.text ++ "\n"))
    | .error cause => (.abort cause, c)

def respond (mode : Mode) (line : List Char) (c : Console) : Reply × Console :=
  match Request.ofLine line with
  | .nothing => (.proceed, c)
  | .help => (.proceed, c.write helpText)
  | .leave => (.stop, c)
  | .finish => (.stop, c.write "\n")
  | .evaluate text => c.evaluate mode text

/-- Prompts, reads and responds, a number of times at most. A console that stops closes its trace;
one that is aborted does not. -/
def repeatUpTo (mode : Mode) : Nat → Console → Option Failure × Console
  | 0, c => (none, c)
  | n + 1, c =>
    let (line, c) := (c.write c.prompt).takeLine
    match c.respond mode line with
    | (.proceed, c) => repeatUpTo mode n c
    | (.stop, c) => (none, { c with machine := c.machine.close })
    | (.abort cause, c) => (some cause, c)

/-- Runs a console to its end. Every line but the one that finishes takes a character at least. -/
def run (mode : Mode) (c : Console) : Option Failure × Console :=
  c.repeatUpTo mode (c.unread.length + 1)

end Console

end Scripting
