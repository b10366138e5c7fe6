import Scripting.Eval.Message
import Scripting.Store

/-!
The state of a run: the frames, the active one, the depth of calls, what is left of the input, what
was printed, and the journal of the trace. A computation ends with a value or a failure, and in
either case with a state.
-/

namespace Scripting

/-- How a line of input is read. A stream drops all line ends behind a line, a console only one. -/
inductive InputStyle where
  | stream
  | console
  deriving DecidableEq, Repr

/-- What stays the same during a run. -/
structure Settings where
  callLimit : Int := 200
  debugLevel : Int := 0
  inputStyle : InputStyle := .stream
  host : Host := .standard

namespace Settings

/-- The entries of the stack of the host that are asked for, for each call of the language. -/
def entriesPerCall : Int := 50

/-- The limit on the stack of the host while a statement or an expression is run. -/
def stackLimit (settings : Settings) : Int :=
  max settings.host.stackLimit (settings.callLimit * entriesPerCall)

/-- Whether the stack of the host holds the wording of a message. The statements of a program are told
of before the limit is set, where the stack is hardly used. -/
def holds (settings : Settings) (number : Nat) : Message → Bool
  | .statement _ => true
  | message => settings.host.depth number message ≤ settings.stackLimit

end Settings

/-- The trace: a file while it is open, and the error output afterwards. -/
structure Journal where
  isOpen : Bool := true
  file : String := ""
  errors : String := ""

namespace Journal

def add (line : String) : Journal → Journal
  | ⟨true, file, errors⟩ => ⟨true, file ++ line ++ "\n", errors⟩
  | ⟨false, file, errors⟩ => ⟨false, file, errors ++ line ++ "\n"⟩

def close (j : Journal) : Journal := { j with isOpen := false }

end Journal

structure Machine where
  store : Store
  active : FrameId
  callDepth : Nat
  input : List Char
  output : String
  journal : Journal
  /-- How many messages there were for the trace, whether or not they were written. -/
  told : Nat

/-- The outermost frame, which holds the names of the whole program. -/
def globals : FrameId := 0

abbrev Eval := ExceptT Failure (StateM Machine)

namespace Eval

variable {α : Type}

def fail (e : RuntimeError) : Eval α := throw (.error e)

def spoil (d : Defect) : Eval α := throw (.defect d)

/-- The answer of a pure computation. -/
def ofExcept (r : Except Failure α) : Eval α :=
  match r with
  | .ok a => pure a
  | .error e => throw e

def activeFrame : Eval FrameId := fun m => (.ok m.active, m)

def callDepth : Eval Nat := fun m => (.ok m.callDepth, m)

def store : Eval Store := fun m => (.ok m.store, m)

/-- Refuses a name that cannot be looked up. -/
def requireKey (name : Name) : Eval Unit := if name.isKey then pure () else spoil .wrongType

def changeStore (change : FrameId → Store → Store) : Eval Unit := fun
  | ⟨store, active, depth, input, output, journal, told⟩ =>
    (.ok (), ⟨change active store, active, depth, input, output, journal, told⟩)

def bind (name : Name) (value : Value) : Eval Unit := do
  requireKey name
  changeStore fun active store => store.set active name value

def bindConstant (name : Name) (value : Value) : Eval Unit := do
  requireKey name
  changeStore fun active store => store.declareConstant active name value

def lookup (name : Name) : Eval (Option Value) := do
  requireKey name
  return (← store).get? (← activeFrame) name

/-- What an assignment comes to, and the frames after it. -/
def assignStore (name : Name) (value : Value) : Eval Store.Assigned := fun
  | ⟨store, active, depth, input, output, journal, told⟩ =>
    let (assigned, store) := store.assign active name value
    (.ok assigned, ⟨store, active, depth, input, output, journal, told⟩)

def assign (name : Name) (value : Value) : Eval Unit := do
  requireKey name
  match ← assignStore name value with
  | .done => return ()
  | .undefined => fail (.undefinedVariable name)
  | .constant => fail (.constantAssignment name)

def newFrame (parent : FrameId) : Eval FrameId := fun
  | ⟨store, active, depth, input, output, journal, told⟩ =>
    let (frame, store) := store.child parent
    (.ok frame, ⟨store, active, depth, input, output, journal, told⟩)

/-- Runs a computation in another frame; the active frame is then the one that it was before. -/
def inFrame (frame : FrameId) (action : Eval α) : Eval α := fun
  | ⟨store, active, depth, input, output, journal, told⟩ =>
    let (result, m) := action ⟨store, frame, depth, input, output, journal, told⟩
    (result, { m with active := active })

/-- Runs a computation one call deeper, and counts the call out again. -/
def deeper (action : Eval α) : Eval α := fun
  | ⟨store, active, depth, input, output, journal, told⟩ =>
    let (result, m) := action ⟨store, active, depth + 1, input, output, journal, told⟩
    (result, { m with callDepth := m.callDepth - 1 })

def printLine (line : String) : Eval Unit := fun
  | ⟨store, active, depth, input, output, journal, told⟩ =>
    (.ok (), ⟨store, active, depth, input, output ++ line ++ "\n", journal, told⟩)

/-- Tells the trace a message, which is worded and written from its level of detail on. -/
def trace (settings : Settings) (message : Message) : Eval Unit := fun
  | ⟨store, active, depth, input, output, journal, told⟩ =>
    if settings.debugLevel < message.level then
      (.ok (), ⟨store, active, depth, input, output, journal, told + 1⟩)
    else if settings.holds told message then
      (.ok (), ⟨store, active, depth, input, output, journal.add message.line, told + 1⟩)
    else (.error .exhausted, ⟨store, active, depth, input, output, journal, told + 1⟩)

/-- An outcome as it leaves a run. Where the stack of the host did not suffice, that is an error of the
language. -/
def unwound : Except Failure α → Except Failure α
  | .error .exhausted => .error (.error .stackExhausted)
  | outcome => outcome

/-- Runs a computation with as much of the stack of the host as the limit on calls needs. -/
def onHostStack (settings : Settings) (action : Eval α) : Eval α := fun m =>
  if settings.host.greatestLimit < settings.stackLimit then (.error (.defect .limitTooLarge), m)
  else
    let (outcome, m) := action m
    (unwound outcome, m)

end Eval

/-- The first line of a text without its line end, and the rest. -/
def splitLine (cs : List Char) : List Char × List Char :=
  (cs.takeWhile (· != '\n'), (cs.dropWhile (· != '\n')).drop 1)

def dropLineEnds (cs : List Char) : List Char :=
  (cs.reverse.dropWhile fun c => c == '\r' || c == '\n').reverse

/-- Reads a line of input; at the end of the input the line is empty. -/
def Eval.readLine (settings : Settings) : Eval String := fun m =>
  let (line, rest) := splitLine m.input
  let line := match settings.inputStyle with
    | .stream => dropLineEnds line
    | .console => line
  (.ok (String.ofList line), { m with input := rest })

end Scripting
