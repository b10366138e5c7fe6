import Scripting.CommandLine.Flag
import Scripting.Number.Reader
import Scripting.Session

/-!
What a command line chooses. The arguments are read from the left; the first plain one names the
program. What nothing takes is collected and refused at the end, so every other error comes first.
-/

namespace Scripting.CommandLine

/-- What the options and the plain argument choose. -/
structure Choices where
  verbosity : Nat := 0
  front : FrontEnd := .descent
  lineLimit : Int := defaultLimit
  unlimited : Bool := false
  callLimit : Int := 200
  emit : Option String := none
  stored : Option String := none
  program : Option String := none
  deriving DecidableEq, Repr

/-- A command line asks for help or makes choices. -/
inductive Order where
  | help
  | choose (choices : Choices)
  deriving DecidableEq, Repr

/-- The state of reading: the choices, the options that exclude others, whether help was asked for,
and what nothing took, the last first. -/
structure Reading where
  choices : Choices := {}
  excluding : List Flag := []
  helpAsked : Bool := false
  extras : List String := []

namespace Reading

/-- Notes an option that does not stand beside its rival. -/
def occupy (flag : Flag) (r : Reading) : Except UsageError Reading :=
  match flag.rival? with
  | some rival =>
    if r.excluding.contains rival then .error (.excluded flag rival)
    else .ok { r with excluding := flag :: r.excluding }
  | none => .ok r

def switch (flag : Flag) (r : Reading) : Except UsageError Reading := do
  let r ← r.occupy flag
  match flag with
  | .help => .ok { r with helpAsked := true }
  | .verbose => .ok { r with choices.verbosity := r.choices.verbosity + 1 }
  | .grammar => .ok { r with choices.front := .grammar }
  | .noLineLimit => .ok { r with choices.unlimited := true }
  | .lineLimit | .depth | .emit | .stored => .error (.valueMissing flag)

def integer (flag : Flag) (value : String) : Except UsageError Int :=
  match Number.wholeNumber? value.toList with
  | some n => .ok n
  | none => .error (.notInteger flag value)

/-- An option with a value. The standard limit of lines excludes nothing. -/
def assign (flag : Flag) (value : String) (r : Reading) : Except UsageError Reading :=
  match flag with
  | .lineLimit => do
    let n ← integer flag value
    let r ← if n = defaultLimit then .ok r else r.occupy flag
    .ok { r with choices.lineLimit := n }
  | .depth => do
    let n ← integer flag value
    .ok { r with choices.callLimit := n }
  | .emit => do
    let r ← r.occupy flag
    .ok { r with choices.emit := some value }
  | .stored => do
    let r ← r.occupy flag
    .ok { r with choices.stored := some value }
  | .help | .verbose | .grammar | .noLineLimit => .error (.valueIgnored flag value)

/-- Short options that are run together; a letter that is no option ends them and is left over. -/
def letters (flag : Flag) : List Char → Except UsageError (List Flag × Option String)
  | [] => .ok ([flag], none)
  | '=' :: value => .error (.valueIgnored flag (String.ofList value))
  | c :: rest =>
    if c == '-' then .error (.valueIgnored flag (String.ofList (c :: rest)))
    else
      match Flag.ofSpelling? (String.ofList ['-', c]) with
      | some next => do
        let (flags, left) ← letters next rest
        .ok (flag :: flags, left)
      | none => .ok ([flag], some (String.ofList ('-' :: c :: rest)))

/-- Keeps an argument that nothing takes. -/
def leave (text : String) (r : Reading) : Reading := { r with extras := text :: r.extras }

/-- Reads the arguments until help is asked for. -/
def arguments (r : Reading) : List (String × Argument) → Except UsageError Reading
  | [] => .ok r
  | (text, .plain) :: rest =>
    if r.choices.program.isSome then arguments (r.leave text) rest
    else
      let r := { r with choices.program := some text }
      match rest with
      | (_, .separator) :: rest => arguments r rest
      | rest => arguments r rest
  | (text, .separator) :: rest =>
    arguments (if r.choices.program.isSome then r.leave text else r) rest
  | (text, .unknown) :: rest => arguments (r.leave text) rest
  | (_, .short flag tail) :: rest => do
    let (flags, left) ← letters flag tail
    let r ← flags.foldlM (fun r f => if r.helpAsked then .ok r else r.switch f) r
    if r.helpAsked then .ok r
    else arguments (match left with
      | some text => r.leave text
      | none => r) rest
  | (_, .long flag (some value)) :: rest => do
    let r ← r.assign flag value
    arguments r rest
  | (_, .long flag none) :: rest =>
    if flag.takesValue then
      match rest with
      | (value, .plain) :: rest => do
        let r ← r.assign flag value
        arguments r rest
      | _ => .error (.valueMissing flag)
    else do
      let r ← r.switch flag
      if r.helpAsked then .ok r else arguments r rest

end Reading

def Order.ofArguments (texts : List String) : Except UsageError Order := do
  let r ← Reading.arguments {} (← Argument.ofTexts texts)
  if r.helpAsked then .ok .help
  else if r.extras.isEmpty then .ok (.choose r.choices)
  else .error (.unrecognized r.extras.reverse)

end Scripting.CommandLine
