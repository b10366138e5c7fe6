import Scripting.Text.Digit
import Scripting.Text.Quoted

/-!
The options of the command line, and what each argument is taken for on its own: an option with or
without a value, a plain argument, or the separator behind which all arguments are plain. A long
option may be shortened as long as no other one starts alike; short options may be run together.
-/

namespace Scripting.CommandLine

inductive Flag where
  | help
  | verbose
  | grammar
  | lineLimit
  | noLineLimit
  | depth
  | emit
  | stored
  deriving DecidableEq, Repr

namespace Flag

/-- All options, in the order in which they are listed. -/
def all : List Flag := [help, verbose, grammar, lineLimit, noLineLimit, depth, emit, stored]

theorem mem_all (f : Flag) : f ∈ all := by cases f <;> decide

def spellings : Flag → List String
  | help => ["-h", "--help"]
  | verbose => ["-v"]
  | grammar => ["--lark"]
  | lineLimit => ["--max-fn-lines"]
  | noLineLimit => ["--no-fn-length-check"]
  | depth => ["--max-depth"]
  | emit => ["--emit-ast"]
  | stored => ["--ast"]

/-- How messages name an option. -/
def label (f : Flag) : String := "/".intercalate f.spellings

def takesValue : Flag → Bool
  | lineLimit | depth | emit | stored => true
  | help | verbose | grammar | noLineLimit => false

def rival? : Flag → Option Flag
  | lineLimit => some noLineLimit
  | noLineLimit => some lineLimit
  | emit => some stored
  | stored => some emit
  | help | verbose | grammar | depth => none

/-- The options that have a spelling with some property, each with that spelling. -/
def withSpelling (p : String → Bool) : List (Flag × String) :=
  all.flatMap fun f => (f.spellings.filter p).map fun s => (f, s)

def ofSpelling? (s : String) : Option Flag := (withSpelling (· == s)).head?.map Prod.fst

end Flag

inductive UsageError where
  | ambiguous (argument : String) (candidates : List String)
  | valueMissing (flag : Flag)
  | valueIgnored (flag : Flag) (value : String)
  | notInteger (flag : Flag) (value : String)
  | excluded (flag earlier : Flag)
  | unrecognized (arguments : List String)
  deriving DecidableEq, Repr

def UsageError.message : UsageError → String
  | ambiguous a cs => "ambiguous option: " ++ a ++ " could match " ++ ", ".intercalate cs
  | valueMissing f => "argument " ++ f.label ++ ": expected one argument"
  | valueIgnored f v => "argument " ++ f.label ++ ": ignored explicit argument " ++ Text.quoted v
  | notInteger f v => "argument " ++ f.label ++ ": invalid int value: " ++ Text.quoted v
  | excluded f e => "argument " ++ f.label ++ ": not allowed with argument " ++ e.label
  | unrecognized as => "unrecognized arguments: " ++ " ".intercalate as

/-- What an argument is taken for. -/
inductive Argument where
  | plain
  | separator
  /-- It looks like an option but is none. -/
  | unknown
  /-- A short option and the characters behind it. -/
  | short (flag : Flag) (rest : List Char)
  /-- A long option and the value behind its equals sign. -/
  | long (flag : Flag) (value : Option String)
  deriving DecidableEq, Repr

namespace Argument

/-- Cuts a text at its first equals sign. -/
def splitValue (cs : List Char) : List Char × Option (List Char) :=
  match cs.dropWhile (· != '=') with
  | [] => (cs, none)
  | _ :: value => (cs.takeWhile (· != '='), some value)

/-- Whether a text is a number with a minus in front of it; a line end behind it does not count. -/
def isNegative (cs : List Char) : Bool :=
  let cs := if cs.getLast? == some '\n' then cs.dropLast else cs
  match cs with
  | '-' :: digits =>
    match digits.dropWhile Text.isDecimal with
    | [] => !digits.isEmpty
    | '.' :: fraction => !fraction.isEmpty && fraction.all Text.isDecimal
    | _ => false
  | _ => false

def ofStray (cs : List Char) : Argument :=
  if isNegative cs || cs.contains ' ' then .plain else .unknown

def ofLong (cs : List Char) : Except UsageError Argument :=
  let (name, value) := splitValue cs
  let value := value.map String.ofList
  match Flag.ofSpelling? (String.ofList name) with
  | some flag => .ok (.long flag value)
  | none =>
    match Flag.withSpelling fun s => name.isPrefixOf s.toList with
    | [] => .ok (ofStray cs)
    | [(flag, _)] => .ok (.long flag value)
    | several => .error (.ambiguous (String.ofList cs) (several.map Prod.snd))

def ofText (s : String) : Except UsageError Argument :=
  match s.toList with
  | ['-', '-'] => .ok .separator
  | '-' :: '-' :: rest => ofLong ('-' :: '-' :: rest)
  | '-' :: c :: rest =>
    match Flag.ofSpelling? (String.ofList ['-', c]) with
    | some flag => .ok (.short flag rest)
    | none => .ok (ofStray ('-' :: c :: rest))
  | _ => .ok .plain

def ofTexts : List String → Except UsageError (List (String × Argument))
  | [] => .ok []
  | s :: rest => do
    let a ← ofText s
    if a == .separator then .ok ((s, a) :: rest.map fun t => (t, .plain))
    else
      let as ← ofTexts rest
      .ok ((s, a) :: as)

end Argument

end Scripting.CommandLine
