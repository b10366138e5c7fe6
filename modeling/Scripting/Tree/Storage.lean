import Scripting.Json.Shown
import Scripting.Number.Reader
import Scripting.Tree

/-!
Storing trees and reading them back. A node is an object whose `type` names its kind and whose
other members are those of the kind; members that the kind does not have are ignored. Reading is
liberal: plain data and lists stay as they are wherever they stand, numbers may be texts, and pairs
may be anything with two parts. Members are read in the order of the kind, and the first fault wins.
-/

namespace Scripting

inductive StorageFault where
  | notProgram
  | noBody
  | unknownKind (shown : String)
  | badBinaryOp (shown : String)
  | badUnaryOp (shown : String)
  | badNumeral (shown : String)
  | tooFew (count : Nat)
  | tooMany
  | missing (kind : NodeKind) (names : List String)
  | noItems (typeName : String)
  | noParts (typeName : String)
  | noKey (typeName : String)
  | noNumber (typeName : String)
  | numberRange
  deriving DecidableEq, Repr

namespace StorageFault

inductive Family where
  | value
  | key
  | type
  | range
  deriving DecidableEq, Repr

def family : StorageFault → Family
  | notProgram | unknownKind _ | badBinaryOp _ | badUnaryOp _ | badNumeral _ | tooFew _ | tooMany =>
    .value
  | noBody => .key
  | missing _ _ | noItems _ | noParts _ | noKey _ | noNumber _ => .type
  | numberRange => .range

/-- Names in a sentence. -/
def enumerate : List String → String
  | [] => ""
  | [a] => "'" ++ a ++ "'"
  | [a, b] => "'" ++ a ++ "' and '" ++ b ++ "'"
  | names =>
    ", ".intercalate ((names.dropLast).map fun a => "'" ++ a ++ "'")
      ++ ", and '" ++ names.getLastD "" ++ "'"

def message : StorageFault → String
  | notProgram => "Expected a Program object"
  | noBody => "'body'"
  | unknownKind s => "Unknown AST node type: " ++ s
  | badBinaryOp s => s ++ " is not a valid BinOp"
  | badUnaryOp s => s ++ " is not a valid UnOp"
  | badNumeral s => "could not convert string to float: " ++ s
  | tooFew n => "not enough values to unpack (expected 2, got " ++ toString n ++ ")"
  | tooMany => "too many values to unpack (expected 2)"
  | missing kind names =>
    kind.name ++ ".__init__() missing " ++ toString names.length ++ " required positional argument"
      ++ (if names.length == 1 then "" else "s") ++ ": " ++ enumerate names
  | noItems t => "'" ++ t ++ "' object is not iterable"
  | noParts t => "cannot unpack non-iterable " ++ t ++ " object"
  | noKey t => "unhashable type: '" ++ t ++ "'"
  | noNumber t => "float() argument must be a string or a real number, not '" ++ t ++ "'"
  | numberRange => "int too large to convert to float"

end StorageFault

namespace Tree

def kindOf (type : Option Json) : Except StorageFault NodeKind :=
  match type.getD .null with
  | .array items => .error (.noKey (Json.array items).typeName)
  | .object members => .error (.noKey (Json.object members).typeName)
  | .text s =>
    match NodeKind.ofName? s with
    | some k => .ok k
    | none => .error (.unknownKind s)
  | v => .error (.unknownKind v.display)

def readNumber : Json → Except StorageFault Tree
  | .bool b => .ok (.float (if b then 1 else 0))
  | .int n =>
    let x := Float.ofInt n
    if x.isInf then .error .numberRange else .ok (.float x)
  | .float x => .ok (.float x)
  | .text s =>
    match Number.liberal? s.toList with
    | some x => .ok (.float x)
    | none => .error (.badNumeral (Text.quoted s))
  | v => .error (.noNumber v.typeName)

def readBinaryOp (v : Json) : Except StorageFault Tree :=
  match v with
  | .text s =>
    match BinaryOp.ofSymbol? s with
    | some op => .ok (.binaryOp op)
    | none => .error (.badBinaryOp v.shown)
  | _ => .error (.badBinaryOp v.shown)

def readUnaryOp (v : Json) : Except StorageFault Tree :=
  match v with
  | .text s =>
    match UnaryOp.ofSymbol? s with
    | some op => .ok (.unaryOp op)
    | none => .error (.badUnaryOp v.shown)
  | _ => .error (.badUnaryOp v.shown)

/-- A pair made of the characters of a text or the names of an object. -/
def pairOfTexts : List String → Except StorageFault Tree
  | [a, b] => .ok (.pair (.text a) (.text b))
  | parts => .error (if parts.length < 2 then .tooFew parts.length else .tooMany)

def characters (s : String) : List String := s.toList.map Char.toString

/-- The node made of the members that were read: those of the kind, in order. -/
def assemble (kind : NodeKind) (read : List (String × Except StorageFault Tree)) :
    Except StorageFault Tree := do
  let members ← kind.slots.mapM fun slot =>
    match read.lookup slot.name with
    | some outcome => outcome.map some
    | none => .ok none
  let missing := (kind.slots.zip members).filterMap fun (slot, member) =>
    if member.isNone && slot.absent == .refused then some slot.name else none
  if missing.isEmpty then
    .ok (.node kind ((kind.slots.zip members).map fun (slot, member) =>
      member.getD (if slot.absent == .empty then .list [] else .null)))
  else .error (.missing kind missing)

mutual

def ofJson : Json → Except StorageFault Tree
  | .null => .ok .null
  | .bool b => .ok (.bool b)
  | .int n => .ok (.int n)
  | .float x => .ok (.float x)
  | .text s => .ok (.text s)
  | .array items => (ofItems items).map .list
  | .object members =>
    match kindOf (members.lookup "type") with
    | .error e => .error e
    | .ok kind => assemble kind (ofMembers kind members)

def ofItems : List Json → Except StorageFault (List Tree)
  | [] => .ok []
  | v :: rest => do
    let t ← ofJson v
    let ts ← ofItems rest
    .ok (t :: ts)

/-- Reads the members that a kind has, each in its shape. -/
def ofMembers (kind : NodeKind) : List (String × Json) → List (String × Except StorageFault Tree)
  | [] => []
  | (name, v) :: rest =>
    match kind.slots.find? (·.name == name) with
    | none => ofMembers kind rest
    | some slot =>
      let outcome := match slot.shape with
        | .plain => ofJson v
        | .pairs => ofPairs v
        | .binaryOp => readBinaryOp v
        | .unaryOp => readUnaryOp v
        | .number => readNumber v
      (name, outcome) :: ofMembers kind rest

def ofPairs : Json → Except StorageFault Tree
  | .array items => (ofPairItems items).map .list
  | .text s => ((characters s).mapM fun c => pairOfTexts (characters c)).map .list
  | .object members =>
    ((members.map Prod.fst).mapM fun name => pairOfTexts (characters name)).map .list
  | v => .error (.noItems v.typeName)

def ofPairItems : List Json → Except StorageFault (List Tree)
  | [] => .ok []
  | v :: rest => do
    let t ← ofPair v
    let ts ← ofPairItems rest
    .ok (t :: ts)

def ofPair : Json → Except StorageFault Tree
  | .array [a, b] => do
    let a ← ofJson a
    let b ← ofJson b
    .ok (.pair a b)
  | .array items => .error (if items.length < 2 then .tooFew items.length else .tooMany)
  | .text s => pairOfTexts (characters s)
  | .object members => pairOfTexts (members.map Prod.fst)
  | v => .error (.noParts v.typeName)

end

def programOfJson : Json → Except StorageFault (List Tree)
  | .object members =>
    match members.lookup "type" with
    | some (.text "Program") =>
      match members.lookup "body" with
      | none => .error .noBody
      | some (.array items) => ofItems items
      | some (.text s) => .ok ((characters s).map .text)
      | some (.object inner) => .ok ((inner.map Prod.fst).map .text)
      | some v => .error (.noItems v.typeName)
    | _ => .error .notProgram
  | _ => .error .notProgram

mutual

def toJson : Tree → Json
  | .null => .null
  | .bool b => .bool b
  | .int n => .int n
  | .float x => .float x
  | .text s => .text s
  | .binaryOp op => .text op.symbol
  | .unaryOp op => .text op.symbol
  | .list items => .array (toItems items)
  | .pair a b => .array [toJson a, toJson b]
  | .node kind members =>
    .object (("type", .text kind.name) :: (kind.slots.map Slot.name).zip (toItems members))

def toItems : List Tree → List Json
  | [] => []
  | t :: rest => toJson t :: toItems rest

end

def programToJson (trees : List Tree) : Json :=
  .object [("type", .text "Program"), ("body", .array (toItems trees))]

end Tree

end Scripting
