import Scripting.Json
import Scripting.Number.Text
import Scripting.Text.Quoted

/-!
Writing stored data, two spaces deeper at every level and one item to a line. Empty arrays and
objects stay on one line; characters outside of ASCII are written as they are.
-/

namespace Scripting.Json.Printer

def textChar (c : Char) : List Char :=
  if c == '"' || c == '\\' then ['\\', c]
  else if c == '\n' then ['\\', 'n']
  else if c == '\r' then ['\\', 'r']
  else if c == '\t' then ['\\', 't']
  else if c == '\x0c' then ['\\', 'f']
  else if c == '\x08' then ['\\', 'b']
  else if c.toNat < 0x20 then '\\' :: 'u' :: Text.hex 4 c.toNat
  else [c]

def text (s : String) : String := String.ofList ('"' :: s.toList.flatMap textChar ++ ['"'])

def float (x : Float) : String :=
  if x.isNaN then "NaN"
  else if x.isInf then (if x < 0 then "-Infinity" else "Infinity")
  else Number.shown x

def newline (depth : Nat) : String := "\n" ++ String.ofList (List.replicate (2 * depth) ' ')

mutual

/-- A value whose first line is already indented. -/
def render (depth : Nat) : Json → String
  | .null => "null"
  | .bool b => if b then "true" else "false"
  | .int n => toString n
  | .float x => float x
  | .text s => text s
  | .array [] => "[]"
  | .array (v :: rest) =>
    "[" ++ newline (depth + 1) ++ render (depth + 1) v ++ renderItems (depth + 1) rest
      ++ newline depth ++ "]"
  | .object [] => "\x7b\x7d"
  | .object ((name, v) :: rest) =>
    "\x7b" ++ newline (depth + 1) ++ text name ++ ": " ++ render (depth + 1) v
      ++ renderMembers (depth + 1) rest ++ newline depth ++ "\x7d"

def renderItems (depth : Nat) : List Json → String
  | [] => ""
  | v :: rest => "," ++ newline depth ++ render depth v ++ renderItems depth rest

def renderMembers (depth : Nat) : List (String × Json) → String
  | [] => ""
  | (name, v) :: rest =>
    "," ++ newline depth ++ text name ++ ": " ++ render depth v ++ renderMembers depth rest

end

end Scripting.Json.Printer
