import Scripting.CommandLine

/-!
The executable: it reads the file and the input that a command line asks for, and hands over what
the command does.
-/

namespace Scripting.CommandLine

def find (path : String) : IO Found := do
  try
    return .text (← IO.FS.readFile path)
  catch
    | .noFileOrDirectory _ _ _ => return .missing
    | .inappropriateType _ _ _ => return .folder
    | e => throw e

def perform (arguments : List String) : IO UInt32 := do
  let found ← match fileOf? arguments with
    | some path => find path
    | none => pure .missing
  let input ← if readsInput arguments then (← IO.getStdin).readToEnd else pure ""
  let r := report arguments found input
  for (path, content) in r.files do
    IO.FS.writeFile path content
  (← IO.getStdout).putStr r.output
  (← IO.getStderr).putStr r.messages
  return r.status.toUInt32

end Scripting.CommandLine

def main (arguments : List String) : IO UInt32 := Scripting.CommandLine.perform arguments
