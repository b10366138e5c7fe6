/-!
Paths of files in the form in which they are shown: without empty parts and without parts that stay
where they are.
-/

namespace Scripting.CommandLine.Path

def parts : List Char → List (List Char)
  | [] => [[]]
  | c :: rest =>
    if c == '/' then [] :: parts rest
    else
      match parts rest with
      | [] => [[c]]
      | part :: more => (c :: part) :: more

/-- The slashes in front of a path; just two of them differ from one. -/
def root (cs : List Char) : String :=
  match (cs.takeWhile (· == '/')).length with
  | 0 => ""
  | 2 => "//"
  | _ => "/"

def shown (path : String) : String :=
  let kept := (parts path.toList).filter fun part => !(part.isEmpty || part == ['.'])
  let text := root path.toList ++ "/".intercalate (kept.map String.ofList)
  if text.isEmpty then "." else text

end Scripting.CommandLine.Path
