import ScriptWorker.Path

/-!
# File names

The arithmetic of file names as texts: joining, taking the directory above and the last name. Dots
and doubled slashes inside a name stay as they are; only the end of a name is cleaned.
-/

namespace ScriptWorker.Files.Name

/-- A name below a directory; an absolute name stands for itself. -/
def join (directory name : String) : String :=
  if Path.isAbsolute name then name
  else if directory.isEmpty || Path.endsWith "/" directory then directory ++ name
  else directory ++ "/" ++ name

/-- Segments without the empty and `.` ones at the end; the list is given and returned last first. -/
def trimmed : List (List Char) → List (List Char)
  | [] => []
  | [first] => [first]
  | segment :: rest => if segment = [] ∨ segment = ['.'] then trimmed rest else segment :: rest

def reversedSegments (name : String) : List (List Char) :=
  trimmed (Path.splitAt '/' name.toList).reverse

/-- The last segment, if the name ends in one that is not `..`. -/
def last (name : String) : Option String :=
  match reversedSegments name with
  | [] => none
  | segment :: _ =>
    if segment = [] ∨ segment = ['.', '.'] ∨ segment = ['.'] then none
    else some (String.ofList segment)

/-- The directory above: the name without its last segment. The root has none. -/
def parent (name : String) : Option String :=
  match reversedSegments name with
  | [] => none
  | [segment] => if segment = [] then none else some ""
  | _ :: rest =>
    let kept := (trimmed rest).reverse
    if kept = [[]] then some "/" else some (String.ofList (Path.joinWith '/' kept))

def withSlashes (name : String) : String :=
  String.ofList (name.toList.map fun c => if c = '\\' then '/' else c)

end ScriptWorker.Files.Name
