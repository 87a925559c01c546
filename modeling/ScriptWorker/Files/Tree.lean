import ScriptWorker.Collections.Dictionary
import ScriptWorker.Failure
import ScriptWorker.Files.Name

/-!
# A tree of files

Files, directories and symbolic links below one root, each with the time of its last change in
milliseconds (negative before 1970). Reaching a name follows links, at most forty of them. Names have
a greatest length, as a whole and between two slashes, and no zero bytes.
-/

namespace ScriptWorker.Files

inductive Node where
  | file (content : ByteArray) (modified : Int)
  | directory (modified : Int)
  | link (target : String)

/-- Nodes by the list of names that leads to them; the root is always there. -/
structure Tree where
  nodes : Dictionary (List String) Node

namespace Tree

def empty : Tree := ⟨Dictionary.empty⟩

instance : Inhabited Tree := ⟨empty⟩

def isDirectoryAt (t : Tree) (place : List String) : Bool :=
  place.isEmpty || match t.nodes.get? place with
    | some (.directory _) => true
    | _ => false

/-- The segments of a name, empty ones included: an empty segment asks for a directory. -/
def rawSegments (name : String) : List String :=
  (Path.splitAt '/' name.toList).map String.ofList

def linkLimit : Nat := 40

def segmentLimit : Nat := 255

def nameLimit : Nat := 4095

/-- Follow segments from a place, through links. With `fresh`, what the last segment names need not be
there, only the directory above it. -/
def walk (t : Tree) (fresh : Bool) (links : Nat) (place : List String) (segments : List String) :
    Except IoKind (List String) :=
  match segments with
  | [] => .ok place
  | segment :: rest =>
    if !t.isDirectoryAt place then .error .notADirectory
    else if segment = "" ∨ segment = "." then t.walk fresh links place rest
    else if segment = ".." then t.walk fresh links place.dropLast rest
    else if segmentLimit < segment.utf8ByteSize then .error .invalidFilename
    else
      match t.nodes.get? (place ++ [segment]) with
      | none => if fresh && rest.isEmpty then .ok (place ++ [segment]) else .error .notFound
      | some (.link target) =>
        match links with
        | 0 => .error .linkLoop
        | links + 1 =>
          let start := if Path.isAbsolute target then [] else place
          t.walk fresh links start (rawSegments target ++ rest)
      | some _ => t.walk fresh links (place ++ [segment]) rest
termination_by (links, segments.length)

def resolve (t : Tree) (name : String) : Except IoKind (List String) :=
  if '\x00' ∈ name.toList then .error .invalidInput
  else if name.isEmpty then .error .notFound
  else t.walk false linkLimit [] (rawSegments name)

def locate (t : Tree) (name : String) : Except IoKind (List String) :=
  if '\x00' ∈ name.toList then .error .invalidInput
  else if nameLimit < name.utf8ByteSize then .error .invalidFilename
  else t.resolve name

def nameOf (place : List String) : String := "/" ++ "/".intercalate place

/-- The one name of what a name leads to, or the name itself when nothing is there. It is found piece
by piece, so the name may be of any length. -/
def canonical (t : Tree) (name : String) : String :=
  match t.resolve name with
  | .ok place => nameOf place
  | .error _ => name

def node (t : Tree) (name : String) : Except IoKind Node := do
  let place ← t.locate name
  if place.isEmpty then return .directory 0
  match t.nodes.get? place with
  | some found => return found
  | none => throw .notFound

def isDirectory (t : Tree) (name : String) : Bool :=
  match t.node name with
  | .ok (.directory _) => true
  | _ => false

def isFile (t : Tree) (name : String) : Bool :=
  match t.node name with
  | .ok (.file ..) => true
  | _ => false

/-- Milliseconds since 1970 of the last change; zero when unknown or earlier. -/
def modified (t : Tree) (name : String) : UInt64 :=
  match t.node name with
  | .ok (.file _ time) => UInt64.ofNat time.toNat
  | .ok (.directory time) => UInt64.ofNat time.toNat
  | _ => 0

def length (t : Tree) (name : String) : Nat :=
  match t.node name with
  | .ok (.file content _) => content.size
  | _ => 0

def read (t : Tree) (name : String) : Except IoKind ByteArray := do
  match ← t.node name with
  | .file content _ => return content
  | .directory _ => throw .isADirectory
  | .link _ => throw .linkLoop

def namesIn (t : Tree) (place : List String) : List String :=
  (t.nodes.keys.filterMap fun key =>
    if key.dropLast = place then key.getLast? else none).mergeSort (fun a b => decide (a ≤ b))

/-- The files below a place, directory by directory in byte order of their names, links not
followed; `depth` bounds how far down to go. -/
def filesBelow (t : Tree) : Nat → List String → List (List String)
  | 0, _ => []
  | depth + 1, place =>
    (t.namesIn place).flatMap fun name =>
      match t.nodes.get? (place ++ [name]) with
      | some (.file ..) => [place ++ [name]]
      | some (.directory _) => t.filesBelow depth (place ++ [name])
      | _ => []

def height (t : Tree) : Nat := (t.nodes.keys.map List.length).foldl max 0 + 1

/-- The files in a directory, or in all directories below it; a file has none. -/
def listing (t : Tree) (name : String) (recursive : Bool) : Except IoKind (List String) := do
  let place ← t.locate name
  if !t.isDirectoryAt place then return []
  return (t.filesBelow (if recursive then t.height else 1) place).map nameOf

def stampAt (t : Tree) (place : List String) (time : Int) : Tree :=
  match t.nodes.get? place with
  | some (.file content _) => ⟨t.nodes.insert place (.file content time)⟩
  | some (.directory _) => ⟨t.nodes.insert place (.directory time)⟩
  | _ => t

/-- Put a node at a place, which changes the directory above. -/
def put (t : Tree) (now : Int) (place : List String) (node : Node) : Tree :=
  stampAt ⟨t.nodes.insert place node⟩ place.dropLast now

def ensure (t : Tree) (now : Int) : List String → List String → Tree × List String
  | place, [] => (t, place)
  | place, segment :: rest =>
    match t.walk false linkLimit place [segment] with
    | .ok next => ensure t now next rest
    | .error _ =>
      let next := place ++ [segment]
      ensure (t.put now next (.directory now)) now next rest
termination_by _ segments => segments.length

def makeDirectory (t : Tree) (now : Int) (name : String) : Tree :=
  (t.ensure now [] (Path.segments name)).1

/-- Write a file, making the directories above it. A link is written through, also one that leads to
a file yet to be made. -/
def write (t : Tree) (now : Int) (name : String) (content : ByteArray) (modified : Int) : Tree :=
  let segments := Path.segments name
  let (t, above) := t.ensure now [] segments.dropLast
  match t.walk true linkLimit above segments.getLast?.toList with
  | .error _ => t
  | .ok place =>
    if t.isDirectoryAt place then t
    else if t.nodes.contains place then ⟨t.nodes.insert place (.file content modified)⟩
    else t.put now place (.file content modified)

def setModified (t : Tree) (name : String) (time : Int) : Tree :=
  match t.locate name with
  | .ok place => t.stampAt place time
  | .error _ => t

def remove (t : Tree) (now : Int) (name : String) : Tree :=
  let segments := Path.segments name
  match t.walk false linkLimit [] segments.dropLast with
  | .error _ => t
  | .ok above =>
    let place := above ++ segments.getLast?.toList
    let gone := t.nodes.keys.filter fun key => place.isPrefixOf key
    stampAt ⟨gone.foldl Dictionary.erase t.nodes⟩ above now

def makeLink (t : Tree) (now : Int) (name target : String) : Tree :=
  let segments := Path.segments name
  let (t, above) := t.ensure now [] segments.dropLast
  t.put now (above ++ segments.getLast?.toList) (.link target)

end Tree

end ScriptWorker.Files
