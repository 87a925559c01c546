import ScriptWorker.Handle
import ScriptWorker.Files.Tree

/-!
# Repositories and resources

A repository is a directory of some store and a resource is one named entry of it. Both are plain
handles: what they hold is looked up when it is asked for. The path of a resource is its identity.
-/

namespace ScriptWorker

inductive Repository where
  /-- A directory of a memory store; the directory is empty for the root, or ends in a slash. -/
  | memory (store : StoreId) (storeName : String) (directory : String)
  | files (directory : String)
  deriving DecidableEq, Repr, Inhabited

inductive Resource where
  /-- An entry of a memory store; whether it exists is asked once and remembered. -/
  | memory (store : StoreId) (storeName : String) (directory : String) (name : String)
      (existence : ExistenceId)
  | file (fullName : String)
  deriving DecidableEq, Repr, Inhabited

namespace Repository

/-- The path of a repository, ending in a slash. -/
def path : Repository → String
  | memory _ storeName directory => "memory:" ++ storeName ++ "/" ++ directory
  | files directory =>
    let shown := Files.Name.withSlashes directory
    if Path.endsWith "/" shown then shown else shown ++ "/"

/-- The directory of the file tree with a given name, by its one name if it exists. -/
def ofDirectory (tree : Files.Tree) (name : String) : Repository := files (tree.canonical name)

def child (tree : Files.Tree) : Repository → String → Repository
  | memory store storeName directory, name =>
    memory store storeName (Path.normalize (directory ++ name) ++ "/")
  | files directory, name => ofDirectory tree (Files.Name.join directory name)

def parent (tree : Files.Tree) : Repository → Option Repository
  | memory store storeName directory =>
    if directory.isEmpty then none
    else some (memory store storeName (String.ofList (Path.upperChars directory.toList)))
  | files directory => (Files.Name.parent directory).map (ofDirectory tree)

/-- The repository reached by segments: `.` stays, `..` goes up, any other segment goes down. -/
def descend (tree : Files.Tree) : Repository → List String → Option Repository
  | repository, [] => some repository
  | repository, segment :: rest =>
    if segment = "." then descend tree repository rest
    else if segment = ".." then (repository.parent tree).bind fun above => descend tree above rest
    else descend tree (repository.child tree segment) rest

/-- Where a path leads: the repository it ends in and the name there. A path that is empty or climbs
above a root leads nowhere. -/
def follow (tree : Files.Tree) (repository : Repository) (path : String) :
    Option (Repository × String) :=
  match (Path.segments path).reverse with
  | [] => none
  | name :: above => (repository.descend tree above.reverse).map fun found => (found, name)

end Repository

namespace Resource

def entryOf (directory name : String) : String := Path.normalize (directory ++ name)

def ofFile (tree : Files.Tree) (name : String) : Resource := file (tree.canonical name)

def name : Resource → String
  | memory _ _ _ name _ => name
  | file full => (Files.Name.last full).getD ""

/-- Full path; the resource's identity. -/
def path : Resource → String
  | memory _ storeName directory name _ => "memory:" ++ storeName ++ "/" ++ directory ++ name
  | file full => Files.Name.withSlashes full

abbrev key (r : Resource) : String := r.path

def baseName (r : Resource) : String := Path.baseName r.name

def repository (tree : Files.Tree) : Resource → Repository
  | memory store storeName directory _ _ => .memory store storeName directory
  | file full => .ofDirectory tree ((Files.Name.parent full).getD "/")

end Resource

end ScriptWorker
