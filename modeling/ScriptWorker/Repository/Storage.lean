import ScriptWorker.Collections.Table
import ScriptWorker.Repository.Location
import ScriptWorker.Repository.Store

/-!
# Storage

All that repositories read from: the memory stores, the file tree, and the remembered answers about
the existence of memory resources.
-/

namespace ScriptWorker

structure Storage where
  stores : Table Store
  files : Files.Tree
  existence : Table (Option Bool)

namespace Storage

def empty : Storage := ⟨Table.empty, Files.Tree.empty, Table.empty⟩

instance : Inhabited Storage := ⟨empty⟩

def entry? (s : Storage) (store : StoreId) (entry : String) : Option ByteArray :=
  (s.stores.get? store).bind fun found => found.entries.get? entry

def createStore (s : Storage) (name : String) (now : UInt64) : Repository × Storage :=
  (.memory s.stores.size name "", { s with stores := s.stores.push (Store.create name now) })

def resource (s : Storage) (repository : Repository) (name : String) : Resource × Storage :=
  match repository with
  | .memory store storeName directory =>
    (.memory store storeName directory name s.existence.size,
      { s with existence := s.existence.push none })
  | .files directory => (.ofFile s.files (Files.Name.join directory name), s)

def lookup (s : Storage) (repository : Repository) (path : String) : Option Resource × Storage :=
  match repository.follow s.files path with
  | none => (none, s)
  | some (found, name) =>
    let (resource, s) := s.resource found name
    (some resource, s)

/-- Whether a repository is there: a root always, another directory while an entry is below it. -/
def repositoryExists (s : Storage) : Repository → Bool
  | .memory store _ directory =>
    directory.isEmpty || match s.stores.get? store with
      | some found => found.entries.keys.any (Path.startsWith directory)
      | none => false
  | .files directory => s.files.isDirectory directory

/-- Whether a resource is there; a memory resource keeps its first answer. -/
def resourceExists (s : Storage) : Resource → Bool × Storage
  | .memory store _ directory name place =>
    match s.existence.get? place with
    | some (some answer) => (answer, s)
    | _ =>
      let answer := (s.entry? store (Resource.entryOf directory name)).isSome
      (answer, { s with existence := s.existence.modify place fun _ => some answer })
  | .file file => (s.files.isFile file, s)

def storeModified (s : Storage) (store : StoreId) : UInt64 :=
  match s.stores.get? store with
  | some found => found.modified
  | none => 0

def repositoryModified (s : Storage) : Repository → UInt64
  | .memory store .. => s.storeModified store
  | .files directory => s.files.modified directory

/-- Time of the last change of a resource; for a memory resource that of its container. -/
def modified (s : Storage) : Resource → UInt64
  | .memory store .. => s.storeModified store
  | .file file => s.files.modified file

def length (s : Storage) : Resource → Nat
  | .memory .. => 0
  | .file file => s.files.length file

def read (s : Storage) : Resource → Except IoFailure ByteArray
  | r@(.memory store _ directory name _) =>
    match s.entry? store (Resource.entryOf directory name) with
    | some content => .ok content
    | none => .error ⟨.notFound, some (r.path ++ " not found")⟩
  | .file file => (s.files.read file).mapError IoFailure.ofKind

def decodeText (content : ByteArray) : Except IoFailure String :=
  match String.fromUTF8? content with
  | some text => .ok text
  | none => .error ⟨.invalidData, some "stream did not contain valid UTF-8"⟩

def readText (s : Storage) (r : Resource) : Except IoFailure String :=
  (s.read r).bind decodeText

def url (s : Storage) (r : Resource) : Option String × Storage :=
  let (found, s) := s.resourceExists r
  let locator := match r with
    | .memory .. => r.path
    | .file _ => "file://" ++ r.path
  (if found then some locator else none, s)

def entryNames (s : Storage) (store : StoreId) (directory : String) (recursive : Bool) :
    List String :=
  match s.stores.get? store with
  | none => []
  | some found =>
    (found.sortedEntries.filterMap (Path.stripStart directory)).filter fun rest =>
      recursive || !rest.toList.contains '/'

/-- Handles to the named resources of a repository, in order. -/
def resourcesNamed (s : Storage) (repository : Repository) : List String → List Resource × Storage
  | [] => ([], s)
  | name :: names =>
    let (first, s) := s.resource repository name
    let (rest, s) := s.resourcesNamed repository names
    (first :: rest, s)

/-- The resources directly in a repository, or in it and all repositories below it. -/
def resources (s : Storage) (repository : Repository) (recursive : Bool) :
    Except IoFailure (List Resource × Storage) :=
  match repository with
  | .memory store _ directory => .ok (s.resourcesNamed repository (s.entryNames store directory recursive))
  | .files directory =>
    match s.files.listing directory recursive with
    | .ok names => .ok (names.map (Resource.ofFile s.files), s)
    | .error kind => .error (.ofKind kind)

/-- First half of an insertion: the entry is written. -/
def writeEntry (s : Storage) (store : StoreId) (directory path : String) (content : ByteArray) :
    Storage :=
  { s with stores := s.stores.modify store fun found =>
      found.write (Path.normalize (directory ++ path)) content }

def dropEntry (s : Storage) (store : StoreId) (directory path : String) : Bool × Storage :=
  let entry := Path.normalize (directory ++ path)
  ((s.entry? store entry).isSome,
    { s with stores := s.stores.modify store fun found => found.drop entry })

/-- Second half of a change: the container's time moves on. -/
def bump (s : Storage) (store : StoreId) (now : UInt64) : Storage :=
  { s with stores := s.stores.modify store fun found => found.bump now }

end Storage

end ScriptWorker
