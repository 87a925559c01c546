import ScriptWorker.World

/-!
# Resolving module names

A resolver over repositories tries the candidates for a name in the repository of the importing
module, if the name is relative, else in each repository of the module path, and answers with the
one script there is for the first source that exists.
-/

namespace ScriptWorker

namespace ModuleName

/-- Whether a name is looked up next to the module that imports it. -/
def isRelative (name : String) : Bool := Path.startsWith "./" name || Path.startsWith "../" name

/-- The paths at which a module may be found in a repository, in the order in which they are tried. -/
def candidates (extension name : String) : List String :=
  let ending := "." ++ extension
  if Path.endsWith ending name then [name] else [name ++ ending, name ++ "/mod" ++ ending]

def plainExtension (extension : String) : String :=
  String.ofList (extension.toList.dropWhile (· == '.'))

/-- The repositories that are searched, in order. -/
def roots (modulePath : List Repository) (near : Option Repository) (name : String) :
    List Repository :=
  match near with
  | some repository => if isRelative name then [repository] else modulePath
  | none => modulePath

def attempts (modulePath : List Repository) (extension : String) (near : Option Repository)
    (name : String) : List (Repository × String) :=
  (roots modulePath near name).flatMap fun root =>
    (candidates extension name).map fun candidate => (root, candidate)

end ModuleName

variable {L : Language}

namespace World

def tryCandidate (w : World L) (root : Repository) (candidate : String) :
    Option Resource × World L :=
  match w.storage.lookup root candidate with
  | (none, storage) => (none, { w with storage := storage })
  | (some resource, storage) =>
    let (found, storage) := storage.resourceExists resource
    (if found then some resource else none, { w with storage := storage })

def withScripts (r : NameResolver L) (f : Dictionary String UnitId → Dictionary String UnitId) :
    NameResolver L :=
  match r.kind with
  | .repositories modulePath extension scripts =>
    { r with kind := .repositories modulePath extension (f scripts) }
  | .custom _ => r

/-- The script of a resolver for a resource; it is made when the resource is first found. -/
def scriptFor (w : World L) (r : ResolverId) (resource : Resource) (name : String) :
    UnitId × World L :=
  let known := (w.resolvers.get? r).bind fun resolver =>
    match resolver.kind with
    | .repositories _ _ scripts => scripts.get? resource.key
    | .custom _ => none
  match known with
  | some unit => (unit, w)
  | none =>
    let (unit, w) := w.addScript resource (Path.normalize name)
    let resolvers := w.resolvers.modify r fun resolver =>
      withScripts resolver fun scripts => scripts.insert resource.key unit
    (unit, { w with resolvers := resolvers })

def searchScope (w : World L) (caller : Option EnvironmentId) : Option Repository :=
  caller.bind fun env => (w.environment env).repository

def addResolver (w : World L) (resolver : NameResolver L) : ResolverId × World L :=
  (w.resolvers.size, { w with resolvers := w.resolvers.push resolver })

def createResolver (w : World L) (kind : ResolverKind L) (global : Environment) :
    ResolverId × World L :=
  let (env, w) := w.addEnvironment global
  w.addResolver ⟨env, kind⟩

def resolverShown (w : World L) (r : ResolverId) : String :=
  match (w.resolvers.get? r).map NameResolver.kind with
  | some (.repositories modulePath extension scripts) => Text.recordText "RepositoryResolver" [
      ("module_path", Text.bracketed (modulePath.map fun root => Text.quoted root.path)),
      ("extension", Text.quoted extension),
      ("scripts", toString scripts.size)]
  | _ => ""

end World

/-- Try candidates in order, one step for each; the first that is there is the answer. -/
def firstCandidate : List (Repository × String) → Run L (Option Resource)
  | [] => pure none
  | (root, candidate) :: rest => do
    match ← Program.transact fun w => w.tryCandidate root candidate with
    | some resource => return some resource
    | none => firstCandidate rest

def resolve (r : ResolverId) (name : String) (near : Option Repository) : Run L (Answer UnitId) := do
  match ← Program.read fun w => (w.resolvers.get? r).map NameResolver.kind with
  | none => return .error (.moduleNotFound name [])
  | some (.custom spec) => outside (.resolve spec name near)
  | some (.repositories modulePath extension _) =>
    let tried := ModuleName.attempts modulePath extension near name
    match ← firstCandidate tried with
    | none => return .error (.moduleNotFound name (tried.map fun attempt => attempt.1.path ++ attempt.2))
    | some resource =>
      let unit ← Program.transact fun w => w.scriptFor r resource name
      return .ok unit

end ScriptWorker
