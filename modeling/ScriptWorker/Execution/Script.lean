import ScriptWorker.World

/-!
# Running scripts

A script is compiled again only when its source has a new time, and its module is built again only
when the checksum over the script and everything it reaches has changed since the module was stamped.
-/

namespace ScriptWorker

variable {L : Language}

namespace World

def markChecked (w : World L) (k : WorkerId) (key : String) (env : EnvironmentId) : World L :=
  w.modifyCache k fun cache => cache.mark key env

def setCompiled (w : World L) (u : UnitId) (body : L.Body) (time : UInt64) : World L :=
  { w with units := w.units.modify u fun unit =>
      match unit.source with
      | .script resource _ => { unit with source := .script resource (some (body, time)) }
      | .custom .. => unit }

def compiled (w : World L) (u : UnitId) : Option (L.Body × UInt64) :=
  (w.units.get? u).bind fun unit =>
    match unit.source with
    | .script _ compiled => compiled
    | .custom .. => none

def addModule (w : World L) (u : UnitId) (resource : Resource) : EnvironmentId × World L :=
  w.addEnvironment (Environment.moduleScope (w.unitName u) (some (w.unitKey u))
    (some (resource.repository w.storage.files)))

/-- Whether a module still shows the checksum of its script. The look and the sum are one step: every
version that counts is read at one moment. -/
def isFresh (w : World L) (u : UnitId) (env : EnvironmentId) : Bool :=
  (w.environment env).checksum = some (w.unitChecksum u)

end World

namespace Script

def reportAll (k : WorkerId) : List SyntaxError → Run L Unit
  | [] => pure ()
  | error :: rest => do
    Program.modify fun w => w.reportError k error
    reportAll k rest

/-- Compile the source that a script has at some time; the body is kept with the time, and errors are
reported. -/
def compile (k : WorkerId) (u : UnitId) (resource : Resource) (time : UInt64) (source : String) :
    Run L (Answer (L.Body × UInt64)) := do
  match ← outside (.compile resource.path source) with
  | .ok body =>
    Program.modify fun w => w.setCompiled u body time
    return .ok (body, time)
  | .error errors =>
    reportAll k errors
    return .error (.syntaxErrors resource.path errors)

def body (k : WorkerId) (u : UnitId) (resource : Resource) : Run L (Answer (L.Body × UInt64)) := do
  let time ← Program.read fun w => w.storage.modified resource
  let known ← Program.read fun w => (w.compiled u).filter fun c => c.2 = time
  if let some c := known then return .ok c
  let found ← Program.transact fun w =>
    let (found, storage) := w.storage.resourceExists resource
    (found, { w with storage := storage })
  if !found then
    let name ← Program.read fun w => w.unitName u
    return .error (.moduleNotFound name [resource.path])
  match ← Program.read fun w => w.storage.readText resource with
  | .error cause => return .error (.io cause)
  | .ok source => compile k u resource time source

/-- A new module of a script, registered before the body fills it and stamped afterwards. -/
def build (k : WorkerId) (u : UnitId) (resource : Resource) (code : L.Body) (time : UInt64) :
    Run L (Answer EnvironmentId) := do
  let env ← Program.transact fun w => w.addModule u resource
  Program.modify fun w => w.markChecked k (w.unitKey u) env
  match ← outside (.execute code k env) with
  | .error cause => return .error cause
  | .ok _ =>
    Program.modify fun w => w.stamp env (w.checksumAt u time)
    return .ok env

/-- The module of a script: the one of the last load if it is fresh, else a new one. -/
def load (k : WorkerId) (u : UnitId) (resource : Resource) (existing : Option EnvironmentId) :
    Run L (Answer EnvironmentId) := do
  let fresh ← Program.read fun w => existing.filter fun env => w.isFresh u env
  if let some env := fresh then
    Program.modify fun w => w.markChecked k (w.unitKey u) env
    return .ok env
  match ← body k u resource with
  | .error cause => return .error cause
  | .ok (code, time) => build k u resource code time

def evaluate (k : WorkerId) (u : UnitId) (resource : Resource) (env : EnvironmentId) :
    Run L (Answer Value) := do
  match ← body k u resource with
  | .error cause => return .error cause
  | .ok (code, time) =>
    match ← outside (.execute code k env) with
    | .error cause => return .error cause
    | .ok value =>
      if ← Program.read fun w => (w.environment env).isModule then
        Program.modify fun w => w.stamp env (w.checksumAt u time)
      return .ok value

end Script

/-! ## Units of either kind -/

namespace ExecutableUnit

def load (k : WorkerId) (u : UnitId) (existing : Option EnvironmentId) :
    Run L (Answer EnvironmentId) := do
  match ← Program.read fun w => (w.units.get? u).map ExecutableUnit.source with
  | some (.script resource _) => Script.load k u resource existing
  | some (.custom spec _) => outside (.load spec u k existing)
  | none => return .error (.invalidArgument "no such unit")

def evaluate (k : WorkerId) (u : UnitId) (env : EnvironmentId) : Run L (Answer Value) := do
  match ← Program.read fun w => (w.units.get? u).map ExecutableUnit.source with
  | some (.script resource _) => Script.evaluate k u resource env
  | some (.custom spec _) => outside (.evaluate spec u k env)
  | none => return .error (.invalidArgument "no such unit")

def addDependency (u dependency : UnitId) : Run L Unit := do
  match ← Program.read fun w => (w.units.get? u).map ExecutableUnit.source with
  | some (.custom spec _) => outside (.depend spec u dependency)
  | _ => Program.modify fun w => w.recordDependency u dependency

end ExecutableUnit

end ScriptWorker
