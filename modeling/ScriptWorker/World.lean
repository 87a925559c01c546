import ScriptWorker.Checksum
import ScriptWorker.Config.Settings
import ScriptWorker.Host.Code
import ScriptWorker.ModuleCache
import ScriptWorker.Program
import ScriptWorker.Repository.Storage
import ScriptWorker.Schedule.Slot
import ScriptWorker.Serializer

/-!
# The shared world

Everything that workers, scripts and threads share. Each function here is one atomic step on it, or a
look at it.
-/

namespace ScriptWorker

variable (L : Language)

inductive UnitSource where
  /-- A script with its resource, and the body compiled last with the time of the source it came
  from. -/
  | script (resource : Resource) (compiled : Option (L.Body × UInt64))
  | custom (spec : L.UnitSpec) (version : UInt64)

structure ExecutableUnit where
  /-- Identity of the source; the key of its modules. -/
  key : String
  name : String
  source : UnitSource L
  /-- Units it was seen to import, by key, in the order of the first import. -/
  dependencies : Dictionary String UnitId

inductive ResolverKind where
  | repositories (modulePath : List Repository) (extension : String)
      (scripts : Dictionary String UnitId)
  | custom (spec : L.ResolverSpec)

structure NameResolver where
  globalScope : EnvironmentId
  kind : ResolverKind L

inductive TaskJob where
  | invocation (worker : WorkerId) (module : ModuleRef) (function : FunctionRef) (args : List Value)
  | custom (job : L.Job)

structure Worker where
  resolver : ResolverId
  config : WorkerConfig
  cache : ModuleCache EnvironmentId
  serializer : Serializer UnitId
  /-- Syntax errors reported during the current outermost call. -/
  errors : List SyntaxError
  /-- Who keeps the worker alive: its owner, and jobs that run on it. -/
  references : Nat
  deriving Inhabited

structure World where
  storage : Storage
  environments : Table Environment
  functions : Table L.Closure
  objects : Nat
  units : Table (ExecutableUnit L)
  resolvers : Table (NameResolver L)
  workers : Table Worker
  firstWorker : Nat
  scheduler : Scheduler
  jobs : Table (TaskJob L)
  active : Dictionary ThreadId WorkerId
  /-- Points of time at which a thread that waits may go on. -/
  alarms : List Instant
  /-- Milliseconds since 1970 when the clock stood at zero. -/
  epoch : UInt64
  host : L.State

abbrev Run (α : Type) := Program (World L) (Callee L) Callee.Result α

variable {L} in
def outside (callee : Callee L) : Run L callee.Result := Program.invokeOutside callee

variable {L}

namespace ExecutableUnit

def version (storage : Storage) (u : ExecutableUnit L) : UInt64 :=
  match u.source with
  | .script resource _ => storage.modified resource
  | .custom _ version => version

end ExecutableUnit

namespace World

def create (files : Files.Tree) (horizon : Instant) (firstWorker : Nat) (epoch : UInt64)
    (host : L.State) : World L where
  storage := { Storage.empty with files := files }
  environments := Table.empty
  functions := Table.empty
  objects := 0
  units := Table.empty
  resolvers := Table.empty
  workers := Table.empty
  firstWorker := firstWorker
  scheduler := (Scheduler.create horizon).addCounter.2
  jobs := Table.empty
  active := Dictionary.empty
  alarms := []
  epoch := epoch
  host := host

def wallClock (w : World L) : UInt64 := w.epoch + UInt64.ofNat (w.scheduler.now / 1000000)

/-! ## Environments and values -/

def environment (w : World L) (env : EnvironmentId) : Environment :=
  (w.environments.get? env).getD (Environment.plainScope "")

def property (w : World L) (env : EnvironmentId) (name : String) : Option Value :=
  (w.environment env).get? name

def setProperty (w : World L) (env : EnvironmentId) (name : String) (value : Value) : World L :=
  { w with environments := w.environments.modify env fun e => e.set name value }

/-- Stamp a module with a checksum, which is taken in the same step when a script stamps its own. -/
def stamp (w : World L) (env : EnvironmentId) (sum : UInt64) : World L :=
  { w with environments := w.environments.modify env fun e => e.stamp sum }

def addEnvironment (w : World L) (e : Environment) : EnvironmentId × World L :=
  (w.environments.size, { w with environments := w.environments.push e })

def addFunction (w : World L) (name : String) (closure : L.Closure) : Value × World L :=
  (.function w.functions.size name, { w with functions := w.functions.push closure })

def addWrapper (w : World L) (inner : Value) : Value × World L :=
  (.wrapped w.objects inner, { w with objects := w.objects + 1 })

def addHostObject (w : World L) (payload : Option String) : Value × World L :=
  (.host w.objects payload, { w with objects := w.objects + 1 })

def scopeValue (w : World L) (env : EnvironmentId) : Value := .scope env (w.environment env).name

/-! ## Units -/

def unitKey (w : World L) (u : UnitId) : String :=
  match w.units.get? u with
  | some found => found.key
  | none => ""

def unitName (w : World L) (u : UnitId) : String :=
  match w.units.get? u with
  | some found => found.name
  | none => ""

def dependencies (w : World L) (u : UnitId) : List UnitId :=
  match w.units.get? u with
  | some found => found.dependencies.values
  | none => []

def graph (w : World L) : DependencyGraph String :=
  w.units.rows.map fun u => ⟨u.key, u.version w.storage, u.dependencies.values⟩

/-- Checksum of a unit, with a version given for its own source. It is taken in one step, with every
version as it is at that moment; a walk that read the versions one after another could meet an edit
between two of them. -/
def checksumAt (w : World L) (u : UnitId) (version : UInt64) : UInt64 :=
  w.graph.checksum entryHash (w.unitKey u) version (w.dependencies u)

def unitVersion (w : World L) (u : UnitId) : UInt64 :=
  match w.units.get? u with
  | some found => found.version w.storage
  | none => 0

def unitChecksum (w : World L) (u : UnitId) : UInt64 := w.checksumAt u (w.unitVersion u)

/-- Record that a unit depends on another one, unless the keys are equal or it is known. -/
def recordDependency (w : World L) (u dependency : UnitId) : World L :=
  let key := w.unitKey dependency
  { w with units := w.units.modify u fun unit =>
      if key = unit.key ∨ unit.dependencies.contains key then unit
      else { unit with dependencies := unit.dependencies.insert key dependency } }

def addUnit (w : World L) (u : ExecutableUnit L) : UnitId × World L :=
  (w.units.size, { w with units := w.units.push u })

def bumpVersion (w : World L) (u : UnitId) : World L :=
  { w with units := w.units.modify u fun unit =>
      match unit.source with
      | .script .. => unit
      | .custom spec version => { unit with source := .custom spec (version + 1) } }

def addScript (w : World L) (resource : Resource) (name : String) : UnitId × World L :=
  w.addUnit ⟨resource.key, name, .script resource none, Dictionary.empty⟩

def unitShown (w : World L) (u : UnitId) : String :=
  match w.units.get? u with
  | none => ""
  | some unit =>
    match unit.source with
    | .custom .. => unit.name
    | .script .. => Text.recordText "ReloadableScript" [
        ("name", Text.quoted unit.name),
        ("key", Environment.keyText unit.key),
        ("dependencies", Text.bracketed (unit.dependencies.keys.map Environment.keyText))]

/-! ## Workers -/

def modifyWorker (w : World L) (k : WorkerId) (f : Worker → Worker) : World L :=
  { w with workers := w.workers.modify k f }

def worker (w : World L) (k : WorkerId) : Worker := (w.workers.get? k).getD default

def workerNumber (w : World L) (k : WorkerId) : Nat := w.firstWorker + k

def addWorker (w : World L) (resolver : ResolverId) (config : WorkerConfig) (counter : CounterId) :
    WorkerId × World L :=
  let k := w.workers.size
  let slot : LoopSlot := {
    loop := none
    locked := false
    threadName := config.threadNamePrefix ++ "-" ++ toString (w.workerNumber k)
    counter := counter
    policy := config.periodicFailure }
  (k, { w with
    workers := w.workers.push {
      resolver := resolver
      config := config
      cache := ModuleCache.create (CacheMode.ofReloading config.reloading)
      serializer := Serializer.create
      errors := []
      references := 1 }
    scheduler := { w.scheduler with slots := w.scheduler.slots.push slot } })

def addCounter (w : World L) : CounterId × World L :=
  (w.scheduler.addCounter.1, { w with scheduler := w.scheduler.addCounter.2 })

def addLoop (w : World L) (name : String) (policy : FailurePolicy) :
    CounterId × LoopId × World L :=
  let (counter, s) := w.scheduler.addCounter
  let (l, s) := s.addLoop name counter policy
  (counter, l, { w with scheduler := s })

def workerCounter (w : World L) (k : WorkerId) : CounterId :=
  match w.scheduler.slots.get? k with
  | some slot => slot.counter
  | none => 0

def workerResolver (w : World L) (k : WorkerId) : ResolverId := (w.worker k).resolver

def globalScope (w : World L) (r : ResolverId) : EnvironmentId :=
  match w.resolvers.get? r with
  | some resolver => resolver.globalScope
  | none => 0

/-- One more reference to a worker, unless it is gone. -/
def retain (w : World L) (k : WorkerId) : Bool × World L :=
  if (w.worker k).references = 0 then (false, w)
  else (true, w.modifyWorker k fun worker => { worker with references := worker.references + 1 })

/-- One reference less; says whether it was the last. -/
def release (w : World L) (k : WorkerId) : Bool × World L :=
  ((w.worker k).references = 1,
    w.modifyWorker k fun worker => { worker with references := worker.references - 1 })

/-- The worker active on a thread, unless it is gone. -/
def activeWorker (w : World L) (thread : ThreadId) : Option WorkerId :=
  (w.active.get? thread).filter fun k => (w.worker k).references ≠ 0

def setActive (w : World L) (thread : ThreadId) (k : Option WorkerId) : World L :=
  match k with
  | some k => { w with active := w.active.insert thread k }
  | none => { w with active := w.active.erase thread }

def enter? (w : World L) (thread : ThreadId) (k : WorkerId) : Option (SerialGuard × World L) :=
  ((w.worker k).serializer.enter? thread).map fun (guard, serializer) =>
    (guard, w.modifyWorker k fun worker => { worker with serializer := serializer })

def leave (w : World L) (k : WorkerId) : World L :=
  w.modifyWorker k fun worker => { worker with serializer := worker.serializer.leave }

def pushScript (w : World L) (k : WorkerId) (u : UnitId) : ScriptFrame UnitId × World L :=
  let (frame, serializer) := (w.worker k).serializer.push u
  (frame, w.modifyWorker k fun worker => { worker with serializer := serializer })

def restoreScript (w : World L) (k : WorkerId) (frame : ScriptFrame UnitId) :
    Option UnitId × World L :=
  let (parent, _, serializer) := (w.worker k).serializer.restore frame
  (parent, w.modifyWorker k fun worker => { worker with serializer := serializer })

def currentScript? (w : World L) (thread : ThreadId) (k : WorkerId) : Option (Option UnitId) :=
  let serializer := (w.worker k).serializer
  if serializer.admits thread then some serializer.current else none

def modifyCache (w : World L) (k : WorkerId)
    (f : ModuleCache EnvironmentId → ModuleCache EnvironmentId) : World L :=
  w.modifyWorker k fun worker => { worker with cache := f worker.cache }

def lookupChecked (w : World L) (k : WorkerId) (key : String) : Option EnvironmentId × World L :=
  let (found, cache) := (w.worker k).cache.checked key
  (found, w.modifyCache k fun _ => cache)

def reportError (w : World L) (k : WorkerId) (error : SyntaxError) : World L :=
  w.modifyWorker k fun worker => { worker with errors := worker.errors ++ [error] }

def clearErrors (w : World L) (k : WorkerId) : World L :=
  w.modifyWorker k fun worker => { worker with errors := [] }

def workerShown (w : World L) (k : WorkerId) : String :=
  let worker := w.worker k
  let loop := match w.scheduler.slots.get? k with
    | some slot => slot.loop
    | none => none
  Text.recordText "Worker" [
    ("id", toString (w.workerNumber k)),
    ("reloading", Text.flagText worker.config.reloading),
    ("modules", toString worker.cache.size),
    ("event_loop", Text.optionText (loop.map w.scheduler.loopShown))]

end World

end ScriptWorker
