import ScriptWorker.Execution.Resolving
import ScriptWorker.Execution.Script

/-!
# Calls on workers

Invoking a function, loading a module and evaluating a script, on one thread. Whatever happens inside
a call, a panic included, it leaves the serializer, the current script and the active worker of the
thread as it found them.
-/

namespace ScriptWorker

variable {L : Language}

namespace Worker

/-- Enter a worker's serializer. The outermost entry forgets which modules were checked, if the
worker reloads, and the errors of the call before. -/
def enter (thread : ThreadId) (k : WorkerId) : Run L SerialGuard := do
  let guard ← Program.await fun w => w.enter? thread k
  if guard.isOutermost then
    if ← Program.read fun w => (w.worker k).config.reloading then
      Program.modify fun w => w.modifyCache k ModuleCache.clear
    Program.modify fun w => w.clearErrors k
  return guard

def serialized {α : Type} (thread : ThreadId) (k : WorkerId) (inside : Run L α) : Run L α := do
  let _ ← enter thread k
  inside.thenAlways (Program.modify fun w => w.leave k)

/-- Run a program with a unit as the current script, and change the cache by its result; gives the
script that is current again. A panic only puts the current script back. -/
def withScript {α : Type} (k : WorkerId) (u : UnitId) (inside : Run L α)
    (settle : α → World L → World L) : Run L (α × Option UnitId) := do
  let frame ← Program.transact fun w => w.pushScript k u
  match ← inside.caught with
  | .panic payload =>
    let _ ← Program.transact fun w => w.restoreScript k frame
    Program.panic payload
  | .done result =>
    Program.modify (settle result)
    let parent ← Program.transact fun w => w.restoreScript k frame
    return (result, parent)

def recordImport (parent : Option UnitId) (u : UnitId) : Run L Unit :=
  match parent with
  | some parent => ExecutableUnit.addDependency parent u
  | none => pure ()

def keepLoad (k : WorkerId) (key : String) (answer : Answer EnvironmentId) (w : World L) : World L :=
  w.modifyCache k fun cache =>
    match answer with
    | .ok env => cache.put key env
    | .error _ => cache.uncheck key

def locate (k : WorkerId) (caller : Option EnvironmentId) (name : String) :
    Run L (Answer UnitId) := do
  let resolver ← Program.read fun w => w.workerResolver k
  let near ← Program.read fun w => w.searchScope caller
  resolve resolver name near

/-- The module of a unit, as it was checked during the current outermost call or from the unit's own
load; with the script that is current. -/
def checkOrLoad (k : WorkerId) (u : UnitId) (key : String) :
    Run L (Answer EnvironmentId × Option UnitId) := do
  match ← Program.transact fun w => w.lookupChecked k key with
  | some env =>
    let parent ← Program.read fun w => (w.worker k).serializer.current
    return (.ok env, parent)
  | none =>
    let existing ← Program.read fun w => (w.worker k).cache.get? key
    withScript k u (ExecutableUnit.load k u existing) (keepLoad k key)

/-- Load the module of a unit. A module that was checked is answered as it is, even while its body
still runs. -/
def loadUnit (thread : ThreadId) (k : WorkerId) (u : UnitId) : Run L (Answer EnvironmentId) := do
  let key ← Program.read fun w => w.unitKey u
  let (answer, parent) ← serialized thread k (checkOrLoad k u key)
  recordImport parent u
  return answer

def loadModule (thread : ThreadId) (k : WorkerId) (caller : Option EnvironmentId) (name : String) :
    Run L (Answer EnvironmentId) := do
  match ← locate k caller name with
  | .error cause => return .error cause
  | .ok u => loadUnit thread k u

def keepEvaluation (k : WorkerId) (u : UnitId) (env : EnvironmentId) (answer : Answer Value)
    (w : World L) : World L :=
  match answer with
  | .ok _ =>
    if (w.environment env).isModule then w.modifyCache k fun cache => cache.put (w.unitKey u) env
    else w
  | .error _ => w

/-- Run a unit's body in an environment. A module becomes the loaded module of the unit's source. -/
def evaluateScript (thread : ThreadId) (k : WorkerId) (u : UnitId) (env : EnvironmentId) :
    Run L (Answer Value) := do
  let (answer, parent) ← serialized thread k
    (withScript k u (ExecutableUnit.evaluate k u env) (keepEvaluation k u env))
  recordImport parent u
  return answer

def findModule (thread : ThreadId) (k : WorkerId) : ModuleRef → Run L (Answer EnvironmentId)
  | .environment env => pure (.ok env)
  | .name name => loadModule thread k none name

def findFunction (env : EnvironmentId) : FunctionRef → Run L (Answer FunctionId)
  | .callable function _ => pure (.ok function)
  | .name name =>
    Program.read fun w =>
      match w.property env name with
      | some (.function function _) => .ok function
      | _ => .error (.noSuchMethod name (w.environment env).name)

def callFunction (thread : ThreadId) (k : WorkerId) (env : EnvironmentId) (function : FunctionId)
    (args : List Value) : Run L (Answer Value) := do
  match ← Program.read fun w => w.functions.get? function with
  | none => return .error (.invalidArgument "no such function")
  | some closure =>
    let previous ← Program.transact fun w => (w.active.get? thread, w.setActive thread (some k))
    (outside (.call closure k env args)).thenAlways
      (Program.modify fun w => w.setActive thread previous)

/-- Call a function in an environment; a wrapper around its result is taken off. -/
def callNamed (thread : ThreadId) (k : WorkerId) (env : EnvironmentId) (function : FunctionRef)
    (args : List Value) : Run L (Answer Value) := do
  match ← findFunction env function with
  | .error cause => return .error cause
  | .ok f =>
    let answer ← callFunction thread k env f args
    return answer.map Value.unwrapped

def invoke (thread : ThreadId) (k : WorkerId) (module : ModuleRef) (function : FunctionRef)
    (args : List Value) : Run L (Answer Value) :=
  serialized thread k do
    match ← findModule thread k module with
    | .error cause => return .error cause
    | .ok env => callNamed thread k env function args

end Worker

end ScriptWorker
