import ScriptWorker.Execution.Tasks

/-!
# Requests of running code

What the library does for code of the host and its scripts when it asks for something. An
interpreter gives the code that stands behind each call from the library to the outside.
-/

namespace ScriptWorker

structure Interpreter (L : Language) where
  code : (callee : Callee L) → Code L callee.Result
  /-- What an effect does to the state of the host, or `none` while it has to wait. -/
  effect : L.Effect → ThreadId → World L → Option (L.Notice × L.State)

variable {L : Language}

namespace Repository

/-- Change the entries of the store that a repository is in; says whether an entry was there to be
removed. The entry is written first, and then the time of the store moves on. -/
def edit (repository : Repository) (change : StoreEdit) : Run L Bool :=
  match repository with
  | .files _ => pure false
  | .memory store _ directory =>
    let bump : Run L Unit := Program.modify fun w =>
      { w with storage := w.storage.bump store w.wallClock }
    match change with
    | .insert path content => do
      Program.modify fun w => { w with storage := w.storage.writeEntry store directory path content }
      bump
      return true
    | .remove path => do
      let removed ← Program.transact fun w =>
        let (removed, storage) := w.storage.dropEntry store directory path
        (removed, { w with storage := storage })
      if removed then bump
      return removed
    | .touch => do
      bump
      return true

end Repository

def Interpreter.answer (interpreter : Interpreter L) (thread : ThreadId) :
    (request : Request L) → Run L request.Reply
  | .property env name => Program.read fun w => w.property env name
  | .setProperty env name value => Program.modify fun w => w.setProperty env name value
  | .environmentName env => Program.read fun w => (w.environment env).name
  | .newModule name key =>
    Program.transact fun w => w.addEnvironment (Environment.moduleScope name key none)
  | .newFunction name closure => Program.transact fun w => w.addFunction name closure
  | .newWrapper inner => Program.transact fun w => w.addWrapper inner
  | .newHostObject payload => Program.transact fun w => w.addHostObject payload
  | .checksum env => Program.read fun w => (w.environment env).checksum
  | .stamp env sum => Program.modify fun w => w.stamp env sum
  | .loadModule k caller name => Worker.loadModule thread k caller name
  | .invoke k module function args => Worker.invoke thread k module function args
  | .evaluate k u env => Worker.evaluateScript thread k u env
  | .resolve k caller name => Worker.locate k caller name
  | .globalScope k => Program.read fun w => w.globalScope (w.workerResolver k)
  | .checked k key => Program.read fun w => (w.worker k).cache.peek key
  | .markChecked k key env => Program.modify fun w => w.markChecked k key env
  | .sharesModules k => Program.read fun w => (w.worker k).cache.checkedIsModules
  | .report k error => Program.modify fun w => w.reportError k error
  | .errors k => Program.read fun w => (w.worker k).errors
  | .currentScript k =>
    Program.await fun w => (w.currentScript? thread k).map fun script => (script, w)
  | .currentWorker => Program.read fun w => w.activeWorker thread
  | .unitName u => Program.read fun w => w.unitName u
  | .unitChecksum u => Program.read fun w => w.unitChecksum u
  | .recordDependency u dependency => Program.modify fun w => w.recordDependency u dependency
  | .schedule k module function args timing => Worker.schedule k module function args timing
  | .cancel k task => Worker.cancel k task
  | .cancelOn l task => EventLoop.cancel l task
  | .edit repository change => repository.edit change
  | .sleep length => sleepFor length
  | .effect effect =>
    Program.await fun w =>
      (interpreter.effect effect thread w).map fun (notice, state) =>
        (notice, { w with host := state })

def Interpreter.run {α : Type} (interpreter : Interpreter L) (thread : ThreadId) :
    Code L α → Run L α
  | .ended outcome => .ended outcome
  | .ask request next =>
    (interpreter.answer thread request).thenOutcome fun outcome =>
      interpreter.run thread (next outcome)

end ScriptWorker
