import ScriptWorker.Execution.Requests
import ScriptWorker.Mini.Evaluation
import ScriptWorker.Mini.Source

/-!
# The host of the small language

How scripts, units made by hand and jobs of event loops behave, put together as an interpreter.
-/

namespace ScriptWorker.Mini

def bindModule (p : Place) (module binding : String) : Eval Unit := do
  let env ← loadModule p module
  let v ← scopeValue env
  ask (.setProperty p.scope binding v)

def runStatement (p : Place) : Statement → Eval Unit
  | .require module binding => bindModule p module binding
  | .attempt module binding =>
    tryCatch (bindModule p module binding) fun cause =>
      ask (.setProperty p.scope binding (.str cause.text))
  | .include module binding => do
    let u ← orFail (ask (.resolve p.worker (some p.scope) module))
    let v ← orFail (ask (.evaluate p.worker u p.scope))
    ask (.setProperty p.scope binding v)
  | .checked key binding => do
    let found ← ask (.checked p.worker key)
    ask (.setProperty p.scope binding (.bool found.isSome))
  | .shared binding => do
    let shared ← ask (.sharesModules p.worker)
    let shown := Text.recordText "CheckedModules" [("shared_with_modules", Text.flagText shared)]
    ask (.setProperty p.scope binding (.str shown))
  | .provide name body => do
    let f ← ask (.newFunction name body)
    ask (.setProperty p.scope name f)
  | .define name e => do
    let v ← evaluate p e
    ask (.setProperty p.scope name v)
  | .defineGlobal name e => do
    let v ← evaluate p e
    let env ← ask (.globalScope p.worker)
    ask (.setProperty env name v)
  | .fail text => fault text none
  | .panic text => crash (some text)
  | .log e => do
    let v ← evaluate p e
    log (.value v)
  | .result _ => return ()
  | .report line column text => ask (.report p.worker ⟨text, p.path, line, column, none⟩)

def runStatements (p : Place) (v : Value) : List Statement → Eval Value
  | [] => return v
  | .result e :: _ => evaluate p e
  | .provide name body :: rest => do
    runStatement p (.provide name body)
    runStatements p (.str name) rest
  | statement :: rest => do
    runStatement p statement
    runStatements p v rest

def runBody (path : String) (statements : List Statement) (k : WorkerId) (env : EnvironmentId) :
    Code language (Answer Value) := do
  log (.ran path)
  (runStatements ⟨path, k, env, []⟩ .undefined statements).run

/-! ## Units made by hand -/

namespace UnitDefinition

def run (d : UnitDefinition) (k : WorkerId) (env : EnvironmentId) :
    Code language (Answer Value) :=
  match Source.parse d.name d.source with
  | .ok statements => runBody d.name statements k env
  | .error errors => pure (.error (.syntaxErrors d.name errors))

def register (d : UnitDefinition) (k : WorkerId) (env : EnvironmentId) : Code language Unit :=
  if d.registers then ask (.markChecked k d.key env) else pure ()

/-- Whether the module of the last load may stand. -/
def accepts (d : UnitDefinition) (u : UnitId) (env : EnvironmentId) : Code language Bool := do
  let sum ← ask (.unitChecksum u)
  return d.isBare || (← ask (.checksum env)) = some sum

def build (d : UnitDefinition) (u : UnitId) (k : WorkerId) :
    Code language (Answer EnvironmentId) := do
  let env ← ask (.newModule d.name (some d.key))
  d.register k env
  match ← d.run k env with
  | .error cause => return .error cause
  | .ok _ =>
    let sum ← ask (.unitChecksum u)
    ask (.stamp env sum)
    return .ok env

def load (d : UnitDefinition) (u : UnitId) (k : WorkerId)
    (existing : Option EnvironmentId) : Code language (Answer EnvironmentId) := do
  match existing with
  | none => d.build u k
  | some env =>
    if ← d.accepts u env then
      if !d.isBare then d.register k env
      return .ok env
    else d.build u k

def depend (d : UnitDefinition) (u dependency : UnitId) : Code language Unit := do
  let name ← ask (.unitName u)
  let other ← ask (.unitName dependency)
  log (.edge name other)
  if !d.isBare then ask (.recordDependency u dependency)

end UnitDefinition

def addDefinition (w : World language) (r : ResolverId) (d : UnitDefinition) (version : UInt64) :
    World language :=
  let (u, w) := w.addUnit ⟨d.key, d.name, .custom d version, Dictionary.empty⟩
  { w with host := { w.host with definitions := (r, d, u) :: w.host.definitions } }

/-! ## Jobs of event loops -/

def Firings.at? (firings : Firings) (place : Nat) : Option Firing :=
  (firings[place]?).or firings.getLast?

def Firing.run (f : Firing) : Eval Value := do
  if let some latch := f.latch then awaitLatch latch
  if let some text := f.note then log (.note text)
  if let some (task, loop) := f.cancel then
    let t ← awaitTask task
    let l := ((← bench).loops[loop]?).getD 0
    let done ← ask (.cancelOn l t)
    log (.cancelled done)
  if f.threadName then return .str (← Mini.threadName)
  if let some text := f.failure then fault text none
  if let some payload := f.panic then crash payload
  evaluate ⟨"", 0, 0, []⟩ f.reply

def runFirings (firings : Firings) (firing : Nat) : Code language (Answer Value) :=
  match firings.at? (firing - 1) with
  | some f => f.run.run
  | none => pure (.ok .undefined)

/-! ## The interpreter -/

/-- The name of a thread. A worker's number at its end is written as the worker's place. -/
def nameOfThread (w : World language) : ThreadId → String
  | .caller _ => "caller"
  | .service l =>
    let name := ((w.scheduler.loop? l).map EventLoop.name).getD ""
    let worker := (List.range w.workers.size).find? fun k =>
      Path.endsWith ("-" ++ toString (w.workerNumber k)) name
    match worker with
    | none => name
    | some k =>
      let kept := name.length - (toString (w.workerNumber k)).length
      String.ofList (name.toList.take kept) ++ "#" ++ toString k

def codeOf : (callee : Callee language) → Code language callee.Result
  | .compile path source => do
    log (.compiled path)
    return (Source.parse path source).map fun statements => (path, statements)
  | .execute (path, statements) k env => runBody path statements k env
  | .call body k this args => (evaluate ⟨"", k, this, args⟩ body).run
  | .load d u k existing => d.load u k existing
  | .evaluate d _ k env => d.run k env
  | .depend d u dependency => d.depend u dependency
  | .resolve r name near => do
    match (← bench).definition? r name with
    | some u => return .ok u
    | none => return .error (.moduleNotFound name [(near.map Repository.path).getD "none"])
  | .job firings firing => runFirings firings firing

def interpreter : Interpreter language where
  code := codeOf
  effect change thread w := (change w.host).map fun b => (⟨nameOfThread w thread, b⟩, b)

end ScriptWorker.Mini
