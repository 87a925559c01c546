import ScriptWorker.Mini.Bench

/-!
# Evaluation of expressions

Expressions are evaluated from left to right, each request to the library answered before the next.
-/

namespace ScriptWorker.Mini

abbrev Eval := ExceptT Failure (Code language)

structure Place where
  path : String
  worker : WorkerId
  scope : EnvironmentId
  arguments : List Value

def ask (request : Request language) : Code language request.Reply := Code.request request

def orFail {α : Type} (code : Code language (Answer α)) : Eval α := ExceptT.mk code

def fault {α : Type} (text : String) (module : Option String) : Eval α :=
  throw (.script text module)

/-- A panic of script code, which passes through every handler of failures. -/
def crash {α : Type} (payload : Option String) : Eval α := ExceptT.mk (Code.panic payload)

def await (change : Bench → Option Bench) : Code language Bench := do
  return (← ask (.effect change)).bench

def change (f : Bench → Bench) : Code language Unit := do
  let _ ← await fun b => some (f b)

def bench : Code language Bench := await some

def log (entry : LogEntry) : Code language Unit := change fun b => b.addLog entry

def threadName : Code language String := return (← ask (.effect some)).threadName

def count (counter : String) : Code language Nat := do
  return (← await fun b => some (b.count counter)).countOf counter

def awaitLatch (latch : String) : Code language Unit := do
  let _ ← await fun b => if latch ∈ b.latches then some b else none

def addTask (t : TaskId) : Code language Nat := do
  return (← await fun b => some (b.addTask t)).tasks.length - 1

def awaitTask (place : Nat) : Code language TaskId := do
  let b ← await fun b => if place < b.tasks.length then some b else none
  return (b.tasks[place]?).getD 0

def milliseconds (n : Nat) : Duration := n * 1000000

def natValue (n : Nat) : Value := .int (Int64.ofNat n)

def scopeValue (env : EnvironmentId) : Eval Value := return .scope env (← ask (.environmentName env))

def loadModule (p : Place) (name : String) : Eval EnvironmentId :=
  orFail (ask (.loadModule p.worker (some p.scope) name))

def invoke (k : WorkerId) (module : ModuleRef) (function : String) (args : List Value) : Eval Value :=
  orFail (ask (.invoke k module (.name function) args))

def importedModule (p : Place) (name : String) : Eval EnvironmentId := do
  match ← ask (.property p.scope name) with
  | some (.scope env _) => return env
  | _ => fault (name ++ " is not imported") none

def unknownText : String := "bad expr"

mutual

def evaluate (p : Place) : Expression → Eval Value
  | .undefined => return .undefined
  | .null => return .null
  | .bool b => return .bool b
  | .int n => return .int n
  | .float bits => return .float bits
  | .text s => return .str s
  | .list items => return .list (← evaluateAll p items)
  | .function name body => ask (.newFunction name body)
  | .newModule name => return .scope (← ask (.newModule name none)) name
  | .environment index => do
    scopeValue (((← bench).environments[index]?).getD 0)
  | .hostObject text => ask (.newHostObject text)
  | .wrap inner => do
    let v ← evaluate p inner
    ask (.newWrapper v)
  | .argument index => return (p.arguments[index]?).getD .undefined
  | .arguments => return .list p.arguments
  | .scopeName => return .str (← ask (.environmentName p.scope))
  | .property name => return (← ask (.property p.scope name)).getD .undefined
  | .assign name e => do
    let v ← evaluate p e
    ask (.setProperty p.scope name v)
    return v
  | .call module function args => do
    let env ← importedModule p module
    let values ← evaluateAll p args
    invoke p.worker (.environment env) function values
  | .invoke worker module function args => do
    let values ← evaluateAll p args
    invoke (worker.getD p.worker) (.name module) function values
  | .load module => do
    let env ← loadModule p module
    scopeValue env
  | .guarded e => tryCatch (evaluate p e) fun cause => return .str cause.text
  | .raise text => do
    let name ← ask (.environmentName p.scope)
    fault text (some name)
  | .panic text => crash (some text)
  | .sequence es => evaluateLast p .undefined es
  | .log e => do
    let v ← evaluate p e
    log (.value v)
    return v
  | .count counter => return natValue (← count counter)
  | .choose counter es => do
    let k ← count counter
    evaluateAt p (k - 1) es
  | .activeWorker => return ((← ask .currentWorker).map natValue).getD .undefined
  | .currentScript => do
    match ← ask (.currentScript p.worker) with
    | some u => return .str (← ask (.unitName u))
    | none => return .undefined
  | .errorCount => return natValue (← ask (.errors p.worker)).length
  | .threadName => return .str (← threadName)
  | .latch name => do
    awaitLatch name
    return .undefined
  | .work length => do
    change Bench.startWork
    ask (.sleep (milliseconds length))
    change Bench.endWork
    return .undefined
  | .submit module function args => do
    let values ← evaluateAll p args
    let t ← orFail (ask (.schedule p.worker (.name module) (.name function) values .soon))
    return natValue (← addTask t)
  | .cancel task => do
    let t ← awaitTask task
    return .bool (← ask (.cancel p.worker t))
  | .touch repository => do
    if let some r := (← bench).repositories[repository]? then
      let _ ← ask (.edit r .touch)
    return .undefined
  | .unknown => fault unknownText none

def evaluateAll (p : Place) : List Expression → Eval (List Value)
  | [] => return []
  | e :: es => do
    let v ← evaluate p e
    return v :: (← evaluateAll p es)

def evaluateLast (p : Place) (v : Value) : List Expression → Eval Value
  | [] => return v
  | e :: es => do
    let v ← evaluate p e
    evaluateLast p v es

/-- The value of the expression at a place, or of the last one before it. -/
def evaluateAt (p : Place) : Nat → List Expression → Eval Value
  | _, [] => return .undefined
  | _, [e] => evaluate p e
  | 0, e :: _ => evaluate p e
  | place + 1, _ :: e :: es => evaluateAt p place (e :: es)

end

end ScriptWorker.Mini
