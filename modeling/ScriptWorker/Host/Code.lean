import ScriptWorker.Environment
import ScriptWorker.Host.Reference

/-!
# Code of the host and its scripts

The library runs scripts of any language. A language says what compiled bodies, function closures and
the other things it hands to the library are; its code is a tree of requests to the library. What
comes of a request, a panic included, is known before the code goes on.
-/

namespace ScriptWorker

/-- What a script language and its host bring along. -/
structure Language where
  Body : Type
  Closure : Type
  Job : Type
  /-- How a unit that is no script behaves. -/
  UnitSpec : Type
  ResolverSpec : Type
  Effect : Type
  Notice : Type
  State : Type

inductive StoreEdit where
  | insert (path : String) (content : ByteArray)
  | remove (path : String)
  | touch

variable (L : Language)

inductive Request where
  | property (env : EnvironmentId) (name : String)
  | setProperty (env : EnvironmentId) (name : String) (value : Value)
  | environmentName (env : EnvironmentId)
  | newModule (name : String) (key : Option String)
  | newFunction (name : String) (closure : L.Closure)
  | newWrapper (inner : Value)
  | newHostObject (payload : Option String)
  | checksum (env : EnvironmentId)
  | stamp (env : EnvironmentId) (sum : UInt64)
  | loadModule (worker : WorkerId) (caller : Option EnvironmentId) (name : String)
  | invoke (worker : WorkerId) (module : ModuleRef) (function : FunctionRef) (args : List Value)
  | evaluate (worker : WorkerId) (unit : UnitId) (env : EnvironmentId)
  | resolve (worker : WorkerId) (caller : Option EnvironmentId) (name : String)
  | globalScope (worker : WorkerId)
  | checked (worker : WorkerId) (key : String)
  | markChecked (worker : WorkerId) (key : String) (env : EnvironmentId)
  | sharesModules (worker : WorkerId)
  | report (worker : WorkerId) (error : SyntaxError)
  | errors (worker : WorkerId)
  | currentScript (worker : WorkerId)
  | currentWorker
  | unitName (unit : UnitId)
  | unitChecksum (unit : UnitId)
  | recordDependency (unit dependency : UnitId)
  | schedule (worker : WorkerId) (module : ModuleRef) (function : FunctionRef) (args : List Value)
      (timing : Timing)
  | cancel (worker : WorkerId) (task : TaskId)
  | cancelOn (loop : LoopId) (task : TaskId)
  | edit (repository : Repository) (change : StoreEdit)
  | sleep (length : Duration)
  | effect (effect : L.Effect)

variable {L}

abbrev Request.Reply : Request L → Type
  | property .. => Option Value
  | setProperty .. => Unit
  | environmentName .. => String
  | newModule .. => EnvironmentId
  | newFunction .. => Value
  | newWrapper .. => Value
  | newHostObject .. => Value
  | checksum .. => Option UInt64
  | stamp .. => Unit
  | loadModule .. => Answer EnvironmentId
  | invoke .. => Answer Value
  | evaluate .. => Answer Value
  | resolve .. => Answer UnitId
  | globalScope .. => EnvironmentId
  | checked .. => Option EnvironmentId
  | markChecked .. => Unit
  | sharesModules .. => Bool
  | report .. => Unit
  | errors .. => List SyntaxError
  | currentScript .. => Option UnitId
  | currentWorker => Option WorkerId
  | unitName .. => String
  | unitChecksum .. => UInt64
  | recordDependency .. => Unit
  | schedule .. => Answer TaskId
  | cancel .. => Bool
  | cancelOn .. => Bool
  | edit .. => Bool
  | sleep .. => Unit
  | effect .. => L.Notice

/-- Code that answers with an `α`: it ends, or asks for something and goes on with what comes of that,
a reply or a panic. -/
inductive Code (L : Language) (α : Type) where
  | ended (outcome : Outcome α)
  | ask (request : Request L) (next : Outcome request.Reply → Code L α)

namespace Code

variable {α β : Type}

def bind : Code L α → (α → Code L β) → Code L β
  | ended (.done a), f => f a
  | ended (.panic payload), _ => ended (.panic payload)
  | ask request next, f => ask request fun outcome => (next outcome).bind f

instance : Monad (Code L) where
  pure a := ended (.done a)
  bind := bind

def panic (payload : Option String) : Code L α := ended (.panic payload)

/-- Ask for one thing; a panic goes on. -/
def request (r : Request L) : Code L r.Reply := ask r ended

end Code

variable (L) in
/-- The code from outside that the library runs. -/
inductive Callee where
  | compile (path : String) (source : String)
  | execute (body : L.Body) (worker : WorkerId) (env : EnvironmentId)
  | call (closure : L.Closure) (worker : WorkerId) (this : EnvironmentId) (args : List Value)
  /-- Load a unit of the host, given the environment of its last load. -/
  | load (spec : L.UnitSpec) (unit : UnitId) (worker : WorkerId) (existing : Option EnvironmentId)
  | evaluate (spec : L.UnitSpec) (unit : UnitId) (worker : WorkerId) (env : EnvironmentId)
  | depend (spec : L.UnitSpec) (unit dependency : UnitId)
  | resolve (spec : L.ResolverSpec) (name : String) (near : Option Repository)
  /-- Run a job of the host; firings count from one. -/
  | job (job : L.Job) (firing : Nat)

abbrev Callee.Result : Callee L → Type
  | compile .. => Except (List SyntaxError) L.Body
  | execute .. => Answer Value
  | call .. => Answer Value
  | load .. => Answer EnvironmentId
  | evaluate .. => Answer Value
  | depend .. => Unit
  | resolve .. => Answer UnitId
  | job .. => Answer Value

end ScriptWorker
