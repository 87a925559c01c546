import ScriptWorker.Failure
import ScriptWorker.Schedule.DelayQueue

/-!
# References to modules and functions

A call names its module or gives its environment, and names its function or gives the function
itself. A value that is neither is refused.
-/

namespace ScriptWorker

inductive ModuleRef where
  | name (name : String)
  | environment (env : EnvironmentId)
  deriving DecidableEq, Repr, Inhabited

inductive FunctionRef where
  | name (name : String)
  | callable (function : FunctionId) (name : String)
  deriving DecidableEq, Repr, Inhabited

def ModuleRef.ofValue : Value → Answer ModuleRef
  | .str text => .ok (.name text)
  | .scope env _ => .ok (.environment env)
  | other => .error (.invalidArgument
      ("module argument must be a scope or a string, got " ++ other.typeName))

def FunctionRef.ofValue : Value → Answer FunctionRef
  | .str text => .ok (.name text)
  | .function id text => .ok (.callable id text)
  | other => .error (.invalidArgument
      ("function argument must be a function or a string, got " ++ other.typeName))

def FunctionRef.shown : FunctionRef → String
  | name text => "Name(" ++ Text.quoted text ++ ")"
  | callable _ text => "Callable(" ++ Text.quoted text ++ ")"

inductive Timing where
  | soon
  | after (delay : Duration)
  /-- After the delay, and again that long after each call returns. -/
  | every (delay : Duration)
  deriving DecidableEq, Repr, Inhabited

end ScriptWorker
