import ScriptWorker.Schedule.Task
import ScriptWorker.Text.OsText

/-!
# Settings

What a deployment of workers can be configured with, and the defaults.
-/

namespace ScriptWorker

inductive LogLevel where
  | trace
  | debug
  | info
  | warn
  | error
  deriving DecidableEq, Repr, Inhabited

namespace LogLevel

def names : List (String × LogLevel) :=
  [("trace", trace), ("debug", debug), ("info", info), ("warn", warn), ("error", error)]

def name : LogLevel → String
  | trace => "trace"
  | debug => "debug"
  | info => "info"
  | warn => "warn"
  | error => "error"

end LogLevel

namespace FailurePolicy

def names : List (String × FailurePolicy) := [("continue", .continue), ("halt", .halt)]

def name : FailurePolicy → String
  | .continue => "continue"
  | .halt => "halt"

end FailurePolicy

structure WorkerConfig where
  /-- Whether every outermost call looks again whether modules are stale. -/
  reloading : Bool
  threadNamePrefix : String
  periodicFailure : FailurePolicy
  deriving DecidableEq, Repr

def WorkerConfig.defaults : WorkerConfig := ⟨false, "yaoxiang-worker", .continue⟩

instance : Inhabited WorkerConfig := ⟨WorkerConfig.defaults⟩

structure ModuleConfig where
  paths : List OsText
  /-- Ending of the names of script files. -/
  extension : String
  deriving DecidableEq, Repr

def ModuleConfig.defaults : ModuleConfig := ⟨[], "yx"⟩

structure RuntimeConfig where
  logLevel : LogLevel
  worker : WorkerConfig
  modules : ModuleConfig
  deriving DecidableEq, Repr

def RuntimeConfig.defaults : RuntimeConfig := ⟨.info, WorkerConfig.defaults, ModuleConfig.defaults⟩

instance : Inhabited RuntimeConfig := ⟨RuntimeConfig.defaults⟩

end ScriptWorker
