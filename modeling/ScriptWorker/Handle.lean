/-!
# Handles

Everything that scripts, workers and event loops share is named by its place in a table, so two
handles are the same object exactly when they are equal.
-/

namespace ScriptWorker

abbrev WorkerId := Nat

abbrev EnvironmentId := Nat

abbrev FunctionId := Nat

/-- An opaque object of the host program, or a wrapper around a value. -/
abbrev ObjectId := Nat

abbrev UnitId := Nat

abbrev ResolverId := Nat

/-- The entries shared by all handles of one memory repository. -/
abbrev StoreId := Nat

/-- A remembered answer to the question whether a memory resource exists. -/
abbrev ExistenceId := Nat

abbrev LoopId := Nat

abbrev TaskId := Nat

/-- What a task does when it fires. -/
abbrev JobId := Nat

abbrev CounterId := Nat

/-- A thread: one that calls the library from outside, or the one that serves an event loop. -/
inductive ThreadId where
  | caller (n : Nat)
  | service (loop : LoopId)
  deriving DecidableEq, Repr

end ScriptWorker
