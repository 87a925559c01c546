import ScriptWorker.Failure
import ScriptWorker.Schedule.DelayQueue

/-!
# Tasks

A task is one scheduled invocation. Its state moves by compare-and-swap, so of several threads that
try to start, cancel or finish it one wins; its outcome is written in a step of its own.
-/

namespace ScriptWorker

inductive TaskState where
  /-- Queued and not started; a periodic task comes back here between firings. -/
  | pending
  | running
  | finished
  /-- A periodic task stopped by a firing that failed. -/
  | failed
  /-- Cancelled, or discarded with its loop. -/
  | cancelled
  deriving DecidableEq, Repr, Inhabited

namespace TaskState

def code : TaskState → UInt8
  | pending => 0
  | running => 1
  | finished => 2
  | failed => 3
  | cancelled => 4

/-- The state with a code; every code that no other state has means cancelled. -/
def ofCode (n : UInt8) : TaskState :=
  if n = 0 then pending
  else if n = 1 then running
  else if n = 2 then finished
  else if n = 3 then failed
  else cancelled

def isTerminal : TaskState → Bool
  | finished | failed | cancelled => true
  | pending | running => false

def name : TaskState → String
  | pending => "Pending"
  | running => "Running"
  | finished => "Finished"
  | failed => "Failed"
  | cancelled => "Cancelled"

@[simp] theorem ofCode_code (s : TaskState) : ofCode s.code = s := by cases s <;> rfl

end TaskState

inductive TaskKind where
  | oneShot
  | periodic (interval : Duration)
  deriving DecidableEq, Repr, Inhabited

def TaskKind.isPeriodic : TaskKind → Bool
  | .periodic _ => true
  | .oneShot => false

inductive FailurePolicy where
  | continue
  | halt
  deriving DecidableEq, Repr, Inhabited

structure Task where
  /-- Number within its loop, from one. -/
  number : Nat
  kind : TaskKind
  owner : LoopId
  job : JobId
  state : TaskState
  firings : Nat
  outcome : Option (Answer Value)
  deriving Inhabited

namespace Task

def create (number : Nat) (kind : TaskKind) (owner : LoopId) (job : JobId) : Task :=
  ⟨number, kind, owner, job, .pending, 0, none⟩

def transition (t : Task) (source target : TaskState) : Bool × Task :=
  if t.state = source then (true, { t with state := target }) else (false, t)

def settle (t : Task) (outcome : Answer Value) : Task := { t with outcome := some outcome }

/-- Whole units of time with the unit that divides a duration: seconds down to nanoseconds. -/
def durationText (d : Duration) : String :=
  let fractional (unit : Nat) (places : Nat) (suffix : String) : String :=
    let digits := (toString (d % unit)).toList
    let padded := List.replicate (places - digits.length) '0' ++ digits
    let fraction := (padded.reverse.dropWhile (· == '0')).reverse
    let whole := toString (d / unit)
    (if fraction.isEmpty then whole else whole ++ "." ++ String.ofList fraction) ++ suffix
  if 1000000000 ≤ d then fractional 1000000000 9 "s"
  else if 1000000 ≤ d then fractional 1000000 6 "ms"
  else if 1000 ≤ d then fractional 1000 3 "µs"
  else toString d ++ "ns"

def kindShown (t : Task) : String :=
  match t.kind with
  | .oneShot => "OneShot"
  | .periodic interval => Text.recordText "Periodic" [("interval", durationText interval)]

def shown (t : Task) : String :=
  Text.recordText "TaskHandle" [("shared", Text.recordText "Task" [
    ("id", "TaskId(" ++ toString t.number ++ ")"),
    ("kind", t.kindShown),
    ("state", t.state.name),
    ("firings", toString t.firings)])]

end Task

end ScriptWorker
