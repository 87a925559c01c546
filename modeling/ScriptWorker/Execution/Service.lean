import ScriptWorker.Execution.Tasks

/-!
# The thread of an event loop

The thread takes the tasks of its loop one at a time, as their deadlines come, and runs their jobs. A
panic of a job ends the firing and not the thread.
-/

namespace ScriptWorker

variable {L : Language}

namespace EventLoop

/-- The outcome of a firing; a panic is recorded as a failure of the task. -/
def outcomeOf (number : Nat) : Outcome (Answer Value) → Answer Value
  | .done answer => answer
  | .panic payload => .error (.panicked number (panicText payload))

def conclusion (s : Scheduler) (t : TaskId) (result : Outcome (Answer Value)) : Conclude :=
  Conclude.start (s.kindOf t) (s.policyOf t) t (outcomeOf (s.numberOf t) result)

def runTask (l : LoopId) (t : TaskId) (firing : Nat) : Run L Unit := do
  match ← Program.read fun w => w.jobOf t with
  | none => return ()
  | some job =>
    let result ← (runJob (.service l) job firing).caught
    let stage ← Program.read fun w => conclusion w.scheduler t result
    perform stage

/-- Fire a task that was taken out of the queue, unless it was cancelled first. -/
def fire (l : LoopId) (t : TaskId) : Run L Unit := do
  match ← perform (Start.swap t) with
  | none => return ()
  | some firing => runTask l t firing

def serveStage (x : Serve) : Run L (Serve ⊕ Option TaskId) :=
  .step (fun w => w.afterStage (x.advance w.scheduler)) fun w =>
    match x.advance w.scheduler with
    | .blocked => .panic none
    | .next _ y => pure (.inl y)
    | .finished _ task => pure (.inr task)
    | .panicked _ text => .panic (some text)

/-- One round of a loop's thread from a stage of its wait; gives where the next round begins, or
`none` once the loop has stopped. -/
def round (l : LoopId) (x : Serve) : Run L (Option Serve) := do
  match ← serveStage x with
  | .inl y => return some y
  | .inr none => return none
  | .inr (some task) =>
    fire l task
    return some (.poll l)

end EventLoop

end ScriptWorker
