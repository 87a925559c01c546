import ScriptWorker.Execution.Calls
import ScriptWorker.Execution.Stages

/-!
# Asynchronous calls

Handing calls to a worker's event loop, cancelling them, and waiting for their outcomes. A worker
lives as long as its owner or a job that runs on it refers to it; with the last reference its event
loop stops.
-/

namespace ScriptWorker

variable {L : Language}

namespace World

def addJob (w : World L) (job : TaskJob L) : JobId × World L :=
  (w.jobs.size, { w with jobs := w.jobs.push job })

def jobOf (w : World L) (t : TaskId) : Option (TaskJob L) :=
  (w.scheduler.task? t).bind fun task => w.jobs.get? task.job

def outcome (w : World L) (t : TaskId) : Option (Answer Value) :=
  (w.scheduler.task? t).bind Task.outcome

end World

def noIntervalText : String := "periodic interval must be greater than zero"

namespace SlotReply

def answered : SlotReply → Answer TaskId
  | queued task => .ok task
  | _ => .error (.invalidArgument noIntervalText)

def count : SlotReply → Nat
  | number n => n
  | _ => 0

end SlotReply

namespace Worker

def taskOf : Timing → TaskKind × Duration
  | .soon => (.oneShot, 0)
  | .after delay => (.oneShot, delay)
  | .every delay => (.periodic delay, delay)

def schedule (k : WorkerId) (module : ModuleRef) (function : FunctionRef) (args : List Value)
    (timing : Timing) : Run L (Answer TaskId) := do
  let job ← Program.transact fun w => w.addJob (.invocation k module function args)
  let (kind, delay) := taskOf timing
  let reply ← perform (SlotStage.acquire k (.enqueue kind delay job))
  return reply.answered

/-- Cancel a task and release one slot of this worker's counter. -/
def cancel (k : WorkerId) (t : TaskId) : Run L Bool := do
  let counter ← Program.read fun w => w.workerCounter k
  perform (Cancel.swapPending t counter)

def countScheduled (k : WorkerId) : Run L Nat := do
  let reply ← perform (SlotStage.acquire k .count)
  return reply.count

def terminate (k : WorkerId) : Run L Nat := do
  let reply ← perform (SlotStage.acquire k .terminate)
  return reply.count

def release (k : WorkerId) : Run L Unit := do
  if ← Program.transact fun w => w.release k then
    let _ ← terminate k

end Worker

namespace EventLoop

def start (name : String) (policy : FailurePolicy) : Run L (CounterId × LoopId) := do
  if let some text := Scheduler.threadNameFault? name then Program.panic (some text)
  Program.transact fun w =>
    let (counter, l, w) := w.addLoop name policy
    ((counter, l), w)

def schedule (l : LoopId) (job : L.Job) (kind : TaskKind) (delay : Duration) :
    Run L (Answer TaskId) := do
  if kind.lacksInterval then return .error (.invalidArgument noIntervalText)
  let job ← Program.transact fun w => w.addJob (.custom job)
  let task ← perform (Enqueue.create l kind delay job)
  return .ok task

/-- Cancel a task and release one slot of the loop's counter. -/
def cancel (l : LoopId) (t : TaskId) : Run L Bool := do
  let counter ← Program.read fun w => (w.scheduler.loop? l).map EventLoop.counter
  perform (Cancel.swapPending t (counter.getD 0))

def shutdown (l : LoopId) : Run L Nat := perform (Shutdown.stop l)

end EventLoop

namespace Task

def join (t : TaskId) : Run L (Answer Value) :=
  Program.await fun w => (w.outcome t).map fun outcome => (outcome, w)

def joinAtMost (t : TaskId) (timeout : Duration) : Run L (Option (Answer Value)) :=
  waitAtMost timeout fun w => w.outcome t

end Task

def AsyncCounter.waitIdle (c : CounterId) (timeout : Duration) : Run L Bool := do
  let found ← waitAtMost timeout fun w => if w.scheduler.count c = 0 then some () else none
  return found.isSome

def runJob (thread : ThreadId) (job : TaskJob L) (firing : Nat) : Run L (Answer Value) :=
  match job with
  | .custom job => outside (.job job firing)
  | .invocation k module function args => do
    if ← Program.transact fun w => w.retain k then
      (Worker.invoke thread k module function args).thenAlways (Worker.release k)
    else
      let number ← Program.read fun w => w.workerNumber k
      return .error (.workerDropped number)

end ScriptWorker
