import ScriptWorker.Collections.Table
import ScriptWorker.Schedule.Counter
import ScriptWorker.Schedule.Task

/-!
# The scheduler's shared state

Counters, tasks, event loops and the loop slots of workers, with the clock that deadlines are read
from. Each function here is one atomic step: what a thread does under one lock, in one
compare-and-swap, or in one update of a counter.
-/

namespace ScriptWorker

structure EventLoop where
  name : String
  queue : DelayQueue TaskId
  running : Bool
  /-- While the loop's thread is blocked: until when, or for good when the queue was empty. -/
  sleeping : Option (Option Instant)
  counter : CounterId
  policy : FailurePolicy
  nextNumber : Nat
  deriving Inhabited

/-- Where a worker keeps its event loop, with the lock that guards the place. -/
structure LoopSlot where
  loop : Option LoopId
  locked : Bool
  threadName : String
  counter : CounterId
  policy : FailurePolicy
  deriving Inhabited

structure Scheduler where
  now : Instant
  /-- The last representable point of time. -/
  horizon : Instant
  counters : Table AsyncCounter
  tasks : Table Task
  loops : Table EventLoop
  slots : Table LoopSlot
  deriving Inhabited

namespace Scheduler

def create (horizon : Instant) : Scheduler :=
  ⟨0, horizon, Table.empty, Table.empty, Table.empty, Table.empty⟩

def later? (s : Scheduler) (delay : Duration) : Option Instant :=
  if s.now + delay ≤ s.horizon then some (s.now + delay) else none

def task? (s : Scheduler) (t : TaskId) : Option Task := s.tasks.get? t

def loop? (s : Scheduler) (l : LoopId) : Option EventLoop := s.loops.get? l

def count (s : Scheduler) (c : CounterId) : Nat :=
  match s.counters.get? c with
  | some counter => counter.count
  | none => 0

def addCounter (s : Scheduler) : CounterId × Scheduler :=
  (s.counters.size, { s with counters := s.counters.push AsyncCounter.create })

def increment (s : Scheduler) (c : CounterId) : Scheduler :=
  { s with counters := s.counters.modify c AsyncCounter.increment }

def decrement (s : Scheduler) (c : CounterId) : Scheduler :=
  { s with counters := s.counters.modify c AsyncCounter.decrement }

/-- Text of the panic of starting a thread under a name with a zero byte in it. -/
def threadNameFault? (name : String) : Option String :=
  let bytes := name.toUTF8.toList
  (bytes.idxOf? 0).map fun place =>
    "thread name may not contain interior null bytes: NulError(" ++ toString place ++ ", " ++
      Text.bracketed (bytes.map toString) ++ ")"

def addLoop (s : Scheduler) (name : String) (counter : CounterId) (policy : FailurePolicy) :
    LoopId × Scheduler :=
  (s.loops.size,
    { s with loops := s.loops.push ⟨name, DelayQueue.empty, true, none, counter, policy, 1⟩ })

/-- Compare-and-swap of a task's state; says whether it was done. -/
def transition (s : Scheduler) (t : TaskId) (source target : TaskState) : Bool × Scheduler :=
  match s.tasks.get? t with
  | none => (false, s)
  | some task =>
    let (moved, task) := task.transition source target
    (moved, { s with tasks := s.tasks.modify t fun _ => task })

def settle (s : Scheduler) (t : TaskId) (outcome : Answer Value) : Scheduler :=
  { s with tasks := s.tasks.modify t fun task => task.settle outcome }

def settleCancelled (s : Scheduler) (t : TaskId) : Scheduler :=
  { s with tasks := s.tasks.modify t fun task => task.settle (.error (.cancelled task.number)) }

def countFiring (s : Scheduler) (t : TaskId) : Scheduler :=
  { s with tasks := s.tasks.modify t fun task => { task with firings := task.firings + 1 } }

def createTask (s : Scheduler) (l : LoopId) (kind : TaskKind) (job : JobId) : TaskId × Scheduler :=
  let number := match s.loops.get? l with
    | some loop => loop.nextNumber
    | none => 0
  (s.tasks.size,
    { s with
      tasks := s.tasks.push (Task.create number kind l job)
      loops := s.loops.modify l fun loop => { loop with nextNumber := loop.nextNumber + 1 } })

def withQueue (s : Scheduler) (l : LoopId) (queue : DelayQueue TaskId) : Scheduler :=
  { s with loops := s.loops.modify l fun loop => { loop with queue := queue } }

def notify (s : Scheduler) (l : LoopId) : Scheduler :=
  { s with loops := s.loops.modify l fun loop => { loop with sleeping := none } }

inductive Admission where
  | queued
  | stopped
  /-- The deadline lies past the horizon; the counter slot was taken before that showed. -/
  | overflow
  deriving DecidableEq, Repr

/-- Under the queue's lock: refuse if the loop has stopped, else take a counter slot and queue. -/
def accept (s : Scheduler) (l : LoopId) (t : TaskId) (delay : Duration) : Admission × Scheduler :=
  match s.loops.get? l with
  | none => (.stopped, s)
  | some loop =>
    if loop.running then
      let s := s.increment loop.counter
      match s.later? delay with
      | none => (.overflow, s)
      | some deadline => (.queued, s.withQueue l (loop.queue.push deadline t))
    else (.stopped, s)

def unqueue (s : Scheduler) (l : LoopId) (t : TaskId) : Bool × Scheduler :=
  match s.loops.get? l with
  | none => (false, s)
  | some loop =>
    let (removed, queue) := loop.queue.retain fun other => other != t
    (removed ≠ 0, s.withQueue l queue)

def stop (s : Scheduler) (l : LoopId) : List TaskId × Scheduler :=
  match s.loops.get? l with
  | none => ([], s)
  | some loop =>
    let (drained, queue) := loop.queue.drain
    (drained, { s with loops := s.loops.modify l fun loop =>
      { loop with running := false, queue := queue } })

inductive Poll where
  | stopped
  | ready (task : TaskId)
  | blocked
  deriving DecidableEq, Repr

/-- Under the queue's lock: stop, take out the first task that is due, or block. -/
def poll (s : Scheduler) (l : LoopId) : Poll × Scheduler :=
  match s.loops.get? l with
  | none => (.stopped, s)
  | some loop =>
    if !loop.running then (.stopped, s)
    else
      match loop.queue.popReady s.now with
      | some (task, queue) => (.ready task, s.withQueue l queue)
      | none =>
        (.blocked, { s with loops := s.loops.modify l fun loop =>
          { loop with sleeping := some loop.queue.nextDeadline } })

/-- Whether the thread of a loop, if it blocked, may go on: it was woken or its time has come. -/
def awake (s : Scheduler) (l : LoopId) : Bool :=
  match s.loops.get? l with
  | none => true
  | some loop =>
    match loop.sleeping with
    | none => true
    | some none => false
    | some (some deadline) => deadline ≤ s.now

inductive Rearming where
  | queued
  | ended
  | overflow
  deriving DecidableEq, Repr

/-- Drop a task that will never run: cancelled, and its outcome written. -/
def discardNow (s : Scheduler) (t : TaskId) : Scheduler :=
  match s.transition t .pending .cancelled with
  | (true, s) => s.settleCancelled t
  | (false, s) =>
    match s.transition t .running .cancelled with
    | (true, s) => s.settleCancelled t
    | (false, s) => s

/-- Under the queue's lock: discard the task if the loop has stopped, else queue its next firing
unless it was cancelled. -/
def rearm (s : Scheduler) (t : TaskId) (interval : Duration) : Rearming × Scheduler :=
  match s.tasks.get? t with
  | none => (.ended, s)
  | some task =>
    match s.loops.get? task.owner with
    | none => (.ended, s)
    | some loop =>
      if !loop.running then (.ended, s.discardNow t)
      else
        match s.transition t .running .pending with
        | (false, s) => (.ended, s)
        | (true, s) =>
          match s.later? interval with
          | none => (.overflow, s)
          | some deadline => (.queued, s.withQueue task.owner (loop.queue.push deadline t))

def pending (s : Scheduler) (l : LoopId) : Nat :=
  match s.loops.get? l with
  | some loop => loop.queue.size
  | none => 0

def isRunning (s : Scheduler) (l : LoopId) : Bool :=
  match s.loops.get? l with
  | some loop => loop.running
  | none => false

def ownerOf (s : Scheduler) (t : TaskId) : LoopId :=
  match s.tasks.get? t with
  | some task => task.owner
  | none => 0

def kindOf (s : Scheduler) (t : TaskId) : TaskKind :=
  match s.tasks.get? t with
  | some task => task.kind
  | none => .oneShot

def numberOf (s : Scheduler) (t : TaskId) : Nat :=
  match s.tasks.get? t with
  | some task => task.number
  | none => 0

def policyOf (s : Scheduler) (t : TaskId) : FailurePolicy :=
  match s.loops.get? (s.ownerOf t) with
  | some loop => loop.policy
  | none => .continue

def counterOf (s : Scheduler) (t : TaskId) : CounterId :=
  match s.loops.get? (s.ownerOf t) with
  | some loop => loop.counter
  | none => 0

def loopShown (s : Scheduler) (l : LoopId) : String :=
  match s.loops.get? l with
  | none => ""
  | some loop => Text.recordText "EventLoop" [
      ("name", Text.quoted loop.name),
      ("running", Text.flagText loop.running),
      ("pending", toString loop.queue.size)]

end Scheduler

end ScriptWorker
