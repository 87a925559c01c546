import ScriptWorker.Schedule.Scheduler

/-!
# Operations on event loops, step by step

Each operation is a small machine: its state says which atomic step comes next, and `advance` takes
that step on the shared state. Several threads may be inside operations at the same time, each at a
step of its own.
-/

namespace ScriptWorker

/-- What one step of an operation leads to. -/
inductive Progress (σ ρ : Type) where
  | blocked
  | next (shared : Scheduler) (state : σ)
  | finished (shared : Scheduler) (reply : ρ)
  | panicked (shared : Scheduler) (text : String)

def Progress.reply? {σ ρ : Type} : Progress σ ρ → Option ρ
  | finished _ reply => some reply
  | _ => none

def overflowText : String := "overflow when adding duration to instant"

/-- Hand a new task to a loop. The reply is the task, which is cancelled already if the loop had
stopped. -/
inductive Enqueue where
  | create (loop : LoopId) (kind : TaskKind) (delay : Duration) (job : JobId)
  | accept (loop : LoopId) (task : TaskId) (delay : Duration)
  | announce (loop : LoopId) (task : TaskId)
  | refuse (task : TaskId)
  | refuseRunning (task : TaskId)
  | refuseSettle (task : TaskId)
  deriving DecidableEq, Repr

def Enqueue.advance (s : Scheduler) : Enqueue → Progress Enqueue TaskId
  | create loop kind delay job =>
    let (task, s) := s.createTask loop kind job
    .next s (accept loop task delay)
  | accept loop task delay =>
    match s.accept loop task delay with
    | (.queued, s) => .next s (announce loop task)
    | (.stopped, s) => .next s (refuse task)
    | (.overflow, s) => .panicked s overflowText
  | announce loop task => .finished (s.notify loop) task
  | refuse task =>
    match s.transition task .pending .cancelled with
    | (true, s) => .next s (refuseSettle task)
    | (false, s) => .next s (refuseRunning task)
  | refuseRunning task =>
    match s.transition task .running .cancelled with
    | (true, s) => .next s (refuseSettle task)
    | (false, s) => .finished s task
  | refuseSettle task => .finished (s.settleCancelled task) task

/-- Cancel a task that has not started, or a periodic task at any time, and release its slot on a
counter. A firing that runs goes on to its end. The reply says whether this operation cancelled. -/
inductive Cancel where
  | swapPending (task : TaskId) (counter : CounterId)
  | swapRunning (task : TaskId) (counter : CounterId)
  | settle (task : TaskId) (counter : CounterId)
  | unqueue (task : TaskId) (counter : CounterId)
  | wake (task : TaskId) (counter : CounterId)
  | release (counter : CounterId)
  deriving DecidableEq, Repr

def Cancel.advance (s : Scheduler) : Cancel → Progress Cancel Bool
  | swapPending task counter =>
    match s.transition task .pending .cancelled with
    | (true, s) => .next s (settle task counter)
    | (false, s) =>
      if (s.kindOf task).isPeriodic then .next s (swapRunning task counter) else .finished s false
  | swapRunning task counter =>
    match s.transition task .running .cancelled with
    | (true, s) => .next s (settle task counter)
    | (false, s) => .finished s false
  | settle task counter => .next (s.settleCancelled task) (unqueue task counter)
  | unqueue task counter =>
    match s.unqueue (s.ownerOf task) task with
    | (true, s) => .next s (wake task counter)
    | (false, s) => .next s (release counter)
  | wake task counter => .next (s.notify (s.ownerOf task)) (release counter)
  | release counter => .finished (s.decrement counter) true

/-- Stop a loop and drop every queued task without running it. The reply is how many tasks were
dropped; their counter slots stay taken. -/
inductive Shutdown where
  | stop (loop : LoopId)
  | wake (loop : LoopId) (rest : List TaskId)
  | discard (rest : List TaskId) (dropped : Nat)
  | discardRunning (task : TaskId) (rest : List TaskId) (dropped : Nat)
  | settle (task : TaskId) (rest : List TaskId) (dropped : Nat)
  deriving DecidableEq, Repr

def Shutdown.advance (s : Scheduler) : Shutdown → Progress Shutdown Nat
  | stop loop =>
    let (drained, s) := s.stop loop
    .next s (wake loop drained)
  | wake loop rest => .next (s.notify loop) (discard rest 0)
  | discard [] dropped => .finished s dropped
  | discard (task :: rest) dropped =>
    match s.transition task .pending .cancelled with
    | (true, s) => .next s (settle task rest dropped)
    | (false, s) => .next s (discardRunning task rest dropped)
  | discardRunning task rest dropped =>
    match s.transition task .running .cancelled with
    | (true, s) => .next s (settle task rest dropped)
    | (false, s) => .next s (discard rest dropped)
  | settle task rest dropped => .next (s.settleCancelled task) (discard rest (dropped + 1))

/-- What the thread of a loop does until it has a task to fire; no task means that the loop has
stopped. -/
inductive Serve where
  | poll (loop : LoopId)
  | parked (loop : LoopId)
  deriving DecidableEq, Repr

def Serve.advance (s : Scheduler) : Serve → Progress Serve (Option TaskId)
  | poll loop =>
    match s.poll loop with
    | (.stopped, s) => .finished s none
    | (.ready task, s) => .finished s (some task)
    | (.blocked, s) => .next s (parked loop)
  | parked loop => if s.awake loop then .next (s.notify loop) (poll loop) else .blocked

/-- Start a firing. The reply is the number of the firing, unless the task was cancelled first. -/
inductive Start where
  | swap (task : TaskId)
  | count (task : TaskId)
  deriving DecidableEq, Repr

def Start.advance (s : Scheduler) : Start → Progress Start (Option Nat)
  | swap task =>
    match s.transition task .pending .running with
    | (true, s) => .next s (count task)
    | (false, s) => .finished s none
  | count task =>
    let s := s.countFiring task
    .finished s ((s.task? task).map Task.firings)

/-- End a firing with its outcome. A one-shot task gives its slot back before it is finished; a
halted periodic task gives it back before its outcome can be seen; any other periodic task is queued
again, unless it was cancelled or its loop has stopped. -/
inductive Conclude where
  | release (task : TaskId) (outcome : Answer Value)
  | complete (task : TaskId) (outcome : Answer Value)
  | settle (task : TaskId) (outcome : Answer Value)
  | halt (task : TaskId) (cause : Failure)
  | haltRelease (task : TaskId) (cause : Failure)
  | rearm (task : TaskId) (interval : Duration)

def Conclude.start (kind : TaskKind) (policy : FailurePolicy) (task : TaskId)
    (outcome : Answer Value) : Conclude :=
  match kind with
  | .oneShot => release task outcome
  | .periodic interval =>
    match outcome, policy with
    | .error cause, .halt => halt task cause
    | _, _ => rearm task interval

def Conclude.advance (s : Scheduler) : Conclude → Progress Conclude Unit
  | release task outcome => .next (s.decrement (s.counterOf task)) (complete task outcome)
  | complete task outcome =>
    match s.transition task .running .finished with
    | (true, s) => .next s (settle task outcome)
    | (false, s) => .finished s ()
  | settle task outcome => .finished (s.settle task outcome) ()
  | halt task cause =>
    match s.transition task .running .failed with
    | (true, s) => .next s (haltRelease task cause)
    | (false, s) => .finished s ()
  | haltRelease task cause => .next (s.decrement (s.counterOf task)) (settle task (.error cause))
  | rearm task interval =>
    match s.rearm task interval with
    | (.overflow, s) => .panicked s overflowText
    | (_, s) => .finished s ()

end ScriptWorker
