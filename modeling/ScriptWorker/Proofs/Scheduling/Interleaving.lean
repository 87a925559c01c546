import Mathlib.Logic.Relation
import ScriptWorker.Execution.Service

/-!
# Threads on an event loop

Any number of threads may be midway in operations on an event loop, each at a stage of its own, next
to the loop's thread. One of them takes its next atomic step at a time, in any order. What shows of
a step is kept: events in a history, what operations replied, what jobs came to, and what joins
returned.
-/

namespace ScriptWorker

open Relation

namespace Scheduler

def taskIn (s : Scheduler) (l : LoopId) (t : TaskId) : Option Task :=
  (s.tasks.get? t).filter fun task => task.owner = l

/-- What leaves a loop and its tasks alone, and a counter if that is the loop's own: time, and
whatever is done on other loops. -/
structure Elsewhere (l : LoopId) (own : Option CounterId) (s s' : Scheduler) : Prop where
  loop : s'.loops.get? l = s.loops.get? l
  tasks : ∀ t, s'.taskIn l t = s.taskIn l t
  counter : ∀ c ∈ own, s'.counters.get? c = s.counters.get? c

end Scheduler

def Start.task : Start → TaskId
  | swap task => task
  | count task => task

namespace Scheduling

inductive Operation where
  | enqueue (stage : Enqueue)
  /-- The task stays known when only its slot is left to release. -/
  | cancel (task : TaskId) (stage : Cancel)
  | shutdown (stage : Shutdown)

inductive Service where
  | serving (stage : Serve)
  | starting (stage : Start)
  | firing (task : TaskId)
  | concluding (stage : Conclude)
  | stopped

inductive Event where
  | accepted (task : TaskId)
  /-- A task was lost because its next deadline lies past the last point of time. -/
  | overflowed (task : TaskId)
  | started (task : TaskId)
  /-- A cancel that had cancelled the task came to its end. -/
  | cancelled (task : TaskId)
  | discarded (task : TaskId)
  | released (task : TaskId)
  deriving DecidableEq

/-- What an operation replies to its caller. -/
inductive Reply where
  | handle (task : TaskId)
  | cancelled (task : TaskId) (done : Bool)
  | dropped (count : Nat)
  deriving DecidableEq

structure State where
  scheduler : Scheduler
  operations : List Operation
  service : Service
  history : List Event
  replies : List Reply
  results : List (TaskId × Outcome (Answer Value))
  joins : List (TaskId × Answer Value)

/-- The shared state after a step, with what is left to do. A panic ends an operation too. -/
def afterStep {σ ρ τ : Type} (resume : σ → τ) : Progress σ ρ → Option (Scheduler × Option τ)
  | .next s stage => some (s, some (resume stage))
  | .finished s _ => some (s, none)
  | .panicked s _ => some (s, none)
  | .blocked => none

namespace Operation

def advance (s : Scheduler) : Operation → Option (Scheduler × Option Operation)
  | enqueue stage => afterStep enqueue (stage.advance s)
  | cancel task stage => afterStep (cancel task) (stage.advance s)
  | shutdown stage => afterStep shutdown (stage.advance s)

def reply? (s : Scheduler) : Operation → Option Reply
  | enqueue stage => (stage.advance s).reply?.map .handle
  | cancel task stage => (stage.advance s).reply?.map (.cancelled task)
  | shutdown stage => (stage.advance s).reply?.map .dropped

def events (s : Scheduler) : Operation → List Event
  | enqueue (.accept l t delay) =>
    match (s.accept l t delay).1 with
    | .queued => [.accepted t]
    | .overflow => [.overflowed t]
    | .stopped => []
  | cancel t (.release _) => [.released t, .cancelled t]
  | shutdown (.discard (t :: _) _) =>
    if (s.transition t .pending .cancelled).1 then [.discarded t] else []
  | shutdown (.discardRunning t _ _) =>
    if (s.transition t .running .cancelled).1 then [.discarded t] else []
  | _ => []

def decrements : Operation → Option CounterId
  | cancel _ (.release counter) => some counter
  | _ => none

def offer? : Operation → Option TaskId
  | enqueue (.accept _ t _) => some t
  | enqueue (.announce _ t) => some t
  | enqueue (.refuse t) => some t
  | enqueue (.refuseRunning t) => some t
  | enqueue (.refuseSettle t) => some t
  | _ => none

end Operation

namespace Service

/-- The next step of a loop's thread, where a job comes to `result`. A panic of a job is a failure of
its task; a panic of the thread itself ends it. -/
def advance (l : LoopId) (result : Outcome (Answer Value)) (s : Scheduler) :
    Service → Option (Scheduler × Service)
  | serving stage =>
    match stage.advance s with
    | .next s stage => some (s, serving stage)
    | .finished s (some t) => some (s, starting (.swap t))
    | .finished s none => some (s, stopped)
    | .panicked s _ => some (s, stopped)
    | .blocked => none
  | starting stage =>
    match stage.advance s with
    | .next s next => some (s, starting next)
    | .finished s (some _) => some (s, firing stage.task)
    | .finished s none => some (s, serving (.poll l))
    | .panicked s _ => some (s, stopped)
    | .blocked => none
  | firing t =>
    some (s, concluding (EventLoop.conclusion s t result))
  | concluding stage =>
    match stage.advance s with
    | .next s stage => some (s, concluding stage)
    | .finished s _ => some (s, serving (.poll l))
    | .panicked s _ => some (s, stopped)
    | .blocked => none
  | stopped => none

def events (s : Scheduler) : Service → List Event
  | starting (.swap t) => if (s.transition t .pending .running).1 then [.started t] else []
  | concluding (.release t _) => [.released t]
  | concluding (.haltRelease t _) => [.released t]
  | concluding (.rearm t interval) =>
    if (s.rearm t interval).1 = .overflow then [.overflowed t]
    else if s.isRunning (s.ownerOf t) then []
    else if (s.transition t .pending .cancelled).1 ∨ (s.transition t .running .cancelled).1 then
      [.discarded t]
    else []
  | _ => []

def results (result : Outcome (Answer Value)) : Service → List (TaskId × Outcome (Answer Value))
  | firing t => [(t, result)]
  | _ => []

def decrements (s : Scheduler) : Service → Option CounterId
  | concluding (.release t _) => some (s.counterOf t)
  | concluding (.haltRelease t _) => some (s.counterOf t)
  | _ => none

/-- Whether the thread is between operations: it waits for a task, a job runs, or it has ended. -/
def isIdle : Service → Bool
  | serving _ => true
  | firing _ => true
  | stopped => true
  | _ => false

end Service

inductive Call where
  | enqueue (kind : TaskKind) (delay : Duration) (job : JobId)
  | cancel (task : TaskId) (counter : CounterId)
  | shutdown

namespace Call

def operation (l : LoopId) : Call → Operation
  | enqueue kind delay job => .enqueue (.create l kind delay job)
  | cancel task counter => .cancel task (.swapPending task counter)
  | shutdown => .shutdown (.stop l)

/-- Whoever cancels has been given the handle of a task. If the loop has a counter of its own, slots
are released on that. -/
def Allowed (l : LoopId) (own : Option CounterId) (x : State) : Call → Prop
  | enqueue kind _ _ => kind.lacksInterval = false
  | cancel t counter => (x.scheduler.taskIn l t).isSome ∧
    (∀ op ∈ x.operations, op.offer? ≠ some t) ∧ ∀ c ∈ own, counter = c
  | shutdown => True

instance (l : LoopId) (own : Option CounterId) (x : State) : DecidablePred (Allowed l own x)
  | enqueue kind _ _ => inferInstanceAs (Decidable (kind.lacksInterval = false))
  | cancel _ counter => inferInstanceAs (Decidable (_ ∧ _ ∧ ∀ c ∈ own, counter = c))
  | shutdown => inferInstanceAs (Decidable True)

end Call

/-- What may happen next: a call begins, the operation at some place goes on, the loop's thread goes
on, or a join sees the outcome of a task. -/
inductive Move where
  | call (c : Call)
  | proceed (place : Nat)
  | serve (result : Outcome (Answer Value))
  | join (task : TaskId)

namespace State

def move? (l : LoopId) (own : Option CounterId) (x : State) : Move → Option State
  | .call c =>
    if c.Allowed l own x then some { x with operations := c.operation l :: x.operations } else none
  | .proceed place =>
    x.operations[place]?.bind fun op => (op.advance x.scheduler).map fun (s, next) =>
      { x with
        scheduler := s
        operations := x.operations.take place ++ (next.toList ++ x.operations.drop (place + 1))
        history := x.history ++ op.events x.scheduler
        replies := x.replies ++ (op.reply? x.scheduler).toList }
  | .serve result =>
    (x.service.advance l result x.scheduler).map fun (s, service) =>
      { x with
        scheduler := s
        service := service
        history := x.history ++ x.service.events x.scheduler
        results := x.results ++ x.service.results result }
  | .join t =>
    ((x.scheduler.taskIn l t).bind Task.outcome).map fun answer =>
      { x with joins := x.joins ++ [(t, answer)] }

def moves? (l : LoopId) (own : Option CounterId) (x : State) : List Move → Option State
  | [] => some x
  | m :: rest => (x.move? l own m).bind fun y => y.moves? l own rest

def Decrements (x : State) (counter : CounterId) : Prop :=
  (∃ op ∈ x.operations, op.decrements = some counter) ∨
    x.service.decrements x.scheduler = some counter

def Rests (x : State) : Prop := x.operations = [] ∧ x.service.isIdle

end State

/-- One atomic step of some thread on a loop, or of whoever has nothing to do with it. -/
inductive Step (l : LoopId) (own : Option CounterId) : State → State → Prop
  | move {x y : State} (m : Move) : x.move? l own m = some y → Step l own x y
  | elsewhere {x : State} {s : Scheduler} : x.scheduler.Elsewhere l own s →
    Step l own x { x with scheduler := s }

structure Started (l : LoopId) (own : Option CounterId) (x : State) : Prop where
  loop : ∃ loop, x.scheduler.loops.get? l = some loop ∧ loop.queue = DelayQueue.empty ∧
    loop.running = true ∧ ∀ c ∈ own, loop.counter = c
  counter : ∀ c ∈ own, x.scheduler.counters.get? c = some AsyncCounter.create
  tasks : ∀ t, x.scheduler.taskIn l t = none
  operations : x.operations = []
  service : x.service = .serving (.poll l)
  history : x.history = []
  replies : x.replies = []
  results : x.results = []
  joins : x.joins = []

/-- Whatever threads have done since a loop was started. -/
def Reaches (l : LoopId) (own : Option CounterId) (x : State) : Prop :=
  ∃ start, Started l own start ∧ ReflTransGen (Step l own) start x

theorem steps_of_moves? {l : LoopId} {own : Option CounterId} {x y : State} {moves : List Move}
    (h : x.moves? l own moves = some y) : ReflTransGen (Step l own) x y := by
  induction moves generalizing x with
  | nil =>
    cases h
    exact .refl
  | cons m rest ih =>
    obtain ⟨z, hmove, hrest⟩ := Option.bind_eq_some_iff.1 h
    exact (ih hrest).head (.move m hmove)

theorem Reaches.steps {l : LoopId} {own : Option CounterId} {x y : State} (h : Reaches l own x)
    (hxy : ReflTransGen (Step l own) x y) : Reaches l own y := by
  obtain ⟨start, hstart, hx⟩ := h
  exact ⟨start, hstart, hx.trans hxy⟩

def newLoop (policy : FailurePolicy) : State where
  scheduler := ((Scheduler.create 100).addCounter.2.addLoop "loop" 0 policy).2
  operations := []
  service := .serving (.poll 0)
  history := []
  replies := []
  results := []
  joins := []

theorem started_newLoop (policy : FailurePolicy) : Started 0 (some 0) (newLoop policy) where
  loop := ⟨_, rfl, rfl, rfl, fun _ hc => Option.some.inj hc⟩
  counter := fun _ hc => by cases hc; rfl
  tasks := fun _ => rfl
  operations := rfl
  service := rfl
  history := rfl
  replies := rfl
  results := rfl
  joins := rfl

theorem reaches_of_moves? {policy : FailurePolicy} {moves : List Move} {x : State}
    (h : (newLoop policy).moves? 0 (some 0) moves = some x) : Reaches 0 (some 0) x :=
  ⟨_, started_newLoop policy, steps_of_moves? h⟩

end Scheduling

end ScriptWorker
