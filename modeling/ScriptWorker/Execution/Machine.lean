import ScriptWorker.Execution.Requests
import ScriptWorker.Execution.Service

/-!
# Threads together

One way to interleave the threads there are: those that call from outside move first, each as far as
it can, then each event loop's thread finishes its round; when every thread waits, the clock moves on
to the next point of time that a thread waits for. Time passes in no other way.
-/

namespace ScriptWorker

variable {L : Language} {α : Type}

structure Caller (L : Language) (α : Type) where
  thread : ThreadId
  program : Run L α

structure Machine (L : Language) (α : Type) where
  world : World L
  callers : List (Caller L α)
  /-- The round that each event loop's thread is in, unless the thread has ended. -/
  services : List (Option (Run L (Option Serve)))

namespace World

def nextTime (w : World L) : Option Instant :=
  let deadlines := w.scheduler.loops.rows.filterMap fun loop => loop.sleeping.join
  ((w.alarms ++ deadlines).filter fun time => w.scheduler.now < time).min?

def setClock (w : World L) (time : Instant) : World L :=
  { w with scheduler := { w.scheduler with now := time } }

end World

namespace Program

variable {ω κ : Type} {ρ : κ → Type}

def outcome? : Program ω κ ρ α → Option (Outcome α)
  | ended outcome => some outcome
  | _ => none

end Program

namespace Interpreter

/-- Up to `steps` steps of one thread; says whether it moved, given whether it had moved before. -/
def advance (interpreter : Interpreter L) (thread : ThreadId) :
    (steps : Nat) → (moved : Bool) → Run L α → World L → Bool × Run L α × World L
  | 0, moved, p, w => (moved, p, w)
  | _ + 1, moved, .ended outcome, w => (moved, .ended outcome, w)
  | steps + 1, _, .call callee next, w =>
    interpreter.advance thread steps true
      ((interpreter.run thread (interpreter.code callee)).thenOutcome next) w
  | steps + 1, moved, .step move next, w =>
    match move w with
    | none => (moved, .step move next, w)
    | some w' => interpreter.advance thread steps true (next w) w'

def advanceCallers (interpreter : Interpreter L) (steps : Nat) :
    List (Caller L α) → World L → Bool × List (Caller L α) × World L
  | [], w => (false, [], w)
  | c :: rest, w =>
    let (moved, p, w) := interpreter.advance c.thread steps false c.program w
    let (others, rest, w) := interpreter.advanceCallers steps rest w
    (moved || others, ⟨c.thread, p⟩ :: rest, w)

/-- The round that follows one that has ended; a thread that panicked ends. -/
def nextRound (l : LoopId) (p : Run L (Option Serve)) : Option (Run L (Option Serve)) :=
  match p with
  | .ended (.done none) => none
  | .ended (.done (some x)) => some (EventLoop.round l x)
  | .ended (.panic _) => none
  | p => some p

def advanceServices (interpreter : Interpreter L) (steps : Nat) :
    LoopId → List (Option (Run L (Option Serve))) → World L →
      Bool × List (Option (Run L (Option Serve))) × World L
  | _, [], w => (false, [], w)
  | l, none :: rest, w =>
    let (moved, rest, w) := interpreter.advanceServices steps (l + 1) rest w
    (moved, none :: rest, w)
  | l, some p :: rest, w =>
    let (moved, p, w) := interpreter.advance (.service l) steps false p w
    let (others, rest, w) := interpreter.advanceServices steps (l + 1) rest w
    (moved || others, nextRound l p :: rest, w)

def enlist (m : Machine L α) : Machine L α :=
  let fresh := (List.range m.world.scheduler.loops.size).drop m.services.length
  { m with services := m.services ++ fresh.map fun l => some (EventLoop.round l (.poll l)) }

/-- Every thread moves once as far as it may; says whether any moved. -/
def pass (interpreter : Interpreter L) (steps : Nat) (m : Machine L α) : Bool × Machine L α :=
  let (called, callers, w) := interpreter.advanceCallers steps m.callers m.world
  let m := enlist { m with world := w, callers := callers }
  let (served, services, w) := interpreter.advanceServices steps 0 m.services m.world
  (called || served, { m with world := w, services := services })

def tick (m : Machine L α) : Option (Machine L α) :=
  m.world.nextTime.map fun time => { m with world := m.world.setClock time }

def outcomes (m : Machine L α) : Option (List (Outcome α)) :=
  m.callers.mapM fun c => c.program.outcome?

/-- Run until every caller has ended, or nothing can ever move, in at most `passes` passes of at most
`steps` steps for each thread. -/
def runCallers (interpreter : Interpreter L) (steps : Nat) :
    (passes : Nat) → Machine L α → Machine L α
  | 0, m => m
  | passes + 1, m =>
    if (outcomes m).isSome then m
    else
      match interpreter.pass steps m with
      | (true, m) => interpreter.runCallers steps passes m
      | (false, m) =>
        match tick m with
        | some m => interpreter.runCallers steps passes m
        | none => m

def settle (interpreter : Interpreter L) (steps : Nat) : (passes : Nat) → Machine L α → Machine L α
  | 0, m => m
  | passes + 1, m =>
    match interpreter.pass steps m with
    | (true, m) => interpreter.settle steps passes m
    | (false, m) => m

/-- Run callers to their ends, and then let the event loops come to rest. Says how the callers ended,
if all did, and leaves the machine without them. -/
def complete (interpreter : Interpreter L) (steps passes : Nat) (m : Machine L α) :
    Option (List (Outcome α)) × Machine L α :=
  let m := interpreter.runCallers steps passes m
  (outcomes m, interpreter.settle steps passes { m with callers := [] })

end Interpreter

end ScriptWorker
