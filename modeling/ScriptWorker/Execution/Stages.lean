import ScriptWorker.Schedule.Staged
import ScriptWorker.World

/-!
# Scheduler operations as programs

The stages of an operation, taken one at a time on the scheduler of the shared world, and waiting on
the clock.
-/

namespace ScriptWorker

variable {L : Language}

namespace World

def withScheduler (w : World L) (s : Scheduler) : World L := { w with scheduler := s }

def afterStage {σ ρ : Type} (w : World L) (p : Progress σ ρ) : Option (World L) :=
  match p with
  | .blocked => none
  | .next s _ => some (w.withScheduler s)
  | .finished s _ => some (w.withScheduler s)
  | .panicked s _ => some (w.withScheduler s)

end World

/-- All stages of an operation from one on, each an atomic step. -/
def perform {σ ρ : Type} [Staged σ ρ] (x : σ) : Run L ρ :=
  .step (fun w => w.afterStage (Staged.advance w.scheduler x)) fun w =>
    match _hnext : Staged.advance w.scheduler x with
    | .blocked => .panic none
    | .next _ y => perform y
    | .finished _ reply => .ended (.done reply)
    | .panicked _ text => .panic (some text)
termination_by Staged.rank x
decreasing_by exact Staged.rank_lt _ _ _ _ _hnext

namespace World

def setAlarm (w : World L) (time : Instant) : World L := { w with alarms := time :: w.alarms }

def clearAlarm (w : World L) (time : Instant) : World L :=
  { w with alarms := w.alarms.erase time }

end World

def waitAtMost {α : Type} (length : Duration) (test : World L → Option α) : Run L (Option α) := do
  let deadline ← Program.transact fun w =>
    let deadline := w.scheduler.now + length
    (deadline, w.setAlarm deadline)
  Program.await fun w =>
    match test w with
    | some a => some (some a, w.clearAlarm deadline)
    | none => if deadline ≤ w.scheduler.now then some (none, w.clearAlarm deadline) else none

def sleepFor (length : Duration) : Run L Unit := do
  let _ ← waitAtMost (α := Empty) length fun _ => none
  return ()

end ScriptWorker
