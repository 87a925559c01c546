import ScriptWorker.Schedule.Operation

/-!
# Loop slots

A worker starts its event loop when it first needs one, and a new one after the last was terminated.
The lock on the slot is held over the whole use of the loop, so a task never goes to a loop that the
worker has given up.
-/

namespace ScriptWorker

/-- What a worker wants its event loop for. -/
inductive SlotUse where
  | enqueue (kind : TaskKind) (delay : Duration) (job : JobId)
  | terminate
  | count
  deriving DecidableEq, Repr

inductive SlotReply where
  | queued (task : TaskId)
  | noInterval
  | number (n : Nat)
  deriving DecidableEq, Repr

inductive SlotStage where
  | acquire (worker : WorkerId) (use : SlotUse)
  | held (worker : WorkerId) (use : SlotUse)
  | enqueue (worker : WorkerId) (inner : Enqueue)
  | shutdown (worker : WorkerId) (inner : Shutdown)
  | release (worker : WorkerId) (reply : SlotReply)
  | releasePanic (worker : WorkerId) (text : String)
  deriving DecidableEq, Repr

namespace Scheduler

def setLocked (s : Scheduler) (w : WorkerId) (locked : Bool) : Scheduler :=
  { s with slots := s.slots.modify w fun slot => { slot with locked := locked } }

def setLoop (s : Scheduler) (w : WorkerId) (loop : Option LoopId) : Scheduler :=
  { s with slots := s.slots.modify w fun slot => { slot with loop := loop } }

/-- The loop in a slot, started if there is none, or the text of the panic of starting it. -/
def slotLoop (s : Scheduler) (w : WorkerId) (slot : LoopSlot) :
    Except String (LoopId × Scheduler) :=
  match slot.loop with
  | some loop => .ok (loop, s)
  | none =>
    match threadNameFault? slot.threadName with
    | some text => .error text
    | none =>
      let (loop, s) := s.addLoop slot.threadName slot.counter slot.policy
      .ok (loop, s.setLoop w (some loop))

end Scheduler

def TaskKind.lacksInterval : TaskKind → Bool
  | .periodic interval => interval = 0
  | .oneShot => false

def SlotStage.advance (s : Scheduler) : SlotStage → Progress SlotStage SlotReply
  | acquire w use =>
    match s.slots.get? w with
    | none => .finished s (.number 0)
    | some slot => if slot.locked then .blocked else .next (s.setLocked w true) (held w use)
  | held w use =>
    match s.slots.get? w with
    | none => .finished s (.number 0)
    | some slot =>
      match use with
      | .enqueue kind delay job =>
        match s.slotLoop w slot with
        | .error text => .next s (releasePanic w text)
        | .ok (loop, s) =>
          if kind.lacksInterval then .next s (release w .noInterval)
          else .next s (enqueue w (.create loop kind delay job))
      | .terminate =>
        match slot.loop with
        | none => .next s (release w (.number 0))
        | some loop => .next (s.setLoop w none) (shutdown w (.stop loop))
      | .count =>
        match slot.loop with
        | none => .next s (release w (.number 0))
        | some loop => .next s (release w (.number (s.pending loop)))
  | enqueue w inner =>
    match inner.advance s with
    | .blocked => .blocked
    | .next s inner => .next s (enqueue w inner)
    | .finished s task => .next s (release w (.queued task))
    | .panicked s text => .next s (releasePanic w text)
  | shutdown w inner =>
    match inner.advance s with
    | .blocked => .blocked
    | .next s inner => .next s (shutdown w inner)
    | .finished s n => .next s (release w (.number n))
    | .panicked s text => .next s (releasePanic w text)
  | release w reply => .finished (s.setLocked w false) reply
  | releasePanic w text => .panicked (s.setLocked w false) text

end ScriptWorker
