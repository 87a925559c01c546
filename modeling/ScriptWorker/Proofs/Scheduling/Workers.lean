import ScriptWorker.Proofs.Scheduling.Locality
import ScriptWorker.Schedule.Slot

/-!
# Workers side by side

Any number of workers, each with a counter and a place for an event loop, and any number of threads
midway in what they do for one of them. A handle may come into the hands of whoever wants to cancel
its task, whichever worker accepted that. As seen from one loop, all of this is threads on that loop.
-/

namespace ScriptWorker

open Relation

def Cancel.counter : Cancel → CounterId
  | swapPending _ c | swapRunning _ c | settle _ c | unqueue _ c | wake _ c | release c => c

def SlotStage.worker : SlotStage → WorkerId
  | acquire k _ | held k _ | enqueue k _ | shutdown k _ | release k _ | releasePanic k _ => k

def SlotStage.loopAfter (loop : Option LoopId) : SlotStage → Option LoopId
  | enqueue _ (.create l ..) => some l
  | shutdown _ (.stop l) => some l
  | _ => loop

namespace Scheduler

def holding (s : Scheduler) (k : WorkerId) : Option (CounterId × Option LoopId) :=
  (s.slots.get? k).map fun slot => (slot.counter, slot.loop)

/-- Each slot holds a loop that has the worker's counter. -/
def Slotted (s : Scheduler) : Prop :=
  ∀ k c l, s.holding k = some (c, some l) → s.counterIn l = some c

end Scheduler

namespace Scheduling

open Scheduler

/-- Something for a worker that a thread is midway in. -/
inductive Undertaking where
  /-- A use of the worker's event loop, which shows once it is known. -/
  | slot (loop : Option LoopId) (stage : SlotStage)
  | cancel (worker : WorkerId) (loop : LoopId) (task : TaskId) (stage : Cancel)

/-- What showed of a step. -/
structure Entry where
  loop : LoopId
  worker : Option WorkerId
  event : Event
  /-- The step was to give back a slot of a counter that stood at zero. -/
  void : Bool
  deriving DecidableEq

structure Workers where
  scheduler : Scheduler
  undertakings : List Undertaking
  services : LoopId → Service
  history : List Entry

namespace Undertaking

def worker : Undertaking → WorkerId
  | slot _ stage => stage.worker
  | cancel k .. => k

def operation? : Undertaking → Option (LoopId × Operation)
  | slot (some l) (.enqueue _ inner) => some (l, .enqueue inner)
  | slot (some l) (.shutdown _ inner) => some (l, .shutdown inner)
  | cancel _ l t stage => some (l, .cancel t stage)
  | _ => none

def on? (l : LoopId) (u : Undertaking) : Option Operation :=
  u.operation?.bind fun (l', op) => if l' = l then some op else none

def offer? (u : Undertaking) : Option TaskId := u.operation?.bind fun (_, op) => op.offer?

def advance (s : Scheduler) : Undertaking → Option (Scheduler × Option Undertaking)
  | slot loop stage =>
    afterStep (fun next => slot (next.loopAfter loop) next) (stage.advance s)
  | cancel k l t stage => afterStep (cancel k l t) (stage.advance s)

def entries (s : Scheduler) (u : Undertaking) : List Entry :=
  match u.operation? with
  | some (l, op) => (op.events s).map fun e => ⟨l, some u.worker, e, op.decrements.any (s.count · = 0)⟩
  | none => []

end Undertaking

def Service.entries (l : LoopId) (s : Scheduler) (service : Service) : List Entry :=
  (service.events s).map fun e => ⟨l, none, e, (service.decrements s).any (s.count · = 0)⟩

namespace Workers

def counter? (X : Workers) (k : WorkerId) : Option CounterId :=
  (X.scheduler.slots.get? k).map LoopSlot.counter

theorem counter?_eq (X : Workers) (k : WorkerId) :
    X.counter? k = (X.scheduler.holding k).map Prod.fst := by
  unfold counter? holding
  rw [Option.map_map]
  rfl

/-- What may happen next: a worker's event loop is used, a worker cancels a task, what was begun goes
on, the thread of a loop goes on, or time passes. -/
inductive Move where
  | use (worker : WorkerId) (use : SlotUse)
  | cancel (worker : WorkerId) (task : TaskId)
  | proceed (place : Nat)
  | serve (loop : LoopId) (result : Outcome (Answer Value))
  | pass (delay : Duration)

/-- What a move makes of the workers, if it can be made. Any worker cancels any task whose handle has
been given out, with its own counter. -/
def move? (X : Workers) : Move → Option Workers
  | .use k use =>
    if (X.counter? k).isSome then
      some { X with undertakings := .slot none (.acquire k use) :: X.undertakings }
    else none
  | .cancel k t =>
    (X.counter? k).bind fun c =>
      if (X.scheduler.tasks.get? t).isSome ∧ ∀ u ∈ X.undertakings, u.offer? ≠ some t then
        let begun := .cancel k (X.scheduler.ownerOf t) t (.swapPending t c)
        some { X with undertakings := begun :: X.undertakings }
      else none
  | .proceed place =>
    X.undertakings[place]?.bind fun u => (u.advance X.scheduler).map fun (s, next) =>
      { X with
        scheduler := s
        undertakings :=
          (X.undertakings.take place ++ (next.toList ++ X.undertakings.drop (place + 1)))
        history := X.history ++ u.entries X.scheduler }
  | .serve l result =>
    if (X.scheduler.loops.get? l).isSome then
      ((X.services l).advance l result X.scheduler).map fun (s, service) =>
        { X with
          scheduler := s
          services := (fun l' => if l' = l then service else X.services l')
          history := X.history ++ (X.services l).entries l X.scheduler }
    else none
  | .pass delay => some { X with scheduler := { X.scheduler with now := X.scheduler.now + delay } }

def moves? (X : Workers) : List Move → Option Workers
  | [] => some X
  | m :: rest => (X.move? m).bind fun Y => Y.moves? rest

def Step (X Y : Workers) : Prop := ∃ m, X.move? m = some Y

/-- Workers that have not been used, each with a counter of its own. -/
structure Opened (X : Workers) : Prop where
  slot : ∀ k slot, X.scheduler.slots.get? k = some slot → slot.loop = none ∧
    X.scheduler.counters.get? slot.counter = some AsyncCounter.create
  apart : ∀ j k c, X.counter? j = some c → X.counter? k = some c → j = k
  loops : ∀ l, X.scheduler.loops.get? l = none
  tasks : ∀ t, X.scheduler.tasks.get? t = none
  undertakings : X.undertakings = []
  services : ∀ l, X.services l = .serving (.poll l)
  history : X.history = []

def Reaches (X : Workers) : Prop := ∃ start, Opened start ∧ ReflTransGen Step start X

def Rests (X : Workers) : Prop :=
  X.undertakings = [] ∧ ∀ l, (X.scheduler.loops.get? l).isSome → (X.services l).isIdle

/-- What shows of the workers on one loop. -/
def view (X : Workers) (l : LoopId) (results : List (TaskId × Outcome (Answer Value)))
    (replies : List Reply) : State where
  scheduler := X.scheduler
  operations := X.undertakings.filterMap (Undertaking.on? l)
  service := X.services l
  history := X.history.filterMap fun e => if e.loop = l then some e.event else none
  replies := replies
  results := results
  joins := []

end Workers

/-! ## The next step of a thread -/

namespace Undertaking

variable {l : LoopId} {s s' : Scheduler} {u v : Undertaking} {op : Operation}
  {next : Option Undertaking}

def Located : Undertaking → Prop
  | slot none (.enqueue ..) => False
  | slot none (.shutdown ..) => False
  | _ => True

/-- What the next step is: one on a loop, one that does nothing but lock or unlock a slot, or one that
begins an operation on the loop of a slot. -/
inductive Advance (s : Scheduler) (u : Undertaking) (s' : Scheduler) (next : Option Undertaking) : Prop
  | work (l : LoopId) (op : Operation) (after : Option Operation) :
    u.operation? = some (l, op) → op.advance s = some (s', after) →
    next.bind operation? = after.map (l, ·) → Advance s u s' next
  | lock (k : WorkerId) (locked : Bool) : u.operation? = none → next.bind operation? = none →
    s' = s.setLocked k locked → Advance s u s' next
  | keep : u.operation? = none → next.bind operation? = none → s' = s → Advance s u s' next
  | submit (k : WorkerId) (slot : LoopSlot) (l : LoopId) (kind : TaskKind) (delay : Duration)
    (job : JobId) : u.worker = k → u.operation? = none → s.slots.get? k = some slot →
    slot.loop = some l → kind.lacksInterval = false →
    next.bind operation? = some (l, (Call.enqueue kind delay job).operation l) → s' = s →
    Advance s u s' next
  | terminate (k : WorkerId) (slot : LoopSlot) (l : LoopId) : u.operation? = none →
    s.slots.get? k = some slot → slot.loop = some l →
    next.bind operation? = some (l, Call.shutdown.operation l) → s' = s.setLoop k none →
    Advance s u s' next
  | start (k : WorkerId) (slot : LoopSlot) : u.worker = k → u.operation? = none →
    s.slots.get? k = some slot →
    (next.bind operation? = none ∨ ∃ kind delay job, kind.lacksInterval = false ∧
      next.bind operation? =
        some (s.loops.size, (Call.enqueue kind delay job).operation s.loops.size)) →
    s' = (s.addLoop slot.threadName slot.counter slot.policy).2.setLoop k (some s.loops.size) →
    Advance s u s' next

theorem advance_enqueue {k : WorkerId} {inner : Enqueue}
    (h : (slot (some l) (.enqueue k inner)).advance s = some (s', next)) :
    Advance s (slot (some l) (.enqueue k inner)) s' next := by
  have hop : (slot (some l) (.enqueue k inner)).operation? = some (l, .enqueue inner) := rfl
  simp only [advance, SlotStage.advance] at h
  cases hinner : inner.advance s with
  | blocked => simp [hinner, afterStep] at h
  | next s₁ stage =>
    rw [hinner] at h
    cases h
    refine .work l _ (some (.enqueue stage)) hop (by simp [Operation.advance, hinner, afterStep]) ?_
    -- only a new operation begins with the creation of a task
    cases inner with
    | create => cases hinner; rfl
    | accept l' t delay =>
      simp only [Enqueue.advance] at hinner
      split at hinner <;> cases hinner <;> rfl
    | refuse t | refuseRunning t =>
      simp only [Enqueue.advance] at hinner
      split at hinner <;> cases hinner <;> rfl
    | announce | refuseSettle => cases hinner
  | finished s₁ task =>
    rw [hinner] at h
    cases h
    exact .work l _ none hop (by simp [Operation.advance, hinner, afterStep]) rfl
  | panicked s₁ text =>
    rw [hinner] at h
    cases h
    exact .work l _ none hop (by simp [Operation.advance, hinner, afterStep]) rfl

theorem advance_shutdown {k : WorkerId} {inner : Shutdown}
    (h : (slot (some l) (.shutdown k inner)).advance s = some (s', next)) :
    Advance s (slot (some l) (.shutdown k inner)) s' next := by
  have hop : (slot (some l) (.shutdown k inner)).operation? = some (l, .shutdown inner) := rfl
  simp only [advance, SlotStage.advance] at h
  cases hinner : inner.advance s with
  | blocked => simp [hinner, afterStep] at h
  | next s₁ stage =>
    rw [hinner] at h
    cases h
    refine .work l _ (some (.shutdown stage)) hop (by simp [Operation.advance, hinner, afterStep]) ?_
    cases inner with
    | stop l' | wake l' rest => cases hinner; rfl
    | discard rest dropped =>
      cases rest with
      | nil => cases hinner
      | cons t rest =>
        simp only [Shutdown.advance] at hinner
        split at hinner <;> cases hinner <;> rfl
    | discardRunning t rest dropped =>
      simp only [Shutdown.advance] at hinner
      split at hinner <;> cases hinner <;> rfl
    | settle => cases hinner; rfl
  | finished s₁ n =>
    rw [hinner] at h
    cases h
    exact .work l _ none hop (by simp [Operation.advance, hinner, afterStep]) rfl
  | panicked s₁ text =>
    rw [hinner] at h
    cases h
    exact .work l _ none hop (by simp [Operation.advance, hinner, afterStep]) rfl

theorem advance_held {loop : Option LoopId} {k : WorkerId} {use : SlotUse}
    (h : (slot loop (.held k use)).advance s = some (s', next)) :
    Advance s (slot loop (.held k use)) s' next := by
  have hop : (slot loop (.held k use)).operation? = none := by cases loop <;> rfl
  have hrelease (reply : SlotReply) :
      (slot loop (.release k reply)).operation? = none := by cases loop <;> rfl
  have hpanic (text : String) :
      (slot loop (.releasePanic k text)).operation? = none := by cases loop <;> rfl
  simp only [advance, SlotStage.advance] at h
  cases hslot : s.slots.get? k with
  | none =>
    rw [hslot] at h
    cases h
    exact .keep hop rfl rfl
  | some slot =>
    rw [hslot] at h
    dsimp only at h
    cases use with
    | enqueue kind delay job =>
      dsimp only [slotLoop] at h
      cases hloop : slot.loop with
      | some l =>
        rw [hloop] at h
        dsimp only at h
        split at h <;> cases h
        · exact .keep hop (hrelease _) rfl
        · next hkind => exact .submit k slot l kind delay job rfl hop hslot hloop (by simpa using hkind) rfl rfl
      | none =>
        rw [hloop] at h
        cases hname : threadNameFault? slot.threadName with
        | some text =>
          rw [hname] at h
          cases h
          exact .keep hop (hpanic _) rfl
        | none =>
          rw [hname] at h
          dsimp only at h
          split at h <;> cases h
          · exact .start k slot rfl hop hslot (.inl (hrelease _)) rfl
          · next hkind =>
            exact .start k slot rfl hop hslot (.inr ⟨kind, delay, job, by simpa using hkind, rfl⟩) rfl
    | terminate =>
      dsimp only at h
      cases hloop : slot.loop with
      | none =>
        rw [hloop] at h
        cases h
        exact .keep hop (hrelease _) rfl
      | some l =>
        rw [hloop] at h
        cases h
        exact .terminate k slot l hop hslot hloop rfl rfl
    | count =>
      dsimp only at h
      cases hloop : slot.loop <;> rw [hloop] at h <;> cases h <;> exact .keep hop (hrelease _) rfl

theorem advance_cases (hu : u.Located) (h : u.advance s = some (s', next)) : Advance s u s' next := by
  cases u with
  | cancel k l t stage =>
    simp only [advance] at h
    cases hstage : stage.advance s <;> rw [hstage] at h <;> cases h
    · exact .work l _ (some _) rfl (by simp only [Operation.advance, hstage, afterStep]) rfl
    · exact .work l _ none rfl (by simp [Operation.advance, hstage, afterStep]) rfl
    · exact .work l _ none rfl (by simp [Operation.advance, hstage, afterStep]) rfl
  | slot loop stage =>
    cases stage with
    | acquire k use =>
      have hop : (slot loop (.acquire k use)).operation? = none := by cases loop <;> rfl
      simp only [advance, SlotStage.advance] at h
      cases hslot : s.slots.get? k with
      | none =>
        rw [hslot] at h
        cases h
        exact .keep hop rfl rfl
      | some slot =>
        rw [hslot] at h
        dsimp only at h
        split at h <;> cases h
        exact .lock k true hop (by cases loop <;> rfl) rfl
    | held k use => exact advance_held h
    | enqueue k inner =>
      cases loop with
      | none => exact hu.elim
      | some l => exact advance_enqueue h
    | shutdown k inner =>
      cases loop with
      | none => exact hu.elim
      | some l => exact advance_shutdown h
    | release k reply =>
      cases h
      exact .lock k false (by cases loop <;> rfl) rfl rfl
    | releasePanic k text =>
      cases h
      exact .lock k false (by cases loop <;> rfl) rfl rfl

theorem advance_worker (hu : u.Located) (h : u.advance s = some (s', some v)) :
    v.worker = u.worker ∧ v.Located := by
  cases u with
  | cancel k l t stage =>
    simp only [advance] at h
    cases hstage : stage.advance s <;> rw [hstage] at h <;> cases h
    exact ⟨rfl, trivial⟩
  | slot loop stage =>
    simp only [advance] at h
    cases stage with
    | acquire k use =>
      simp only [SlotStage.advance] at h
      (repeat' split at h) <;> cases h
      cases loop <;> exact ⟨rfl, trivial⟩
    | held k use =>
      simp only [SlotStage.advance] at h
      (repeat' split at h) <;> cases h <;> cases loop <;> exact ⟨rfl, trivial⟩
    | enqueue k inner =>
      cases loop with
      | none => exact hu.elim
      | some l =>
        simp only [SlotStage.advance] at h
        split at h <;> cases h
        · exact ⟨rfl, by simp only [SlotStage.loopAfter]; split <;> trivial⟩
        · exact ⟨rfl, trivial⟩
        · exact ⟨rfl, trivial⟩
    | shutdown k inner =>
      cases loop with
      | none => exact hu.elim
      | some l =>
        simp only [SlotStage.advance] at h
        split at h <;> cases h
        · exact ⟨rfl, by simp only [SlotStage.loopAfter]; split <;> trivial⟩
        · exact ⟨rfl, trivial⟩
        · exact ⟨rfl, trivial⟩
    | release | releasePanic => cases h

theorem on?_of_operation {l' : LoopId} (h : u.operation? = some (l', op)) :
    u.on? l = if l' = l then some op else none := by
  unfold on?
  rw [h]
  rfl

theorem on?_of_none (h : u.operation? = none) : u.on? l = none := by
  unfold on?
  rw [h]
  rfl

theorem operation?_of_on? (h : u.on? l = some op) : u.operation? = some (l, op) := by
  obtain ⟨⟨l', op'⟩, hop, hsome⟩ := Option.bind_eq_some_iff.1 h
  dsimp only at hsome
  split at hsome <;> cases hsome
  next hl =>
  rw [hop, hl]

end Undertaking

end Scheduling

end ScriptWorker
