import ScriptWorker.Proofs.Scheduling.Waiting
import ScriptWorker.Proofs.Scheduling.Workers

/-!
# The loop in a slot

Whoever uses the event loop of a worker holds the lock on its slot, and a loop is put into the slot,
taken out of it and stopped only under that lock. So the loop that a slot holds runs, and of the loops
that a worker has started at most one does: the one in the slot, or one that was taken out and is about
to be stopped.
-/

namespace ScriptWorker

namespace Scheduler

variable {s s' s'' : Scheduler} {l : LoopId} {k : WorkerId} {t : TaskId}

/-! ## What leaves loops running -/

def loopOf (s : Scheduler) (k : WorkerId) : Option LoopId := (s.holding k).bind Prod.snd

theorem loopOf_of_holding {s s' : Scheduler} {k : WorkerId} (h : s'.holding k = s.holding k) :
    s'.loopOf k = s.loopOf k := congrArg (·.bind Prod.snd) h

structure SameLoops (s s' : Scheduler) : Prop where
  slots : s'.slots = s.slots
  size : s'.loops.size = s.loops.size
  running : ∀ l, s'.isRunning l = s.isRunning l
  counterIn : ∀ l, s'.counterIn l = s.counterIn l

namespace SameLoops

theorem refl (s : Scheduler) : s.SameLoops s := ⟨rfl, rfl, fun _ => rfl, fun _ => rfl⟩

theorem trans (h : s.SameLoops s') (h' : s'.SameLoops s'') : s.SameLoops s'' where
  slots := h'.slots.trans h.slots
  size := h'.size.trans h.size
  running l := (h'.running l).trans (h.running l)
  counterIn l := (h'.counterIn l).trans (h.counterIn l)

theorem loopOf (h : s.SameLoops s') (k : WorkerId) : s'.loopOf k = s.loopOf k := by
  unfold Scheduler.loopOf holding
  rw [h.slots]

end SameLoops

theorem sameLoops_of_same (hslots : s'.slots = s.slots) (hloops : s'.loops = s.loops) :
    s.SameLoops s' where
  slots := hslots
  size := by rw [hloops]
  running l := by unfold isRunning; rw [hloops]
  counterIn l := by unfold counterIn; rw [hloops]

theorem sameLoops_modify {f : EventLoop → EventLoop} (l : LoopId) (hslots : s'.slots = s.slots)
    (hloops : s'.loops = s.loops.modify l f) (hrunning : ∀ loop, (f loop).running = loop.running)
    (hcounter : ∀ loop, (f loop).counter = loop.counter) : s.SameLoops s' where
  slots := hslots
  size := by rw [hloops, Table.size_modify]
  running l' := by
    unfold isRunning
    rw [hloops, Table.get?_modify]
    by_cases hl : l = l'
    · rw [if_pos hl]
      cases s.loops.get? l' with
      | none => rfl
      | some loop => exact hrunning loop
    · rw [if_neg hl]
  counterIn l' := by
    unfold counterIn
    rw [hloops]
    exact counterIn_modify hcounter l' l

theorem sameLoops_withQueue (l : LoopId) (queue : DelayQueue TaskId) :
    s.SameLoops (s.withQueue l queue) := sameLoops_modify l rfl rfl (fun _ => rfl) (fun _ => rfl)

theorem sameLoops_notify (l : LoopId) : s.SameLoops (s.notify l) :=
  sameLoops_modify l rfl rfl (fun _ => rfl) (fun _ => rfl)

theorem sameLoops_createTask (l : LoopId) (kind : TaskKind) (job : JobId) :
    s.SameLoops (s.createTask l kind job).2 :=
  sameLoops_modify l rfl rfl (fun _ => rfl) (fun _ => rfl)

theorem sameLoops_transition {source target : TaskState} {moved : Bool}
    (h : s.transition t source target = (moved, s')) : s.SameLoops s' := by
  unfold transition at h
  split at h
  · cases h
    exact .refl s
  · cases h
    exact sameLoops_of_same rfl rfl

theorem sameLoops_unqueue {removed : Bool} (h : s.unqueue l t = (removed, s')) : s.SameLoops s' := by
  unfold unqueue at h
  split at h
  · cases h
    exact .refl s
  · cases h
    exact sameLoops_withQueue _ _

theorem sameLoops_poll {poll : Poll} (h : s.poll l = (poll, s')) : s.SameLoops s' := by
  unfold Scheduler.poll at h
  split at h
  · cases h
    exact .refl s
  · split at h
    · cases h
      exact .refl s
    · split at h
      · cases h
        exact sameLoops_withQueue _ _
      · cases h
        exact sameLoops_modify l rfl rfl (fun _ => rfl) (fun _ => rfl)

theorem sameLoops_accept {admission : Admission} {delay : Duration}
    (h : s.accept l t delay = (admission, s')) : s.SameLoops s' := by
  unfold accept at h
  split at h
  · cases h
    exact .refl s
  · next loop hloop =>
    have hcounted : s.SameLoops (s.increment loop.counter) := sameLoops_of_same rfl rfl
    split at h
    · dsimp only at h
      split at h
      · cases h
        exact hcounted
      · cases h
        exact hcounted.trans (sameLoops_withQueue _ _)
    · cases h
      exact .refl s

theorem sameLoops_discardNow (t : TaskId) : s.SameLoops (s.discardNow t) := by
  have hsettled (s : Scheduler) : s.SameLoops (s.settleCancelled t) := sameLoops_of_same rfl rfl
  unfold discardNow
  split
  · next hpending => exact (sameLoops_transition hpending).trans (hsettled _)
  · next hpending =>
    have hfirst := sameLoops_transition hpending
    split
    · next hrunning => exact (hfirst.trans (sameLoops_transition hrunning)).trans (hsettled _)
    · next hrunning => exact hfirst.trans (sameLoops_transition hrunning)

theorem sameLoops_rearm {rearming : Rearming} {interval : Duration}
    (h : s.rearm t interval = (rearming, s')) : s.SameLoops s' := by
  unfold rearm at h
  split at h
  · cases h
    exact .refl s
  · split at h
    · cases h
      exact .refl s
    · split at h
      · cases h
        exact sameLoops_discardNow t
      · split at h
        · next hmoved =>
          cases h
          exact sameLoops_transition hmoved
        · next hmoved =>
          split at h
          · cases h
            exact sameLoops_transition hmoved
          · cases h
            exact (sameLoops_transition hmoved).trans (sameLoops_withQueue _ _)

theorem isRunning_stop (l l' : LoopId) :
    (s.stop l).2.isRunning l' = if l = l' then false else s.isRunning l' := by
  by_cases hl : l = l'
  · subst hl
    rw [if_pos rfl]
    unfold stop isRunning
    cases hloop : s.loops.get? l with
    | none => simp [hloop]
    | some loop => simp [Table.get?_modify, hloop]
  · rw [if_neg hl]
    unfold stop isRunning
    cases hloop : s.loops.get? l with
    | none => rfl
    | some loop => simp [Table.get?_modify, hl]

theorem stop_keeps (l : LoopId) : (s.stop l).2.slots = s.slots ∧
    (s.stop l).2.loops.size = s.loops.size ∧ ∀ l', (s.stop l).2.counterIn l' = s.counterIn l' := by
  refine ⟨?_, ?_, (sameBooks_stop (show s.stop l = (_, _) from rfl)).counterIn⟩
  · unfold stop
    split <;> rfl
  · unfold stop
    split
    · rfl
    · exact Table.size_modify _ _ _

/-! ## Slots -/

theorem get?_setLocked (k j : WorkerId) (locked : Bool) : (s.setLocked k locked).slots.get? j =
    if k = j then (s.slots.get? j).map fun slot => { slot with locked := locked }
    else s.slots.get? j := Table.get?_modify _ _ _ _

theorem get?_setLoop (k j : WorkerId) (loop : Option LoopId) : (s.setLoop k loop).slots.get? j =
    if k = j then (s.slots.get? j).map fun slot => { slot with loop := loop }
    else s.slots.get? j := Table.get?_modify _ _ _ _

theorem holding_eq {slot : LoopSlot} (h : s.slots.get? k = some slot) :
    s.holding k = some (slot.counter, slot.loop) := by
  unfold holding
  rw [h]
  rfl

theorem loopOf_eq {slot : LoopSlot} (h : s.slots.get? k = some slot) : s.loopOf k = slot.loop := by
  unfold loopOf
  rw [holding_eq h]
  rfl

theorem holding_setLoop_of_slot {slot : LoopSlot} (h : s.slots.get? k = some slot)
    (loop : Option LoopId) (j : WorkerId) :
    (s.setLoop k loop).holding j = if k = j then some (slot.counter, loop) else s.holding j := by
  unfold holding
  rw [get?_setLoop]
  split
  · next hj =>
    subst hj
    rw [h]
    rfl
  · rfl

theorem loopOf_setLoop {slot : LoopSlot} (h : s.slots.get? k = some slot) (loop : Option LoopId)
    (j : WorkerId) : (s.setLoop k loop).loopOf j = if k = j then loop else s.loopOf j := by
  unfold loopOf
  rw [holding_setLoop_of_slot h]
  split <;> rfl

theorem isSome_get?_setLoop (k j : WorkerId) (loop : Option LoopId) :
    ((s.setLoop k loop).slots.get? j).isSome = (s.slots.get? j).isSome := by
  rw [get?_setLoop]
  split <;> simp

theorem locked_setLoop {j : WorkerId} {loop : Option LoopId} {old new : LoopSlot}
    (h : s.slots.get? j = some old) (h' : (s.setLoop k loop).slots.get? j = some new) :
    new.locked = old.locked := by
  rw [get?_setLoop, h] at h'
  split at h' <;> cases h' <;> rfl

theorem isRunning_addLoop (name : String) (c : CounterId) (policy : FailurePolicy) (l : LoopId) :
    (s.addLoop name c policy).2.isRunning l = (l = s.loops.size || s.isRunning l) := by
  unfold isRunning addLoop
  dsimp only
  rw [Table.get?_push]
  by_cases hl : l = s.loops.size <;> simp [hl]

end Scheduler

namespace Scheduling

open Scheduler

variable {s s' : Scheduler} {l : LoopId} {k : WorkerId}

theorem sameLoops_operation {op : Operation} {next : Option Operation}
    (hop : ∀ l, op ≠ .shutdown (.stop l)) (h : op.advance s = some (s', next)) : s.SameLoops s' := by
  cases Operation.acts h with
  | create => exact sameLoops_createTask _ _ _
  | queue haccept | turnDown haccept | overflow haccept => exact sameLoops_accept haccept
  | swap _ hswap => exact sameLoops_transition hswap
  | rouse => exact sameLoops_notify _
  | unqueue hunqueue | absent hunqueue => exact sameLoops_unqueue hunqueue
  | @stop l => exact (hop l rfl).elim
  | settle | release => exact sameLoops_of_same rfl rfl
  | finish => exact .refl s

theorem sameLoops_service {result : Outcome (Answer Value)} {service next : Service}
    (h : service.advance l result s = some (s', next)) : s.SameLoops s' := by
  cases Service.acts h with
  | take hpoll | block hpoll | stop hpoll => exact sameLoops_poll hpoll
  | wake => exact sameLoops_notify _
  | swap _ hswap => exact sameLoops_transition hswap
  | rearm hrearm | overflow hrearm => exact sameLoops_rearm hrearm
  | count | settle | release => exact sameLoops_of_same rfl rfl
  | fire => exact .refl s

/-! ## Who holds a slot -/

/-- An enqueue that does not find its loop stopped. -/
def OnRunning (l : LoopId) : Enqueue → Prop
  | .create l' .. => l' = l
  | .accept l' .. => l' = l
  | .announce l' _ => l' = l
  | _ => False

namespace Undertaking

variable {started : List (WorkerId × LoopId)} {u v : Undertaking} {next : Option Undertaking}

def holds (k : WorkerId) : Undertaking → Bool
  | slot _ (.acquire ..) => false
  | slot _ stage => stage.worker = k
  | cancel .. => false

/-- An enqueue is on the loop that the slot holds; a loop that is about to be stopped is one that the
worker has started, and its slot holds none. -/
def Fits (s : Scheduler) (started : List (WorkerId × LoopId)) : Undertaking → Prop
  | slot loop (.enqueue k inner) => ∃ l, loop = some l ∧ s.loopOf k = some l ∧ OnRunning l inner
  | slot loop (.shutdown k (.stop l)) => loop = some l ∧ s.loopOf k = none ∧ (k, l) ∈ started
  | _ => True

def stopping (k : WorkerId) (l : LoopId) : Undertaking := slot (some l) (.shutdown k (.stop l))

@[simp] theorem holds_stopping (j : WorkerId) : (stopping k l).holds j = decide (k = j) := rfl

def isStopping : Undertaking → Bool
  | slot _ (.shutdown _ (.stop _)) => true
  | _ => false

theorem ne_stopping (h : u.isStopping = false) (k : WorkerId) (l : LoopId) : u ≠ stopping k l := by
  rintro rfl
  cases h

theorem worker_of_holds (h : u.holds k) : u.worker = k := by
  cases u with
  | cancel => cases h
  | slot loop stage => cases stage <;> first | cases h | exact of_decide_eq_true h

theorem worker_of_advance (h : u.advance s = some (s', some v)) : v.worker = u.worker := by
  cases u with
  | cancel k l t stage =>
    simp only [advance] at h
    cases hstage : stage.advance s <;> rw [hstage] at h <;> cases h
    rfl
  | slot loop stage =>
    simp only [advance] at h
    cases stage <;> simp only [SlotStage.advance] at h <;> (repeat' split at h) <;> cases h <;> rfl

theorem Fits.mono {more : List (WorkerId × LoopId)} (hu : u.Fits s started)
    (hsame : ∀ k, u.holds k → s'.loopOf k = s.loopOf k) : u.Fits s' (started ++ more) := by
  cases u with
  | cancel => trivial
  | slot loop stage =>
    cases stage with
    | enqueue k inner =>
      obtain ⟨l, hl, hslot, hinner⟩ := hu
      exact ⟨l, hl, (hsame k (decide_eq_true rfl)).trans hslot, hinner⟩
    | shutdown k inner =>
      cases inner with
      | stop l =>
        obtain ⟨hl, hslot, hmem⟩ := hu
        exact ⟨hl, (hsame k (decide_eq_true rfl)).trans hslot, List.mem_append_left _ hmem⟩
      | _ => trivial
    | _ => trivial

/-- What the step of a thread does to slots and loops: nothing, or it locks or unlocks a slot, starts a
loop and puts it into one, takes a loop out of one, or stops a loop that was taken out. -/
inductive Effect (s : Scheduler) (started : List (WorkerId × LoopId)) (u : Undertaking) :
    Scheduler → Option Undertaking → Prop
  | keep {s' : Scheduler} {next : Option Undertaking} : s.SameLoops s' →
    (∀ k, next.any (holds k) = u.holds k) → (∀ k l, u ≠ stopping k l) →
    (∀ v ∈ next, v.Fits s started) → Effect s started u s' next
  | lock {k : WorkerId} {slot : LoopSlot} {v : Undertaking} : s.slots.get? k = some slot →
    slot.locked = false → (∀ j, u.holds j = false) → (∀ j, v.holds j = decide (k = j)) →
    (∀ k l, u ≠ stopping k l) → v.Fits s started →
    Effect s started u (s.setLocked k true) (some v)
  | unlock {k : WorkerId} : (∀ j, u.holds j = decide (k = j)) → (∀ k l, u ≠ stopping k l) →
    Effect s started u (s.setLocked k false) none
  | start {k : WorkerId} {slot : LoopSlot} {v : Undertaking} : s.slots.get? k = some slot →
    slot.loop = none → (∀ j, u.holds j = decide (k = j)) → (∀ j, v.holds j = decide (k = j)) →
    (∀ k l, u ≠ stopping k l) →
    (∀ s' started', s'.loopOf k = some s.loops.size → v.Fits s' started') →
    Effect s started u ((s.addLoop slot.threadName slot.counter slot.policy).2.setLoop k
      (some s.loops.size)) (some v)
  | takeOut {k : WorkerId} {slot : LoopSlot} {l : LoopId} : s.slots.get? k = some slot →
    slot.loop = some l → (∀ j, u.holds j = decide (k = j)) → (∀ k l, u ≠ stopping k l) →
    Effect s started u (s.setLoop k none) (some (stopping k l))
  | stop {k : WorkerId} {l : LoopId} {v : Undertaking} : u = stopping k l →
    (∀ j, v.holds j = decide (k = j)) → (∀ s' started', v.Fits s' started') →
    Effect s started u (s.stop l).2 (some v)

theorem effect_held {loop : Option LoopId} {use : SlotUse} {slot : LoopSlot}
    (hslot : s.slots.get? k = some slot)
    (h : (Undertaking.slot loop (.held k use)).advance s = some (s', next)) :
    Effect s started (.slot loop (.held k use)) s' next := by
  have hholds (j : WorkerId) : (Undertaking.slot loop (.held k use)).holds j = decide (k = j) := rfl
  have hnot : ∀ k' l, Undertaking.slot loop (.held k use) ≠ stopping k' l := ne_stopping rfl
  simp only [advance, SlotStage.advance, hslot] at h
  cases use with
  | enqueue kind delay job =>
    dsimp only [slotLoop] at h
    cases hloop : slot.loop with
    | some l =>
      rw [hloop] at h
      dsimp only at h
      split at h <;> cases h
      · exact .keep (.refl s) (fun _ => rfl) hnot fun v hv => by cases hv; trivial
      · refine .keep (.refl s) (fun _ => rfl) hnot fun v hv => ?_
        cases hv
        exact ⟨l, rfl, (loopOf_eq hslot).trans hloop, rfl⟩
    | none =>
      rw [hloop] at h
      cases hname : threadNameFault? slot.threadName with
      | some text =>
        rw [hname] at h
        cases h
        exact .keep (.refl s) (fun _ => rfl) hnot fun v hv => by cases hv; trivial
      | none =>
        rw [hname] at h
        dsimp only at h
        split at h <;> cases h
        · exact .start hslot hloop hholds (fun _ => rfl) hnot fun _ _ _ => trivial
        · exact .start hslot hloop hholds (fun _ => rfl) hnot fun _ _ hin => ⟨_, rfl, hin, rfl⟩
  | terminate =>
    dsimp only at h
    cases hloop : slot.loop with
    | none =>
      rw [hloop] at h
      cases h
      exact .keep (.refl s) (fun _ => rfl) hnot fun v hv => by cases hv; trivial
    | some l =>
      rw [hloop] at h
      cases h
      exact .takeOut hslot hloop hholds hnot
  | count =>
    dsimp only at h
    cases hloop : slot.loop <;> rw [hloop] at h <;> cases h <;>
      exact .keep (.refl s) (fun _ => rfl) hnot fun v hv => by cases hv; trivial

theorem effect_enqueue {loop : Option LoopId} {inner : Enqueue}
    (hfits : (Undertaking.slot loop (.enqueue k inner)).Fits s started)
    (hrunning : ∀ l, s.loopOf k = some l → s.isRunning l)
    (h : (Undertaking.slot loop (.enqueue k inner)).advance s = some (s', next)) :
    Effect s started (.slot loop (.enqueue k inner)) s' next := by
  obtain ⟨l, rfl, hslot, hinner⟩ := hfits
  have hnot : ∀ k' l', Undertaking.slot (some l) (.enqueue k inner) ≠ stopping k' l' := ne_stopping rfl
  simp only [advance, SlotStage.advance] at h
  cases inner with
  | create l' kind delay job =>
    obtain rfl : l' = l := hinner
    cases h
    refine .keep (sameLoops_createTask _ _ _) (fun _ => rfl) hnot fun v hv => ?_
    cases hv
    exact ⟨l', rfl, hslot, rfl⟩
  | accept l' t delay =>
    obtain rfl : l' = l := hinner
    have hruns := hrunning l' hslot
    cases haccept : s.accept l' t delay with
    | mk admission s₁ =>
      have hsame := sameLoops_accept haccept
      simp only [Enqueue.advance, haccept] at h
      cases admission with
      | queued =>
        cases h
        refine .keep hsame (fun _ => rfl) hnot fun v hv => ?_
        cases hv
        exact ⟨l', rfl, hslot, rfl⟩
      | stopped =>
        -- the loop in the slot runs
        unfold isRunning at hruns
        unfold accept at haccept
        cases hloop : s.loops.get? l' with
        | none => simp [hloop] at hruns
        | some loop =>
          rw [hloop] at hruns
          simp only [hloop, hruns, if_true] at haccept
          split at haccept <;> cases haccept
      | overflow =>
        cases h
        exact .keep hsame (fun _ => rfl) hnot fun v hv => by cases hv; trivial
  | announce l' t =>
    cases h
    exact .keep (sameLoops_notify l') (fun _ => rfl) hnot fun v hv => by cases hv; trivial
  | refuse | refuseRunning | refuseSettle => exact hinner.elim

theorem effect_shutdown {loop : Option LoopId} {inner : Shutdown}
    (hfits : (Undertaking.slot loop (.shutdown k inner)).Fits s started)
    (h : (Undertaking.slot loop (.shutdown k inner)).advance s = some (s', next)) :
    Effect s started (.slot loop (.shutdown k inner)) s' next := by
  simp only [advance, SlotStage.advance] at h
  cases inner with
  | stop l =>
    obtain ⟨rfl, -, -⟩ := hfits
    cases h
    exact .stop rfl (fun _ => rfl) fun _ _ => trivial
  | wake l rest =>
    cases h
    exact .keep (sameLoops_notify l) (fun _ => rfl) (ne_stopping rfl) fun v hv => by cases hv; trivial
  | discard rest dropped =>
    cases rest with
    | nil =>
      cases h
      exact .keep (.refl s) (fun _ => rfl) (ne_stopping rfl) fun v hv => by cases hv; trivial
    | cons t rest =>
      simp only [Shutdown.advance] at h
      split at h <;> rename_i hinner <;> split at hinner <;> cases hinner <;> cases h <;>
        exact .keep (sameLoops_transition ‹_›) (fun _ => rfl) (ne_stopping rfl) fun v hv => by
          cases hv; trivial
  | discardRunning t rest dropped =>
    simp only [Shutdown.advance] at h
    split at h <;> rename_i hinner <;> split at hinner <;> cases hinner <;> cases h <;>
      exact .keep (sameLoops_transition ‹_›) (fun _ => rfl) (ne_stopping rfl) fun v hv => by
        cases hv; trivial
  | settle t rest dropped =>
    cases h
    exact .keep (sameLoops_of_same rfl rfl) (fun _ => rfl) (ne_stopping rfl) fun v hv => by
      cases hv; trivial

theorem effect_of_advance (hslot : (s.slots.get? u.worker).isSome) (hfits : u.Fits s started)
    (hrunning : ∀ k l, s.loopOf k = some l → s.isRunning l)
    (h : u.advance s = some (s', next)) : Effect s started u s' next := by
  cases u with
  | cancel k l t stage =>
    have hadvance : (Operation.cancel t stage).advance s =
        some (s', next.bind fun v => v.operation?.map Prod.snd) := by
      simp only [advance] at h
      cases hstage : stage.advance s <;> rw [hstage] at h <;> cases h <;>
        simp [Operation.advance, hstage, afterStep, operation?]
    have hsame := sameLoops_operation (fun l => Operation.noConfusion) hadvance
    simp only [advance] at h
    cases hstage : stage.advance s <;> rw [hstage] at h <;> cases h <;>
      exact .keep hsame (fun _ => rfl) (ne_stopping rfl) fun v hv => by cases hv <;> trivial
  | slot loop stage =>
    obtain ⟨slot, hslot⟩ := Option.isSome_iff_exists.1 hslot
    cases stage with
    | acquire k use =>
      have hslot : s.slots.get? k = some slot := hslot
      simp only [advance, SlotStage.advance, hslot] at h
      cases hlocked : slot.locked with
      | true => simp [hlocked, afterStep] at h
      | false =>
        simp only [hlocked, Bool.false_eq_true, if_false] at h
        cases h
        exact .lock hslot hlocked (fun _ => rfl) (fun _ => rfl) (ne_stopping rfl) trivial
    | held k use => exact effect_held hslot h
    | enqueue k inner => exact effect_enqueue hfits (hrunning k) h
    | shutdown k inner => exact effect_shutdown hfits h
    | release k reply | releasePanic k text =>
      cases h
      exact .unlock (fun _ => rfl) (ne_stopping rfl)

end Undertaking

end Scheduling

end ScriptWorker
