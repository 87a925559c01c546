import ScriptWorker.Proofs.Scheduling.Interleaving

/-!
# What a step does to the scheduler

The stages of an operation, and of the loop's thread, are many, but most of them do one of a few
things: they move a task from one state to another, write an outcome, wake a thread or give a slot
back. What all threads keep of a scheduler is proved for these few.
-/

namespace ScriptWorker

open Scheduler

namespace Scheduling

variable {s s' : Scheduler}

namespace Operation

inductive Swaps (t : TaskId) : TaskState → TaskState → Operation → Prop
  | refuse : Swaps t .pending .cancelled (enqueue (.refuse t))
  | refuseRunning : Swaps t .running .cancelled (enqueue (.refuseRunning t))
  | swapPending {u c} : Swaps t .pending .cancelled (cancel u (.swapPending t c))
  | swapRunning {u c} : Swaps t .running .cancelled (cancel u (.swapRunning t c))
  | discard {rest dropped} : Swaps t .pending .cancelled (shutdown (.discard (t :: rest) dropped))
  | discardRunning {rest dropped} :
    Swaps t .running .cancelled (shutdown (.discardRunning t rest dropped))

inductive Settles (t : TaskId) : Operation → Prop
  | enqueue : Settles t (enqueue (.refuseSettle t))
  | cancel {u c} : Settles t (cancel u (.settle t c))
  | shutdown {rest dropped} : Settles t (shutdown (.settle t rest dropped))

inductive Rouses (s : Scheduler) : LoopId → Operation → Prop
  | announce {l t} : Rouses s l (enqueue (.announce l t))
  | wake {u t c} : Rouses s (s.ownerOf t) (cancel u (.wake t c))
  | shutdown {l rest} : Rouses s l (shutdown (.wake l rest))

/-- What the next step of an operation does. -/
inductive Acts (s : Scheduler) : Operation → Scheduler → Option Operation → Prop
  | create {l kind delay job} :
    Acts s (enqueue (.create l kind delay job)) (s.createTask l kind job).2
      (some (enqueue (.accept l (s.createTask l kind job).1 delay)))
  | queue {l t delay s'} : s.accept l t delay = (.queued, s') →
    Acts s (enqueue (.accept l t delay)) s' (some (enqueue (.announce l t)))
  | turnDown {l t delay s'} : s.accept l t delay = (.stopped, s') →
    Acts s (enqueue (.accept l t delay)) s' (some (enqueue (.refuse t)))
  | overflow {l t delay s'} : s.accept l t delay = (.overflow, s') →
    Acts s (enqueue (.accept l t delay)) s' none
  | swap {op t source target moved s' next} : op.Swaps t source target →
    s.transition t source target = (moved, s') → Acts s op s' next
  | settle {op t next} : op.Settles t → Acts s op (s.settleCancelled t) next
  | rouse {op l next} : op.Rouses s l → Acts s op (s.notify l) next
  | unqueue {u t c s'} : s.unqueue (s.ownerOf t) t = (true, s') →
    Acts s (cancel u (.unqueue t c)) s' (some (cancel u (.wake t c)))
  | absent {u t c s'} : s.unqueue (s.ownerOf t) t = (false, s') →
    Acts s (cancel u (.unqueue t c)) s' (some (cancel u (.release c)))
  | release {u c} : Acts s (cancel u (.release c)) (s.decrement c) none
  | stop {l drained s'} : s.stop l = (drained, s') →
    Acts s (shutdown (.stop l)) s' (some (shutdown (.wake l drained)))
  | finish {dropped} : Acts s (shutdown (.discard [] dropped)) s none

theorem acts {op : Operation} {next : Option Operation} (h : op.advance s = some (s', next)) :
    op.Acts s s' next := by
  cases op with
  | enqueue stage =>
    cases stage with
    | create l kind delay job =>
      cases h
      exact .create
    | accept l t delay =>
      simp only [advance, Enqueue.advance] at h
      split at h <;> rename_i haccept <;> cases h
      · exact .queue haccept
      · exact .turnDown haccept
      · exact .overflow haccept
    | announce l t =>
      cases h
      exact .rouse .announce
    | refuse t =>
      simp only [advance, Enqueue.advance] at h
      split at h <;> cases h <;> exact .swap .refuse ‹_›
    | refuseRunning t =>
      simp only [advance, Enqueue.advance] at h
      split at h <;> cases h <;> exact .swap .refuseRunning ‹_›
    | refuseSettle t =>
      cases h
      exact .settle .enqueue
  | cancel u stage =>
    cases stage with
    | swapPending t c =>
      simp only [advance, Cancel.advance] at h
      (repeat' split at h) <;> cases h <;> exact .swap .swapPending ‹_›
    | swapRunning t c =>
      simp only [advance, Cancel.advance] at h
      split at h <;> cases h <;> exact .swap .swapRunning ‹_›
    | settle t c =>
      cases h
      exact .settle .cancel
    | unqueue t c =>
      simp only [advance, Cancel.advance] at h
      split at h <;> rename_i hunqueue <;> cases h
      · exact .unqueue hunqueue
      · exact .absent hunqueue
    | wake t c =>
      cases h
      exact .rouse .wake
    | release c =>
      cases h
      exact .release
  | shutdown stage =>
    cases stage with
    | stop l =>
      cases h
      exact .stop rfl
    | wake l rest =>
      cases h
      exact .rouse .shutdown
    | discard rest dropped =>
      cases rest with
      | nil =>
        cases h
        exact .finish
      | cons t rest =>
        simp only [advance, Shutdown.advance] at h
        split at h <;> cases h <;> exact .swap .discard ‹_›
    | discardRunning t rest dropped =>
      simp only [advance, Shutdown.advance] at h
      split at h <;> cases h <;> exact .swap .discardRunning ‹_›
    | settle t rest dropped =>
      cases h
      exact .settle .shutdown

theorem Swaps.events {op : Operation} {t : TaskId} {source target : TaskState}
    (h : op.Swaps t source target) (s : Scheduler) : op.events s = [] ∨ op.events s = [.discarded t] := by
  cases h with
  | discard | discardRunning =>
    simp only [Operation.events]
    split <;> simp
  | _ => exact .inl rfl

end Operation

namespace Service

inductive Swaps (t : TaskId) : TaskState → TaskState → Service → Service → Prop
  | start : Swaps t .pending .running (starting (.swap t)) (starting (.count t))
  | complete {outcome} :
    Swaps t .running .finished (concluding (.complete t outcome)) (concluding (.settle t outcome))
  | halt {cause} :
    Swaps t .running .failed (concluding (.halt t cause)) (concluding (.haltRelease t cause))

inductive Releases (t : TaskId) : Service → Service → Prop
  | release {outcome} :
    Releases t (concluding (.release t outcome)) (concluding (.complete t outcome))
  | haltRelease {cause} :
    Releases t (concluding (.haltRelease t cause)) (concluding (.settle t (.error cause)))

/-- What the next step of the loop's thread does. -/
inductive Acts (l : LoopId) (s : Scheduler) : Service → Scheduler → Service → Prop
  | take {l' t s'} : s.poll l' = (.ready t, s') →
    Acts l s (serving (.poll l')) s' (starting (.swap t))
  | block {l' s'} : s.poll l' = (.blocked, s') →
    Acts l s (serving (.poll l')) s' (serving (.parked l'))
  | stop {l' s'} : s.poll l' = (.stopped, s') → Acts l s (serving (.poll l')) s' stopped
  | wake {l'} : s.awake l' = true →
    Acts l s (serving (.parked l')) (s.notify l') (serving (.poll l'))
  | swap {t source target service after moved s' next} : service.Swaps t source target after →
    s.transition t source target = (moved, s') →
    (next = if moved then after else serving (.poll l)) → Acts l s service s' next
  | count {t next} : next = firing t ∨ next = serving (.poll l) →
    Acts l s (starting (.count t)) (s.countFiring t) next
  | fire {t stage} : Acts l s (firing t) s (concluding stage)
  | settle {t outcome} :
    Acts l s (concluding (.settle t outcome)) (s.settle t outcome) (serving (.poll l))
  | release {t service after} : service.Releases t after →
    Acts l s service (s.decrement (s.counterOf t)) after
  | rearm {t interval rearming s'} : s.rearm t interval = (rearming, s') → rearming ≠ .overflow →
    Acts l s (concluding (.rearm t interval)) s' (serving (.poll l))
  | overflow {t interval s'} : s.rearm t interval = (.overflow, s') →
    Acts l s (concluding (.rearm t interval)) s' stopped

theorem acts {l : LoopId} {result : Outcome (Answer Value)} {service next : Service}
    (h : service.advance l result s = some (s', next)) : service.Acts l s s' next := by
  cases service with
  | serving stage =>
    cases stage with
    | poll l' =>
      simp only [advance, Serve.advance] at h
      cases hpoll : s.poll l' with
      | mk poll s₁ =>
        rw [hpoll] at h
        cases poll with
        | stopped =>
          cases h
          exact .stop hpoll
        | ready t =>
          cases h
          exact .take hpoll
        | blocked =>
          cases h
          exact .block hpoll
    | parked l' =>
      simp only [advance, Serve.advance] at h
      by_cases hawake : s.awake l' = true
      · rw [if_pos hawake] at h
        cases h
        exact .wake hawake
      · rw [if_neg hawake] at h
        cases h
  | starting stage =>
    cases stage with
    | swap t =>
      simp only [advance, Start.advance] at h
      cases hswap : s.transition t .pending .running with
      | mk moved s₁ =>
        rw [hswap] at h
        cases moved <;> cases h <;> exact .swap .start hswap rfl
    | count t =>
      simp only [advance, Start.advance] at h
      cases hcount : ((s.countFiring t).task? t).map Task.firings <;> rw [hcount] at h <;> cases h
      · exact .count (.inr rfl)
      · exact .count (.inl rfl)
  | firing t =>
    cases h
    exact .fire
  | concluding stage =>
    cases stage with
    | release t outcome =>
      cases h
      exact .release .release
    | complete t outcome =>
      simp only [advance, Conclude.advance] at h
      cases hswap : s.transition t .running .finished with
      | mk moved s₁ =>
        rw [hswap] at h
        cases moved <;> cases h <;> exact .swap .complete hswap rfl
    | settle t outcome =>
      cases h
      exact .settle
    | halt t cause =>
      simp only [advance, Conclude.advance] at h
      cases hswap : s.transition t .running .failed with
      | mk moved s₁ =>
        rw [hswap] at h
        cases moved <;> cases h <;> exact .swap .halt hswap rfl
    | haltRelease t cause =>
      cases h
      exact .release .haltRelease
    | rearm t interval =>
      simp only [advance, Conclude.advance] at h
      cases hrearm : s.rearm t interval with
      | mk rearming s₁ =>
        rw [hrearm] at h
        cases rearming with
        | overflow =>
          cases h
          exact .overflow hrearm
        | queued | ended =>
          cases h
          exact .rearm hrearm (by simp)
  | stopped => cases h

end Service

end Scheduling

end ScriptWorker
