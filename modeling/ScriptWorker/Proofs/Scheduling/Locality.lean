import ScriptWorker.Proofs.Scheduling.Steps

/-!
# Threads that keep to a loop

A scheduler may hold many loops. What a thread does on one of them leaves the others, with their
tasks, as they are; only counters are shared.
-/

namespace ScriptWorker

open Scheduling

namespace Scheduler

variable {s s' s'' : Scheduler} {l l' : LoopId} {t u : TaskId} {state : TaskState}

theorem elsewhere_of_same (hloops : s'.loops = s.loops) (htasks : s'.tasks = s.tasks) :
    s.Elsewhere l none s' where
  loop := congrArg (Table.get? · _) hloops
  tasks _ := by unfold taskIn; rw [htasks]
  counter := fun _ h => nomatch h

/-- All that has changed is one loop with its tasks, and counters. -/
structure Within (l : LoopId) (s s' : Scheduler) : Prop where
  elsewhere : ∀ l', l' ≠ l → s.Elsewhere l' none s'
  slots : s'.slots = s.slots

namespace Within

theorem refl (s : Scheduler) : s.Within l s := ⟨fun _ _ => elsewhere_of_same rfl rfl, rfl⟩

theorem trans (h : s.Within l s') (h' : s'.Within l s'') : s.Within l s'' where
  elsewhere l' hl' := {
    loop := (h'.elsewhere l' hl').loop.trans (h.elsewhere l' hl').loop
    tasks := fun t => ((h'.elsewhere l' hl').tasks t).trans ((h.elsewhere l' hl').tasks t)
    counter := fun _ hc => nomatch hc }
  slots := h'.slots.trans h.slots

end Within

theorem within_modifyLoop (f : EventLoop → EventLoop) : s.Within l (s.modifyLoop l f) := by
  refine ⟨fun l' hl' => ⟨?_, fun _ => rfl, fun _ h => nomatch h⟩, rfl⟩
  exact (Table.get?_modify _ _ _ _).trans (if_neg (Ne.symm hl'))

theorem within_increment (c : CounterId) : s.Within l (s.increment c) :=
  ⟨fun _ _ => elsewhere_of_same rfl rfl, rfl⟩

theorem within_decrement (c : CounterId) : s.Within l (s.decrement c) :=
  ⟨fun _ _ => elsewhere_of_same rfl rfl, rfl⟩

theorem within_modifyTask (h : (s.standing l t).state = some state) {f : Task → Task}
    (hf : ∀ task, (f task).owner = task.owner) : s.Within l (s.modifyTask t f) := by
  refine ⟨fun l' hl' => ⟨rfl, fun u => ?_, fun _ h => nomatch h⟩, rfl⟩
  rw [taskIn_modifyTask hf]
  split
  · next htu =>
    subst htu
    obtain ⟨task, -, hget, howner, -⟩ := get?_of_standing h
    have hnone : s.taskIn l' t = none := by
      unfold taskIn
      rw [hget]
      exact Option.filter_some_neg (by simpa [howner] using Ne.symm hl')
    rw [hnone]
    rfl
  · rfl

theorem within_setState (h : (s.standing l t).state = some state) (target : TaskState) :
    s.Within l (s.setState t target) := within_modifyTask h fun _ => rfl

theorem within_settleCancelled (h : (s.standing l t).state = some state) :
    s.Within l (s.settleCancelled t) := within_modifyTask h fun _ => rfl

theorem within_transition {source target : TaskState} {moved : Bool}
    (h : (s.standing l t).state = some state) (hmove : s.transition t source target = (moved, s')) :
    s.Within l s' := by
  rw [transition_eq h] at hmove
  split at hmove <;> cases hmove
  · exact within_setState h _
  · exact .refl s

theorem within_createTask (kind : TaskKind) (job : JobId) : s.Within l (s.createTask l kind job).2 := by
  refine ⟨fun l' hl' => ⟨(Table.get?_modify _ _ _ _).trans (if_neg (Ne.symm hl')), fun u => ?_,
    fun _ h => nomatch h⟩, rfl⟩
  unfold createTask taskIn
  simp only [Table.get?_push]
  split
  · next hu =>
    subst hu
    have hnew : s.tasks.get? s.tasks.size = none := List.getElem?_eq_none (Nat.le_refl _)
    rw [hnew, Option.filter_some_neg (by simp [Task.create, Ne.symm hl'])]
    rfl
  · rfl

theorem within_discardNow (h : (s.standing l t).state = some state) : s.Within l (s.discardNow t) := by
  rw [discardNow_eq h]
  split
  · have hset : ((s.setState t .cancelled).standing l t).state = some .cancelled := by
      rw [standing_setState h]
      rfl
    exact (within_setState h _).trans (within_settleCancelled hset)
  · exact .refl s

theorem within_rearm {rearming : Rearming} {interval : Duration} {loop : EventLoop}
    (hloop : s.loops.get? l = some loop) (h : (s.standing l t).state = some state)
    (hrearm : s.rearm t interval = (rearming, s')) : s.Within l s' := by
  rcases rearm_cases hloop h interval with ⟨heq, -⟩ | ⟨heq, -⟩ | ⟨heq, -⟩ | ⟨deadline, -, -, heq⟩ <;>
    cases heq.symm.trans hrearm
  · exact within_discardNow h
  · exact .refl s
  · exact within_setState h _
  · exact (within_setState h _).trans (within_modifyLoop _)

theorem within_accept {admission : Admission} {delay : Duration} {loop : EventLoop}
    (hloop : s.loops.get? l = some loop) (haccept : s.accept l t delay = (admission, s')) :
    s.Within l s' := by
  rcases accept_cases (t := t) hloop delay with ⟨heq, -⟩ | ⟨heq, -⟩ | ⟨_, -, heq⟩ <;>
    cases heq.symm.trans haccept
  · exact .refl _
  · exact within_increment _
  · exact (within_increment _).trans (within_modifyLoop _)

theorem within_unqueue {removed : Bool} {loop : EventLoop} (hloop : s.loops.get? l = some loop)
    (hunqueue : s.unqueue l t = (removed, s')) : s.Within l s' := by
  obtain ⟨_, heq⟩ := unqueue_cases (t := t) hloop
  cases heq.symm.trans hunqueue
  exact within_modifyLoop _

theorem within_poll {poll : Poll} {loop : EventLoop} (hloop : s.loops.get? l = some loop)
    (hpoll : s.poll l = (poll, s')) : s.Within l s' := by
  rcases poll_cases hloop with ⟨heq, -⟩ | ⟨_, _, -, -, heq⟩ | heq <;> cases heq.symm.trans hpoll
  · exact .refl _
  · exact within_modifyLoop _
  · exact within_modifyLoop _

end Scheduler

namespace Scheduling

open Scheduler

variable {l l' : LoopId} {own : Option CounterId} {x : State} {s : Scheduler}

def Operation.Wakes (l : LoopId) : Operation → Prop
  | enqueue (.announce l' _) => l' = l
  | shutdown (.wake l' _) => l' = l
  | _ => True

theorem Operation.Wakes.next {op next : Operation} (hx : x.Orderly l own) (hmem : op ∈ x.operations)
    (h : op.advance x.scheduler = some (s, some next)) : next.Wakes l := by
  have hon := hx.operations op hmem
  cases op with
  | enqueue stage =>
    cases stage with
    | accept l' u delay =>
      obtain rfl : l' = l := hon
      simp only [Operation.advance, Enqueue.advance] at h
      split at h <;> cases h
      · rfl
      · trivial
    | create | announce | refuseSettle => cases h <;> trivial
    | refuse u | refuseRunning u =>
      simp only [Operation.advance, Enqueue.advance] at h
      split at h <;> cases h <;> trivial
  | cancel u stage =>
    simp only [Operation.advance] at h
    unfold afterStep at h
    split at h <;> cases h
    trivial
  | shutdown stage =>
    cases stage with
    | stop l' => cases h; exact hon
    | discard rest dropped =>
      cases rest with
      | nil => cases h
      | cons u rest =>
        simp only [Operation.advance, Shutdown.advance] at h
        split at h <;> cases h <;> trivial
    | wake | settle => cases h; trivial
    | discardRunning u rest dropped =>
      simp only [Operation.advance, Shutdown.advance] at h
      split at h <;> cases h <;> trivial

theorem State.Orderly.known_of_swaps (hx : x.Orderly l own) {op : Operation} {t : TaskId}
    {source target : TaskState} (hmem : op ∈ x.operations) (hop : op.Swaps t source target) :
    ∃ state, (x.scheduler.standing l t).state = some state := by
  have hon := hx.operations op hmem
  cases hop with
  | refuse => exact ⟨_, state_of_refuse hx hmem⟩
  | refuseRunning => exact hon.elim
  | swapPending | swapRunning =>
    obtain ⟨rfl, ⟨hknown, -⟩, -⟩ := hon
    exact Option.ne_none_iff_exists'.1 hknown
  | discard =>
    exact (state_of_drained hx (u := t) hmem (by simp [Operation.stakes])).elim (⟨_, ·⟩) (⟨_, ·⟩)
  | discardRunning => exact ⟨_, state_of_passing hx hmem (by simp [Operation.stakes])⟩

theorem within_operation {op : Operation} {next : Option Operation} (hx : x.Orderly l own)
    (hmem : op ∈ x.operations) (hwakes : op.Wakes l) (h : op.advance x.scheduler = some (s, next)) :
    x.scheduler.Within l s := by
  obtain ⟨loop, hloop⟩ := hx.exists_loop
  have hon := hx.operations op hmem
  cases Operation.acts h with
  | @create l' kind delay job =>
    obtain rfl : l' = l := hon
    exact within_createTask kind job
  | @queue l' _ _ _ haccept | @turnDown l' _ _ _ haccept | @overflow l' _ _ _ haccept =>
    obtain rfl : l' = l := hon
    exact within_accept hloop haccept
  | swap hop hswap =>
    obtain ⟨state, hstate⟩ := hx.known_of_swaps hmem hop
    exact within_transition hstate hswap
  | settle hop =>
    refine within_settleCancelled (state_of_settling hx hmem ?_)
    cases hop with
    | enqueue | shutdown => simp [Operation.stakes]
    | cancel =>
      obtain ⟨rfl, -⟩ := hon
      simp [Operation.stakes]
  | @rouse _ l' _ hop =>
    obtain rfl : l' = l := by
      cases hop with
      | announce | shutdown => exact hwakes
      | wake =>
        obtain ⟨rfl, -⟩ := hon
        exact ownerOf_eq (state_of_claims hx hmem (by simp [Operation.stakes]))
    exact within_modifyLoop _
  | unqueue hunqueue | absent hunqueue =>
    obtain ⟨rfl, -⟩ := hon
    rw [ownerOf_eq (state_of_claims hx hmem (by simp [Operation.stakes]))] at hunqueue
    exact within_unqueue hloop hunqueue
  | release => exact within_decrement _
  | @stop l' _ _ hstop =>
    obtain rfl : l' = l := hon
    cases (stop_eq hloop).symm.trans hstop
    exact within_modifyLoop _
  | finish => exact .refl _

theorem within_service {service : Service} {result : Outcome (Answer Value)} (hx : x.Orderly l own)
    (h : x.service.advance l result x.scheduler = some (s, service)) : x.scheduler.Within l s := by
  obtain ⟨loop, hloop⟩ := hx.exists_loop
  have hon := hx.service
  -- the task that the thread has in hand belongs to the loop
  have hknown (u : TaskId) (hu : (x.service.hand u).count = 1) :
      ∃ state, (x.scheduler.standing l u).state = some state := (hx.sound u).known_of_hand hu
  have hacts := Service.acts h
  generalize x.service = before at hon hknown hacts
  cases hacts with
  | @take l' _ _ hpoll | @block l' _ hpoll | @stop l' _ hpoll =>
    obtain rfl : l' = l := hon
    exact within_poll hloop hpoll
  | @wake l' hawake =>
    obtain rfl : l' = l := hon
    exact within_modifyLoop _
  | @swap u _ _ _ _ _ _ _ hservice hswap hnext =>
    obtain ⟨state, hstate⟩ := hknown u (by cases hservice <;> simp [Service.hand])
    exact within_transition hstate hswap
  | @count u _ hnext =>
    obtain ⟨state, hstate⟩ := hknown u (by simp [Service.hand])
    exact within_modifyTask hstate fun _ => rfl
  | fire => exact .refl _
  | @settle u outcome =>
    obtain ⟨state, hstate⟩ := hknown u (by simp [Service.hand])
    exact within_modifyTask hstate fun _ => rfl
  | release hservice => exact within_decrement _
  | @rearm u _ _ _ hrearm hqueued =>
    obtain ⟨state, hstate⟩ := hknown u (by simp [Service.hand])
    exact within_rearm hloop hstate hrearm
  | @overflow u _ _ hrearm =>
    obtain ⟨state, hstate⟩ := hknown u (by simp [Service.hand])
    exact within_rearm hloop hstate hrearm

end Scheduling

end ScriptWorker
