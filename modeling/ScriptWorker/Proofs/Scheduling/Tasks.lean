import ScriptWorker.Proofs.Scheduling.Interleaving
import ScriptWorker.Proofs.Scheduling.Queues

/-!
# What atomic steps do to a task

The scheduler's part in the standing of a task: what is written of it, how often it is in the queue of
its loop, and whether that runs. Each atomic step is told as a change of one of these.
-/

namespace ScriptWorker

open List

/-- What the scheduler holds of a task of a loop. -/
structure Standing where
  state : Option TaskState
  periodic : Bool
  number : Nat
  outcome : Option (Answer Value)
  queued : Nat
  running : Bool

def Standing.of (task : Option Task) (queued : Nat) (running : Bool) : Standing where
  state := task.map Task.state
  periodic := task.any (·.kind.isPeriodic)
  number := task.elim 0 Task.number
  outcome := task.bind Task.outcome
  queued := queued
  running := running

namespace Standing

def inState (a : Standing) (state : TaskState) : Standing := { a with state := some state }

def withOutcome (a : Standing) (outcome : Answer Value) : Standing :=
  { a with outcome := some outcome }

def withQueued (a : Standing) (queued : Nat) : Standing := { a with queued := queued }

end Standing

namespace Scheduler

variable {s : Scheduler} {l : LoopId} {t u : TaskId} {state : TaskState}

def queued (s : Scheduler) (l : LoopId) (t : TaskId) : Nat :=
  match s.loops.get? l with
  | some loop => loop.queue.items.count t
  | none => 0

def standing (s : Scheduler) (l : LoopId) (t : TaskId) : Standing :=
  .of (s.taskIn l t) (s.queued l t) (s.isRunning l)

/-! ## Changes of one task -/

def modifyTask (s : Scheduler) (t : TaskId) (f : Task → Task) : Scheduler :=
  { s with tasks := s.tasks.modify t f }

theorem taskIn_modifyTask {f : Task → Task} (hf : ∀ task, (f task).owner = task.owner) :
    (s.modifyTask t f).taskIn l u = if t = u then (s.taskIn l u).map f else s.taskIn l u := by
  unfold taskIn modifyTask
  simp only [Table.get?_modify]
  split
  · cases s.tasks.get? u with
    | none => rfl
    | some task =>
      rw [Option.map_some]
      by_cases howner : task.owner = l
      · rw [Option.filter_some_pos (by simp [hf, howner]), Option.filter_some_pos (by simp [howner])]
        rfl
      · rw [Option.filter_some_neg (by simp [hf, howner]), Option.filter_some_neg (by simp [howner])]
        rfl
  · rfl

theorem standing_modifyTask {f : Task → Task} (hf : ∀ task, (f task).owner = task.owner) :
    (s.modifyTask t f).standing l u =
      .of (if t = u then (s.taskIn l u).map f else s.taskIn l u) (s.queued l u) (s.isRunning l) := by
  unfold standing
  rw [taskIn_modifyTask hf]
  rfl

theorem get?_of_taskIn {task : Task} (h : s.taskIn l t = some task) :
    s.tasks.get? t = some task ∧ task.owner = l := by
  unfold taskIn at h
  obtain ⟨hget, howner⟩ := Option.filter_eq_some_iff.1 h
  exact ⟨hget, by simpa using howner⟩

theorem taskIn_of_standing (h : (s.standing l t).state = some state) :
    ∃ task, s.taskIn l t = some task ∧ task.state = state := Option.map_eq_some_iff.1 h

theorem get?_of_standing (h : (s.standing l t).state = some state) :
    ∃ task, s.taskIn l t = some task ∧ s.tasks.get? t = some task ∧ task.owner = l ∧
      task.state = state := by
  obtain ⟨task, htask, hstate⟩ := taskIn_of_standing h
  obtain ⟨hget, howner⟩ := get?_of_taskIn htask
  exact ⟨task, htask, hget, howner, hstate⟩

theorem ownerOf_eq (h : (s.standing l t).state = some state) : s.ownerOf t = l := by
  obtain ⟨task, -, hget, howner, -⟩ := get?_of_standing h
  unfold ownerOf
  rw [hget]
  exact howner

theorem isPeriodic_kindOf (h : (s.standing l t).state = some state) :
    (s.kindOf t).isPeriodic = (s.standing l t).periodic := by
  obtain ⟨task, htask, hget, -⟩ := get?_of_standing h
  unfold kindOf standing
  rw [hget, htask]
  rfl

theorem numberOf_eq (h : (s.standing l t).state = some state) :
    s.numberOf t = (s.standing l t).number := by
  obtain ⟨task, htask, hget, -⟩ := get?_of_standing h
  unfold numberOf standing
  rw [hget, htask]
  rfl

theorem isSome_task? (h : (s.standing l t).state = some state) : (s.task? t).isSome := by
  obtain ⟨task, -, hget, -⟩ := get?_of_standing h
  unfold task?
  rw [hget]
  rfl

/-! ### The state -/

def setState (s : Scheduler) (t : TaskId) (state : TaskState) : Scheduler :=
  s.modifyTask t fun task => { task with state := state }

theorem standing_setState (h : (s.standing l t).state = some state) (target : TaskState) :
    (s.setState t target).standing l t = (s.standing l t).inState target := by
  obtain ⟨task, htask, -⟩ := taskIn_of_standing h
  unfold setState
  rw [standing_modifyTask (by intro; rfl), if_pos rfl]
  unfold standing
  rw [htask]
  rfl

theorem standing_setState_of_ne (h : t ≠ u) (target : TaskState) :
    (s.setState t target).standing l u = s.standing l u := by
  unfold setState
  rw [standing_modifyTask (by intro; rfl), if_neg h]
  rfl

theorem transition_eq (h : (s.standing l t).state = some state) (source target : TaskState) :
    s.transition t source target =
      if state = source then (true, s.setState t target) else (false, s) := by
  obtain ⟨task, -, hget, -, hstate⟩ := get?_of_standing h
  subst hstate
  unfold transition Task.transition setState modifyTask
  rw [hget]
  by_cases hsource : task.state = source
  · simp only [hsource, if_true]
    rw [Table.modify_congr (g := fun task => { task with state := target }) fun a ha => ?_]
    rw [hget] at ha
    cases ha
    rfl
  · simp only [hsource, if_false]
    rw [Table.modify_congr (g := fun task => task) fun a ha => ?_, Table.modify_id]
    rw [hget] at ha
    cases ha
    rfl

/-! ### The outcome -/

theorem standing_settle (h : (s.standing l t).state = some state) (outcome : Answer Value) :
    (s.settle t outcome).standing l t = (s.standing l t).withOutcome outcome := by
  obtain ⟨task, htask, -⟩ := taskIn_of_standing h
  change (s.modifyTask t fun task => task.settle outcome).standing l t = _
  rw [standing_modifyTask (by intro; rfl), if_pos rfl]
  unfold standing
  rw [htask]
  rfl

theorem standing_settle_of_ne (h : t ≠ u) (outcome : Answer Value) :
    (s.settle t outcome).standing l u = s.standing l u := by
  change (s.modifyTask t fun task => task.settle outcome).standing l u = _
  rw [standing_modifyTask (by intro; rfl), if_neg h]
  rfl

theorem standing_settleCancelled (h : (s.standing l t).state = some state) :
    (s.settleCancelled t).standing l t =
      (s.standing l t).withOutcome (.error (.cancelled (s.standing l t).number)) := by
  obtain ⟨task, htask, -⟩ := taskIn_of_standing h
  change (s.modifyTask t fun task => task.settle (.error (.cancelled task.number))).standing l t = _
  rw [standing_modifyTask (by intro; rfl), if_pos rfl]
  unfold standing
  rw [htask]
  rfl

theorem standing_settleCancelled_of_ne (h : t ≠ u) :
    (s.settleCancelled t).standing l u = s.standing l u := by
  change (s.modifyTask t fun task => task.settle (.error (.cancelled task.number))).standing l u = _
  rw [standing_modifyTask (by intro; rfl), if_neg h]
  rfl

@[simp] theorem standing_countFiring : (s.countFiring t).standing l u = s.standing l u := by
  change (s.modifyTask t fun task => { task with firings := task.firings + 1 }).standing l u = _
  rw [standing_modifyTask (by intro; rfl)]
  unfold standing
  split
  · cases s.taskIn l u <;> rfl
  · rfl

theorem discardNow_eq (h : (s.standing l t).state = some state) :
    s.discardNow t =
      if state = .pending ∨ state = .running then (s.setState t .cancelled).settleCancelled t
      else s := by
  unfold discardNow
  rw [transition_eq h]
  by_cases hpending : state = .pending
  · simp [hpending]
  · rw [if_neg hpending]
    dsimp only
    rw [transition_eq h]
    by_cases hrunning : state = .running
    · simp [hrunning]
    · simp [hpending, hrunning]

/-! ## Changes of a loop -/

def modifyLoop (s : Scheduler) (l : LoopId) (f : EventLoop → EventLoop) : Scheduler :=
  { s with loops := s.loops.modify l f }

theorem standing_modifyLoop {loop : EventLoop} {f : EventLoop → EventLoop}
    (h : s.loops.get? l = some loop) :
    (s.modifyLoop l f).standing l u =
      { s.standing l u with queued := (f loop).queue.items.count u, running := (f loop).running } := by
  unfold standing queued isRunning modifyLoop
  simp only [Table.get?_modify, if_true, h, Option.map_some]
  rfl

theorem standing_queued {loop : EventLoop} (h : s.loops.get? l = some loop) :
    (s.standing l u).queued = loop.queue.items.count u := by
  unfold standing queued
  rw [h]
  rfl

theorem standing_running {loop : EventLoop} (h : s.loops.get? l = some loop) :
    (s.standing l u).running = loop.running := by
  unfold standing isRunning
  rw [h]
  rfl

@[simp] theorem standing_notify (l' : LoopId) : (s.notify l').standing l u = s.standing l u := by
  unfold standing queued isRunning notify
  simp only [Table.get?_modify]
  by_cases hl : l' = l
  · rw [if_pos hl]
    cases s.loops.get? l <;> rfl
  · rw [if_neg hl]
    rfl

@[simp] theorem standing_increment (c : CounterId) :
    (s.increment c).standing l u = s.standing l u := rfl

@[simp] theorem standing_decrement (c : CounterId) :
    (s.decrement c).standing l u = s.standing l u := rfl

theorem standing_size (l : LoopId) : (s.standing l s.tasks.size).state = none := by
  have hrow : s.tasks.get? s.tasks.size = none := List.getElem?_eq_none (Nat.le_refl _)
  unfold standing taskIn
  rw [hrow]
  rfl

theorem lt_size (h : (s.standing l t).state = some state) : t < s.tasks.size := by
  obtain ⟨task, -, hget, -⟩ := get?_of_standing h
  exact (List.getElem?_eq_some_iff.1 hget).1

theorem taskIn_createTask {kind : TaskKind} {job : JobId} :
    (s.createTask l kind job).2.taskIn l u =
      if u = s.tasks.size then some (Task.create (match s.loops.get? l with
        | some loop => loop.nextNumber
        | none => 0) kind l job)
      else s.taskIn l u := by
  unfold createTask taskIn
  simp only [Table.get?_push]
  split
  · exact Option.filter_some_pos (by simp [Task.create])
  · rfl

theorem queued_createTask {kind : TaskKind} {job : JobId} :
    (s.createTask l kind job).2.queued l u = s.queued l u := by
  unfold queued createTask
  simp only [Table.get?_modify, if_true]
  cases s.loops.get? l <;> rfl

theorem isRunning_createTask {kind : TaskKind} {job : JobId} :
    (s.createTask l kind job).2.isRunning l = s.isRunning l := by
  unfold isRunning createTask
  simp only [Table.get?_modify, if_true]
  cases s.loops.get? l <;> rfl

theorem standing_createTask (kind : TaskKind) (job : JobId) :
    ∃ number, (s.createTask l kind job).2.standing l s.tasks.size =
      { s.standing l s.tasks.size with
        state := some .pending, periodic := kind.isPeriodic, number := number, outcome := none } := by
  unfold standing
  rw [taskIn_createTask, if_pos rfl, queued_createTask, isRunning_createTask]
  exact ⟨_, rfl⟩

theorem standing_createTask_of_ne {kind : TaskKind} {job : JobId} (h : u ≠ s.tasks.size) :
    (s.createTask l kind job).2.standing l u = s.standing l u := by
  unfold standing
  rw [taskIn_createTask, if_neg h, queued_createTask, isRunning_createTask]

/-! ## What a step on a loop comes to -/

section

variable {loop : EventLoop}

/-- A loop refuses a task, or takes a slot and queues it. -/
theorem accept_cases (h : s.loops.get? l = some loop) (delay : Duration) :
    s.accept l t delay = (.stopped, s) ∧ loop.running = false ∨
      s.accept l t delay = (.overflow, s.increment loop.counter) ∧ loop.running = true ∨
      ∃ deadline, loop.running = true ∧
        s.accept l t delay = (.queued, (s.increment loop.counter).modifyLoop l fun loop' =>
          { loop' with queue := loop.queue.push deadline t }) := by
  unfold accept
  rw [h]
  cases hrunning : loop.running with
  | false => exact .inl ⟨by simp [hrunning], rfl⟩
  | true =>
    have hlater : (s.increment loop.counter).later? delay = s.later? delay := rfl
    cases hdeadline : s.later? delay with
    | none => exact .inr (.inl ⟨by simp [hrunning, hlater, hdeadline], rfl⟩)
    | some deadline =>
      exact .inr (.inr ⟨deadline, rfl, by
        simp [hrunning, hlater, hdeadline, withQueue, modifyLoop]⟩)

theorem unqueue_cases (h : s.loops.get? l = some loop) :
    ∃ removed, s.unqueue l t = (removed, s.modifyLoop l fun loop' =>
      { loop' with queue := (loop.queue.retain fun other => other != t).2 }) := by
  unfold unqueue
  rw [h]
  exact ⟨_, rfl⟩

theorem stop_eq (h : s.loops.get? l = some loop) :
    s.stop l = (loop.queue.drain.1, s.modifyLoop l fun loop' =>
      { loop' with running := false, queue := loop.queue.drain.2 }) := by
  unfold stop
  rw [h]
  rfl

theorem poll_cases (h : s.loops.get? l = some loop) :
    s.poll l = (.stopped, s) ∧ loop.running = false ∨
      (∃ task queue, loop.running = true ∧ loop.queue.popReady s.now = some (task, queue) ∧
        s.poll l = (.ready task, s.modifyLoop l fun loop' => { loop' with queue := queue })) ∨
      s.poll l = (.blocked, s.modifyLoop l fun loop' =>
        { loop' with sleeping := some loop'.queue.nextDeadline }) := by
  unfold poll
  rw [h]
  cases hrunning : loop.running with
  | false => exact .inl ⟨by simp [hrunning], rfl⟩
  | true =>
    cases hpop : loop.queue.popReady s.now with
    | none => exact .inr (.inr (by simp [hrunning, hpop, modifyLoop]))
    | some popped =>
      obtain ⟨task, queue⟩ := popped
      exact .inr (.inl ⟨task, queue, rfl, rfl, by simp [hrunning, hpop, withQueue, modifyLoop]⟩)

/-- The thread of a loop drops a task of a stopped loop, leaves one that is not running any more, or
queues the next firing, if that has a deadline. -/
theorem rearm_cases (hloop : s.loops.get? l = some loop) (h : (s.standing l t).state = some state)
    (interval : Duration) :
    s.rearm t interval = (.ended, s.discardNow t) ∧ loop.running = false ∨
      s.rearm t interval = (.ended, s) ∧ loop.running = true ∧ state ≠ .running ∨
      s.rearm t interval = (.overflow, s.setState t .pending) ∧ loop.running = true ∧
        state = .running ∨
      ∃ deadline, loop.running = true ∧ state = .running ∧
        s.rearm t interval = (.queued, (s.setState t .pending).modifyLoop l fun loop' =>
          { loop' with queue := loop.queue.push deadline t }) := by
  obtain ⟨task, -, hget, howner, -⟩ := get?_of_standing h
  unfold rearm
  rw [hget]
  dsimp only
  rw [howner, hloop]
  cases hrunning : loop.running with
  | false => exact .inl ⟨by simp [hrunning], rfl⟩
  | true =>
    refine .inr ?_
    dsimp only
    rw [hrunning, transition_eq h]
    by_cases hstate : state = .running
    · have hlater : (s.setState t .pending).later? interval = s.later? interval := rfl
      cases hdeadline : s.later? interval with
      | none => exact .inr (.inl ⟨by simp [hstate, hlater, hdeadline], rfl, hstate⟩)
      | some deadline =>
        exact .inr (.inr ⟨deadline, rfl, hstate, by
          simp [hstate, hlater, hdeadline, withQueue, modifyLoop]⟩)
    · exact .inl ⟨by simp [hstate], rfl, hstate⟩

theorem standing_queue (h : s.loops.get? l = some loop) (queue : DelayQueue TaskId) :
    (s.modifyLoop l fun loop' => { loop' with queue := queue }).standing l u =
      (s.standing l u).withQueued (queue.items.count u) := by
  rw [standing_modifyLoop h]
  dsimp only
  rw [← standing_running (u := u) h]
  rfl

theorem standing_push (h : s.loops.get? l = some loop) (deadline : Instant) :
    (s.modifyLoop l fun loop' => { loop' with queue := loop.queue.push deadline t }).standing l u =
      (s.standing l u).withQueued ((s.standing l u).queued + if t = u then 1 else 0) := by
  rw [standing_queue h, (DelayQueue.perm_push _ _ _).count_eq, List.count_cons, standing_queued h]
  simp only [beq_iff_eq]

theorem standing_pop (h : s.loops.get? l = some loop) {queue : DelayQueue TaskId} {now : Instant}
    (hpop : loop.queue.popReady now = some (t, queue)) :
    (s.modifyLoop l fun loop' => { loop' with queue := queue }).standing l u =
      (s.standing l u).withQueued ((s.standing l u).queued - if t = u then 1 else 0) := by
  rw [standing_queue h, standing_queued h, (DelayQueue.perm_popReady hpop).count_eq, List.count_cons]
  simp only [beq_iff_eq, Nat.add_sub_cancel]

theorem standing_unqueue (h : s.loops.get? l = some loop) :
    (s.modifyLoop l fun loop' =>
      { loop' with queue := (loop.queue.retain fun other => other != t).2 }).standing l u =
      (s.standing l u).withQueued (if t = u then 0 else (s.standing l u).queued) := by
  rw [standing_queue h, standing_queued h, (DelayQueue.perm_retain _ _).count_eq]
  by_cases ht : t = u
  · subst ht
    rw [if_pos rfl, List.count_eq_zero_of_not_mem (by simp)]
  · rw [if_neg ht, List.count_filter (by simpa using Ne.symm ht)]

theorem standing_stop (h : s.loops.get? l = some loop) :
    (s.modifyLoop l fun loop' =>
      { loop' with running := false, queue := loop.queue.drain.2 }).standing l u =
      { s.standing l u with queued := 0, running := false } := by
  rw [standing_modifyLoop h]
  simp

theorem count_drain (h : s.loops.get? l = some loop) :
    loop.queue.drain.1.count u = (s.standing l u).queued := by
  rw [(DelayQueue.perm_drain _).count_eq, standing_queued h]

theorem standing_sleep (h : s.loops.get? l = some loop) :
    (s.modifyLoop l fun loop' =>
      { loop' with sleeping := some loop'.queue.nextDeadline }).standing l u = s.standing l u := by
  rw [standing_modifyLoop h, ← standing_queued h, ← standing_running (u := u) h]

end

/-! ## Counters -/

def counterIn (s : Scheduler) (l : LoopId) : Option CounterId :=
  (s.loops.get? l).map EventLoop.counter

/-- All counters stand as they did, and each loop has the counter that it had. -/
structure SameBooks (s s' : Scheduler) : Prop where
  counters : s'.counters = s.counters
  counterIn : ∀ l, s'.counterIn l = s.counterIn l

namespace SameBooks

variable {s₁ s₂ s₃ : Scheduler}

theorem refl (s : Scheduler) : s.SameBooks s := ⟨rfl, fun _ => rfl⟩

theorem trans (h : s₁.SameBooks s₂) (h' : s₂.SameBooks s₃) : s₁.SameBooks s₃ :=
  ⟨h'.counters.trans h.counters, fun l => (h'.counterIn l).trans (h.counterIn l)⟩

end SameBooks

theorem counterIn_modify {f : EventLoop → EventLoop} (hf : ∀ loop, (f loop).counter = loop.counter)
    (l l' : LoopId) : ((s.loops.modify l' f).get? l).map EventLoop.counter = s.counterIn l := by
  unfold counterIn
  rw [Table.get?_modify]
  split
  · cases s.loops.get? l with
    | none => rfl
    | some loop => simp [hf]
  · rfl

theorem sameBooks_withQueue (l : LoopId) (queue : DelayQueue TaskId) :
    s.SameBooks (s.withQueue l queue) :=
  ⟨rfl, fun l' => counterIn_modify (by intro; rfl) l' l⟩

theorem sameBooks_createTask (l : LoopId) (kind : TaskKind) (job : JobId) :
    s.SameBooks (s.createTask l kind job).2 :=
  ⟨rfl, fun l' => counterIn_modify (by intro; rfl) l' l⟩

theorem sameBooks_notify (l : LoopId) : s.SameBooks (s.notify l) :=
  ⟨rfl, fun l' => counterIn_modify (by intro; rfl) l' l⟩

theorem sameBooks_settleCancelled (t : TaskId) : s.SameBooks (s.settleCancelled t) :=
  ⟨rfl, fun _ => rfl⟩

theorem sameBooks_transition {source target : TaskState} {moved : Bool} {s' : Scheduler}
    (h : s.transition t source target = (moved, s')) : s.SameBooks s' := by
  unfold transition at h
  split at h
  · cases h
    exact .refl s
  · cases h
    exact ⟨rfl, fun _ => rfl⟩

theorem sameBooks_unqueue {removed : Bool} {s' : Scheduler} {l : LoopId}
    (h : s.unqueue l t = (removed, s')) : s.SameBooks s' := by
  unfold unqueue at h
  split at h
  · cases h
    exact .refl s
  · cases h
    exact sameBooks_withQueue _ _

theorem sameBooks_stop {drained : List TaskId} {s' : Scheduler} {l : LoopId}
    (h : s.stop l = (drained, s')) : s.SameBooks s' := by
  unfold stop at h
  split at h
  · cases h
    exact .refl s
  · cases h
    exact ⟨rfl, fun l' => counterIn_modify (by intro; rfl) l' l⟩

theorem sameBooks_poll {poll : Poll} {s' : Scheduler} {l : LoopId} (h : s.poll l = (poll, s')) :
    s.SameBooks s' := by
  unfold Scheduler.poll at h
  split at h
  · cases h
    exact .refl s
  · split at h
    · cases h
      exact .refl s
    · split at h
      · cases h
        exact sameBooks_withQueue _ _
      · cases h
        exact ⟨rfl, fun l' => counterIn_modify (by intro; rfl) l' l⟩

theorem sameBooks_discardNow (t : TaskId) : s.SameBooks (s.discardNow t) := by
  unfold discardNow
  split
  · next hpending => exact (sameBooks_transition hpending).trans (sameBooks_settleCancelled t)
  · next hpending =>
    split
    · next hrunning =>
      exact ((sameBooks_transition hpending).trans (sameBooks_transition hrunning)).trans
        (sameBooks_settleCancelled t)
    · next hrunning => exact (sameBooks_transition hpending).trans (sameBooks_transition hrunning)

theorem sameBooks_rearm {rearming : Rearming} {interval : Duration} {s' : Scheduler}
    (h : s.rearm t interval = (rearming, s')) : s.SameBooks s' := by
  unfold rearm at h
  split at h
  · cases h
    exact .refl s
  · split at h
    · cases h
      exact .refl s
    · split at h
      · cases h
        exact sameBooks_discardNow t
      · split at h
        · next hmoved =>
          cases h
          exact sameBooks_transition hmoved
        · next hmoved =>
          split at h
          · cases h
            exact sameBooks_transition hmoved
          · cases h
            exact (sameBooks_transition hmoved).trans (sameBooks_withQueue _ _)

theorem sameBooks_accept {admission : Admission} {l : LoopId} {delay : Duration} {s' : Scheduler}
    (h : s.accept l t delay = (admission, s')) :
    admission = .stopped ∧ s' = s ∨
      admission ≠ .stopped ∧ ∃ c, s.counterIn l = some c ∧ (s.increment c).SameBooks s' := by
  unfold accept at h
  split at h
  · cases h
    exact .inl ⟨rfl, rfl⟩
  · next loop hloop =>
    have hcounter : s.counterIn l = some loop.counter := by
      unfold counterIn
      rw [hloop]
      rfl
    split at h
    · dsimp only at h
      split at h
      · cases h
        exact .inr ⟨nofun, _, hcounter, .refl _⟩
      · cases h
        exact .inr ⟨nofun, _, hcounter, sameBooks_withQueue _ _⟩
    · cases h
      exact .inl ⟨rfl, rfl⟩

end Scheduler

end ScriptWorker
