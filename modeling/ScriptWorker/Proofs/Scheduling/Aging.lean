import ScriptWorker.Proofs.Scheduling.Lines
import ScriptWorker.Proofs.Scheduling.Steps

/-!
# How a loop ages

While threads move, time passes, tasks keep their kinds, and entries leave the queue of a loop in one
way or another. A newcomer joins the queue in two places only: where a task is accepted, and where a
periodic task is queued again. Both give it the deadline that lies a delay after the time that is then.
-/

namespace ScriptWorker

/-- One queue holds no more than another one did, and in the same order. -/
def DelayQueue.Thins {α : Type} (q q' : DelayQueue α) : Prop :=
  q.Sound → q'.Sound ∧ ∀ e ∈ q'.entries, e ∈ q.entries

namespace DelayQueue.Thins

variable {α : Type} {q₁ q₂ q₃ : DelayQueue α}

theorem refl (q : DelayQueue α) : q.Thins q := fun h => ⟨h, fun _ he => he⟩

theorem trans (h : q₁.Thins q₂) (h' : q₂.Thins q₃) : q₁.Thins q₃ := by
  intro hsound
  obtain ⟨hsound₂, hmem⟩ := h hsound
  obtain ⟨hsound₃, hmem'⟩ := h' hsound₂
  exact ⟨hsound₃, fun e he => hmem e (hmem' e he)⟩

theorem retain (q : DelayQueue α) (keep : α → Bool) : q.Thins (q.retain keep).2 := fun h =>
  ⟨h.retain keep, fun _ he => (List.mem_filter.1 (h.entries_retain keep ▸ he)).1⟩

theorem drain (q : DelayQueue α) : q.Thins q.drain.2 := fun _ =>
  ⟨sound_drain q, fun _ he => nomatch he⟩

theorem popReady {q rest : DelayQueue α} {now : Instant} {item : α}
    (h : q.popReady now = some (item, rest)) : q.Thins rest := fun hsound => by
  obtain ⟨hnone, -⟩ | ⟨entry, rest', hsome, hline, -, hrest, -⟩ := hsound.popReady_cases now
  · rw [hnone] at h
    cases h
  · rw [hsome] at h
    cases h
    exact ⟨hrest, fun e he => hline ▸ List.mem_cons_of_mem _ he⟩

end DelayQueue.Thins

namespace Scheduler

variable {s s' : Scheduler} {l l' : LoopId} {t : TaskId}

def kindIn (s : Scheduler) (l : LoopId) (t : TaskId) : Option TaskKind :=
  (s.taskIn l t).map Task.kind

def queueIn (s : Scheduler) (l : LoopId) : Option (DelayQueue TaskId) :=
  (s.loops.get? l).map EventLoop.queue

/-- Time goes on, tasks of a loop keep their kinds, and nobody joins its queue. -/
structure Ages (l : LoopId) (s s' : Scheduler) : Prop where
  now : s.now ≤ s'.now
  kinds : ∀ t kind, s.kindIn l t = some kind → s'.kindIn l t = some kind
  queue : ∀ q' ∈ s'.queueIn l, ∃ q ∈ s.queueIn l, q.Thins q'

/-- A task joins the queue of a loop, to wait there for some time, and nothing else happens to queues. -/
structure Joins (l : LoopId) (t : TaskId) (delay : Duration) (s s' : Scheduler) : Prop where
  now : s'.now = s.now
  kinds : ∀ t kind, s.kindIn l t = some kind → s'.kindIn l t = some kind
  queue : ∀ q' ∈ s'.queueIn l, ∃ q ∈ s.queueIn l, q' = q.push (s.now + delay) t

namespace Ages

variable {s₁ s₂ s₃ : Scheduler}

theorem refl (s : Scheduler) : s.Ages l s :=
  ⟨Nat.le_refl _, fun _ _ h => h, fun q hq => ⟨q, hq, .refl q⟩⟩

theorem trans (h : s₁.Ages l s₂) (h' : s₂.Ages l s₃) : s₁.Ages l s₃ where
  now := Nat.le_trans h.now h'.now
  kinds t kind ht := h'.kinds t kind (h.kinds t kind ht)
  queue q₃ hq₃ := by
    obtain ⟨q₂, hq₂, hthins⟩ := h'.queue q₃ hq₃
    obtain ⟨q₁, hq₁, hthins'⟩ := h.queue q₂ hq₂
    exact ⟨q₁, hq₁, hthins'.trans hthins⟩

end Ages

theorem Elsewhere.ages {own : Option CounterId} (h : Elsewhere l own s s') (hnow : s.now ≤ s'.now) :
    s.Ages l s' where
  now := hnow
  kinds t kind ht := by rwa [kindIn, h.tasks]
  queue q hq := ⟨q, by rwa [queueIn, ← h.loop], .refl q⟩

/-! ## What holds of all who wait -/

def EachQueued (s : Scheduler) (l : LoopId) (P : TaskId → Instant → Prop) : Prop :=
  ∀ q ∈ s.queueIn l, q.Sound ∧ ∀ e ∈ q.entries, P e.item e.readyAt

section EachQueued

variable {P : TaskId → Instant → Prop}

theorem EachQueued.ages (h : s.EachQueued l P) (hages : s.Ages l s') : s'.EachQueued l P := by
  intro q' hq'
  obtain ⟨q, hq, hthins⟩ := hages.queue q' hq'
  obtain ⟨hsound, hP⟩ := h q hq
  obtain ⟨hsound', hmem⟩ := hthins hsound
  exact ⟨hsound', fun e he => hP e (hmem e he)⟩

theorem EachQueued.joins {delay : Duration} (h : s.EachQueued l P) (hjoins : s.Joins l t delay s')
    (ht : P t (s.now + delay)) : s'.EachQueued l P := by
  intro q' hq'
  obtain ⟨q, hq, rfl⟩ := hjoins.queue q' hq'
  obtain ⟨hsound, hP⟩ := h q hq
  refine ⟨hsound.push _ _, fun e he => ?_⟩
  rw [hsound.entries_push] at he
  rcases List.mem_cons.1 ((QueueEntry.perm_joining _ _).mem_iff.1 he) with rfl | he
  · exact ht
  · exact hP e he

end EachQueued

/-! ## Changes of tasks -/

theorem ages_modifyTask {f : Task → Task} (howner : ∀ task, (f task).owner = task.owner)
    (hkind : ∀ task, (f task).kind = task.kind) : s.Ages l (s.modifyTask t f) where
  now := Nat.le_refl _
  kinds u kind hu := by
    unfold kindIn at hu ⊢
    rw [taskIn_modifyTask howner]
    split
    · rw [← hu, Option.map_map]
      exact congrArg (fun g => (s.taskIn l u).map g) (funext hkind)
    · exact hu
  queue q hq := ⟨q, hq, .refl q⟩

theorem transition_snd (source target : TaskState) :
    (s.transition t source target).2 = s.modifyTask t fun task => (task.transition source target).2 := by
  unfold transition modifyTask
  cases hget : s.tasks.get? t with
  | none =>
    dsimp only
    rw [Table.modify_congr (g := fun task => task) fun a ha => ?_, Table.modify_id]
    rw [hget] at ha
    cases ha
  | some task =>
    dsimp only
    rw [Table.modify_congr (g := fun task => (task.transition source target).2) fun a ha => ?_]
    rw [hget] at ha
    cases ha
    rfl

theorem ages_transition {source target : TaskState} {moved : Bool}
    (h : s.transition t source target = (moved, s')) : s.Ages l s' := by
  have hmodify := transition_snd (s := s) (t := t) source target
  rw [h] at hmodify
  obtain rfl : s' = _ := hmodify
  refine ages_modifyTask ?_ ?_ <;> (intro task; unfold Task.transition; split <;> rfl)

theorem ages_settleCancelled : s.Ages l (s.settleCancelled t) :=
  ages_modifyTask (f := fun task => task.settle (.error (.cancelled task.number)))
    (fun _ => rfl) fun _ => rfl

theorem ages_discardNow : s.Ages l (s.discardNow t) := by
  unfold discardNow
  split
  · next hpending => exact (ages_transition hpending).trans ages_settleCancelled
  · next hpending =>
    split
    · next hrunning =>
      exact ((ages_transition hpending).trans (ages_transition hrunning)).trans ages_settleCancelled
    · next hrunning => exact (ages_transition hpending).trans (ages_transition hrunning)

/-! ## Changes of loops -/

theorem ages_modifyLoop {f : EventLoop → EventLoop}
    (h : ∀ loop, s.loops.get? l' = some loop → loop.queue.Thins (f loop).queue) :
    s.Ages l (s.modifyLoop l' f) where
  now := Nat.le_refl _
  kinds _ _ ht := ht
  queue q' hq' := by
    unfold queueIn modifyLoop at hq'
    simp only [Table.get?_modify] at hq'
    split at hq'
    · next hl =>
      subst hl
      obtain ⟨loop', hloop', rfl⟩ := Option.map_eq_some_iff.1 hq'
      obtain ⟨loop, hloop, rfl⟩ := Option.map_eq_some_iff.1 hloop'
      exact ⟨loop.queue, by rw [queueIn, hloop]; rfl, h loop hloop⟩
    · exact ⟨q', hq', .refl q'⟩

theorem ages_notify : s.Ages l (s.notify l') :=
  ages_modifyLoop (f := fun loop => { loop with sleeping := none }) fun loop _ => .refl loop.queue

theorem ages_unqueue {removed : Bool} (h : s.unqueue l' t = (removed, s')) : s.Ages l s' := by
  unfold unqueue at h
  split at h
  · cases h
    exact .refl s
  · next loop hloop =>
    cases h
    refine ages_modifyLoop (f := fun loop' =>
      { loop' with queue := (loop.queue.retain fun other => other != t).2 }) fun loop' hloop' => ?_
    rw [hloop] at hloop'
    cases hloop'
    exact .retain loop.queue fun other => other != t

theorem ages_stop {drained : List TaskId} (h : s.stop l' = (drained, s')) : s.Ages l s' := by
  unfold stop at h
  split at h
  · cases h
    exact .refl s
  · next loop hloop =>
    cases h
    refine ages_modifyLoop (f := fun loop' => { loop' with running := false, queue := loop.queue.drain.2 })
      fun loop' hloop' => ?_
    rw [hloop] at hloop'
    cases hloop'
    exact .drain loop.queue

theorem ages_poll {poll : Poll} (h : s.poll l' = (poll, s')) : s.Ages l s' := by
  unfold Scheduler.poll at h
  split at h
  · cases h
    exact .refl s
  · next loop hloop =>
    split at h
    · cases h
      exact .refl s
    · split at h
      · next task queue hpop =>
        cases h
        refine ages_modifyLoop (f := fun loop' => { loop' with queue := queue }) fun loop' hloop' => ?_
        rw [hloop] at hloop'
        cases hloop'
        exact .popReady hpop
      · cases h
        exact ages_modifyLoop (f := fun loop' => { loop' with sleeping := some loop'.queue.nextDeadline })
          fun loop' _ => .refl loop'.queue

theorem ages_createTask {kind : TaskKind} {job : JobId} : s.Ages l (s.createTask l' kind job).2 where
  now := Nat.le_refl _
  kinds t kind' ht := by
    have hold : (s.createTask l' kind job).2.taskIn l t = s.taskIn l t := by
      obtain ⟨task, htask, -⟩ := Option.map_eq_some_iff.1 ht
      obtain ⟨hlt, -⟩ := List.getElem?_eq_some_iff.1 (get?_of_taskIn htask).1
      unfold taskIn createTask
      simp only [Table.get?_push]
      rw [if_neg (show t ≠ s.tasks.size from Nat.ne_of_lt hlt)]
    rwa [kindIn, hold]
  queue := by
    have hages : s.Ages l (s.modifyLoop l' fun loop => { loop with nextNumber := loop.nextNumber + 1 }) :=
      ages_modifyLoop fun loop _ => .refl loop.queue
    exact hages.queue

theorem ages_increment {c : CounterId} : s.Ages l (s.increment c) :=
  ⟨Nat.le_refl _, fun _ _ ht => ht, fun q hq => ⟨q, hq, .refl q⟩⟩

theorem ages_decrement {c : CounterId} : s.Ages l (s.decrement c) :=
  ⟨Nat.le_refl _, fun _ _ ht => ht, fun q hq => ⟨q, hq, .refl q⟩⟩

/-! ## Newcomers -/

theorem joins_push {loop : EventLoop} (hloop : s.loops.get? l = some loop) (delay : Duration) :
    s.Joins l t delay (s.withQueue l (loop.queue.push (s.now + delay) t)) where
  now := rfl
  kinds _ _ ht := ht
  queue q' hq' := by
    unfold queueIn withQueue at hq'
    simp only [Table.get?_modify, if_true, hloop, Option.map_some, Option.mem_def,
      Option.some.injEq] at hq'
    exact ⟨loop.queue, by rw [queueIn, hloop]; rfl, hq'.symm⟩

theorem later?_eq {delay : Duration} {deadline : Instant} (h : s.later? delay = some deadline) :
    deadline = s.now + delay := by
  unfold later? at h
  split at h <;> cases h
  rfl

theorem accept_joins {delay : Duration} (h : s.accept l t delay = (.queued, s')) :
    s.Joins l t delay s' := by
  unfold accept at h
  split at h
  · cases h
  · next loop hloop =>
    split at h
    · dsimp only at h
      split at h
      · cases h
      · next deadline hdeadline =>
        cases h
        obtain rfl := later?_eq hdeadline
        have hjoins := joins_push (s := s.increment loop.counter) (t := t) hloop delay
        exact ⟨hjoins.now, hjoins.kinds, hjoins.queue⟩
    · cases h

theorem accept_ages {admission : Admission} {delay : Duration} (h : s.accept l' t delay = (admission, s'))
    (hne : admission ≠ .queued) : s.Ages l s' := by
  unfold accept at h
  split at h
  · cases h
    exact .refl s
  · next loop hloop =>
    split at h
    · dsimp only at h
      split at h
      · cases h
        exact ages_increment
      · cases h
        exact absurd rfl hne
    · cases h
      exact .refl s

theorem rearm_joins {interval : Duration} (h : s.rearm t interval = (.queued, s')) :
    s.Joins (s.ownerOf t) t interval s' := by
  unfold rearm at h
  split at h
  · cases h
  · next task htask =>
    have howner : s.ownerOf t = task.owner := by
      unfold ownerOf
      rw [htask]
    rw [howner]
    split at h
    · cases h
    · next loop hloop =>
      split at h
      · cases h
      · split at h
        · cases h
        · next s₁ hmoved =>
          split at h
          · cases h
          · next deadline hdeadline =>
            cases h
            obtain rfl := later?_eq hdeadline
            have hages := ages_transition (l := task.owner) hmoved
            have hsame : s₁.now = s.now ∧ s₁.loops = s.loops := by
              have hmodify := transition_snd (s := s) (t := t) .running .pending
              rw [hmoved] at hmodify
              obtain rfl : s₁ = _ := hmodify
              exact ⟨rfl, rfl⟩
            have hjoins := joins_push (s := s₁) (t := t) (hsame.2 ▸ hloop) interval
            refine ⟨hsame.1, fun u kind hu => hages.kinds u kind hu, fun q' hq' => ?_⟩
            obtain ⟨q, hq, hpush⟩ := hjoins.queue q' hq'
            exact ⟨q, by rwa [queueIn, ← hsame.2], hsame.1 ▸ hpush⟩

theorem rearm_ages {rearming : Rearming} {interval : Duration} (h : s.rearm t interval = (rearming, s'))
    (hne : rearming ≠ .queued) : s.Ages l s' := by
  unfold rearm at h
  split at h
  · cases h
    exact .refl s
  · split at h
    · cases h
      exact .refl s
    · split at h
      · cases h
        exact ages_discardNow
      · split at h
        · next hmoved =>
          cases h
          exact ages_transition hmoved
        · next hmoved =>
          split at h
          · cases h
            exact ages_transition hmoved
          · cases h
            exact absurd rfl hne

end Scheduler

end ScriptWorker
