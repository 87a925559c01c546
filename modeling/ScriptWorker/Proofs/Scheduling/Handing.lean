import ScriptWorker.Proofs.Scheduling.Guards
import ScriptWorker.Proofs.Scheduling.Programs

/-!
# Work goes to a running loop

Whatever threads do with workers, the loop in a worker's slot runs, and at most one of the loops that the
worker has started does. A call that schedules and says that it has queued a task has queued it on the loop in
the slot in one of its steps, which took a slot of the worker's counter; no other step of that call touched a
counter or a queue.
-/

namespace ScriptWorker.Scheduling

open Relation Scheduler

variable {s s' : Scheduler} {l : LoopId} {k : WorkerId} {X Y Z : Workers} {u v : Undertaking}
  {started : List (WorkerId × LoopId)}

/-! ## One call -/

/-- A thread that runs a program among all that goes on with workers: what is left of the program, and the
scheduler before and after each step that the thread itself has taken. The rest of the world may change at any
time. -/
inductive Workers.Hosts {L : Language} {α : Type} (X : Workers) (p : Run L α) :
    Workers → Run L α → List (Scheduler × Scheduler) → Prop
  | begun : Hosts X p X p []
  | takes {Y : Workers} {q q' : Run L α} {own : List (Scheduler × Scheduler)} {w w' : World L} :
    Hosts X p Y q own → w.scheduler = Y.scheduler → q.Takes (fun _ _ => True) w q' w' →
    Hosts X p { Y with scheduler := w'.scheduler } q' (own ++ [(Y.scheduler, w'.scheduler)])
  | waits {Y Z : Workers} {q : Run L α} {own : List (Scheduler × Scheduler)} :
    Hosts X p Y q own → Workers.Step Y Z → Hosts X p Z q own

structure Untouched (s s' : Scheduler) : Prop where
  counters : s'.counters = s.counters
  queues : ∀ l, s'.queueOf l = s.queueOf l

/-- A task is queued on the loop in the slot of a worker, which runs, and takes a slot of the worker's
counter. -/
structure Queues (k : WorkerId) (t : TaskId) (s s' : Scheduler) : Prop where
  queued : ∃ c l, s.holding k = some (c, some l) ∧ s.isRunning l ∧
    s'.counters = (s.increment c).counters ∧ (s'.queueOf l).Perm (t :: s.queueOf l) ∧
    ∀ l', l' ≠ l → s'.queueOf l' = s.queueOf l'

/-- Of some steps one queued a task, and the others touched nothing. -/
def QueuedOnce (k : WorkerId) (t : TaskId) (own : List (Scheduler × Scheduler)) : Prop :=
  ∃ before s s' after, own = before ++ (s, s') :: after ∧ Queues k t s s' ∧
    ∀ p ∈ before ++ after, Untouched p.1 p.2

theorem QueuedOnce.append {t : TaskId} {own : List (Scheduler × Scheduler)} (h : QueuedOnce k t own)
    (hlast : Untouched s s') : QueuedOnce k t (own ++ [(s, s')]) := by
  obtain ⟨before, s₁, s₂, after, rfl, hqueues, hrest⟩ := h
  refine ⟨before, s₁, s₂, after ++ [(s, s')], by simp, hqueues, fun p hp => ?_⟩
  rw [← List.append_assoc] at hp
  rcases List.mem_append.1 hp with hp | hp
  · exact hrest p hp
  · cases List.mem_singleton.1 hp
    exact hlast

theorem queueOf_modify {f : EventLoop → EventLoop} (l l' : LoopId)
    (hf : ∀ loop, (f loop).queue = loop.queue) : (s.modifyLoop l f).queueOf l' = s.queueOf l' := by
  unfold queueOf modifyLoop
  rw [Table.get?_modify]
  by_cases hl : l = l'
  · rw [if_pos hl]
    cases s.loops.get? l' with
    | none => rfl
    | some loop => exact congrArg DelayQueue.items (hf loop)
  · rw [if_neg hl]

theorem untouched_createTask (l : LoopId) (kind : TaskKind) (job : JobId) :
    Untouched s (s.createTask l kind job).2 :=
  ⟨(sameBooks_createTask l kind job).counters, fun l' => queueOf_modify l l' fun _ => rfl⟩

theorem untouched_notify (l : LoopId) : Untouched s (s.notify l) :=
  ⟨rfl, fun l' => queueOf_modify l l' fun _ => rfl⟩

theorem untouched_addLoop (name : String) (c : CounterId) (policy : FailurePolicy) :
    Untouched s (s.addLoop name c policy).2 := by
  refine ⟨rfl, fun l => ?_⟩
  unfold queueOf addLoop
  dsimp only
  rw [Table.get?_push]
  by_cases hl : l = s.loops.size
  · subst hl
    rw [if_pos rfl, show s.loops.get? s.loops.size = none from List.getElem?_eq_none (Nat.le_refl _)]
    rfl
  · rw [if_neg hl]

theorem queues_accept {c : CounterId} (t : TaskId) (delay : Duration)
    (hheld : s.holding k = some (c, some l)) (hruns : s.isRunning l) (hcounter : s.counterIn l = some c) :
    (s.accept l t delay).1 = .overflow ∨
      ∃ s', s.accept l t delay = (.queued, s') ∧ Queues k t s s' := by
  obtain ⟨loop, hloop, rfl⟩ := Option.map_eq_some_iff.1 hcounter
  have hrunning : loop.running = true := (standing_running (u := 0) hloop).symm.trans hruns
  rcases accept_cases (t := t) hloop delay with ⟨-, hstopped⟩ | ⟨haccept, -⟩ | ⟨deadline, -, haccept⟩
  · rw [hrunning] at hstopped
    cases hstopped
  · exact .inl (by rw [haccept])
  · refine .inr ⟨_, haccept, loop.counter, l, hheld, hruns, rfl, ?_, fun l' hl' => ?_⟩
    · unfold queueOf modifyLoop
      simp only [Table.get?_modify, if_true, increment, hloop, Option.map_some]
      exact DelayQueue.perm_push _ _ _
    · unfold queueOf modifyLoop
      simp only [Table.get?_modify, Ne.symm hl', if_false, increment]

/-- What an enqueue for a worker has come to: until it is accepted nothing was touched, and from then on
its task was queued once. -/
def Undertaking.Came (k : WorkerId) (own : List (Scheduler × Scheduler)) : Undertaking → Prop
  | slot _ (.acquire j use) => j = k ∧ (∃ kind delay job, use = .enqueue kind delay job) ∧
    ∀ p ∈ own, Untouched p.1 p.2
  | slot _ (.held j use) => j = k ∧ (∃ kind delay job, use = .enqueue kind delay job) ∧
    ∀ p ∈ own, Untouched p.1 p.2
  | slot _ (.enqueue j (.create ..)) => j = k ∧ ∀ p ∈ own, Untouched p.1 p.2
  | slot _ (.enqueue j (.accept ..)) => j = k ∧ ∀ p ∈ own, Untouched p.1 p.2
  | slot _ (.enqueue j (.announce _ t)) => j = k ∧ QueuedOnce k t own
  | slot _ (.release j (.queued t)) => j = k ∧ QueuedOnce k t own
  | slot _ (.release ..) => True
  | slot _ (.releasePanic ..) => True
  | _ => False

theorem untouched_append {own : List (Scheduler × Scheduler)} (h : ∀ p ∈ own, Untouched p.1 p.2)
    (hlast : Untouched s s') : ∀ p ∈ own ++ [(s, s')], Untouched p.1 p.2 := by
  intro p hp
  rcases List.mem_append.1 hp with hp | hp
  · exact h p hp
  · cases List.mem_singleton.1 hp
    exact hlast

theorem came_next_held {j : WorkerId} {loop : Option LoopId} {use : SlotUse}
    {own : List (Scheduler × Scheduler)} (hX : X.Guarded started)
    (hu : .slot loop (.held j use) ∈ X.undertakings)
    (hcame : (Undertaking.slot loop (.held j use)).Came k own)
    (h : (Undertaking.slot loop (.held j use)).advance X.scheduler = some (s, some v)) :
    v.Came k (own ++ [(X.scheduler, s)]) := by
  obtain ⟨hj, ⟨kind, delay, job, rfl⟩, hown⟩ := hcame
  obtain ⟨slot, hslot⟩ := Option.isSome_iff_exists.1 (hX.placed _ hu)
  have hslot : X.scheduler.slots.get? j = some slot := hslot
  simp only [Undertaking.advance, SlotStage.advance, hslot, slotLoop] at h
  cases hloop : slot.loop with
  | some l =>
    rw [hloop] at h
    dsimp only at h
    split at h <;> cases h
    · trivial
    · exact ⟨hj, untouched_append hown ⟨rfl, fun _ => rfl⟩⟩
  | none =>
    rw [hloop] at h
    cases hname : threadNameFault? slot.threadName with
    | some text =>
      rw [hname] at h
      cases h
      trivial
    | none =>
      rw [hname] at h
      have hadded := untouched_addLoop (s := X.scheduler) slot.threadName slot.counter slot.policy
      dsimp only at h
      split at h <;> cases h
      · trivial
      · exact ⟨hj, untouched_append hown ⟨hadded.counters, hadded.queues⟩⟩

theorem came_next_enqueue {j : WorkerId} {loop : Option LoopId} {inner : Enqueue}
    {own : List (Scheduler × Scheduler)} (hX : X.Guarded started)
    (hu : .slot loop (.enqueue j inner) ∈ X.undertakings)
    (hcame : (Undertaking.slot loop (.enqueue j inner)).Came k own)
    (h : (Undertaking.slot loop (.enqueue j inner)).advance X.scheduler = some (s, some v)) :
    v.Came k (own ++ [(X.scheduler, s)]) := by
  obtain ⟨l, rfl, hslot, hinner⟩ := hX.fits _ hu
  simp only [Undertaking.advance, SlotStage.advance] at h
  cases inner with
  | create l' kind delay job =>
    obtain ⟨hj, hown⟩ := hcame
    cases h
    exact ⟨hj, untouched_append hown (untouched_createTask _ _ _)⟩
  | accept l' t delay =>
    obtain rfl : l' = l := hinner
    obtain ⟨rfl, hown⟩ := hcame
    obtain ⟨⟨c, loop⟩, hheld, hloop⟩ := Option.bind_eq_some_iff.1 hslot
    have hheld : X.scheduler.holding j = some (c, some l') := hheld.trans (by rw [← hloop])
    obtain ⟨hruns, hcounter, -⟩ := hX.slots j c l' hheld
    rcases queues_accept t delay hheld hruns hcounter with hlost | ⟨s', haccept, hqueues⟩
    · cases haccept : X.scheduler.accept l' t delay with
      | mk admission s' =>
        rw [haccept] at hlost
        cases hlost
        simp only [Enqueue.advance, haccept, afterStep] at h
        cases h
        trivial
    · simp only [Enqueue.advance, haccept, afterStep] at h
      cases h
      exact ⟨rfl, own, _, _, [], rfl, hqueues, by simpa using hown⟩
  | announce l' t =>
    obtain ⟨hj, honce⟩ := hcame
    cases h
    exact ⟨hj, honce.append (untouched_notify l')⟩
  | refuse | refuseRunning | refuseSettle => exact hinner.elim

theorem came_next {own : List (Scheduler × Scheduler)} (hX : X.Guarded started)
    (hu : u ∈ X.undertakings) (hcame : u.Came k own)
    (h : u.advance X.scheduler = some (s, some v)) : v.Came k (own ++ [(X.scheduler, s)]) := by
  cases u with
  | cancel => exact hcame.elim
  | slot loop stage =>
    cases stage with
    | acquire j use =>
      obtain ⟨hj, huse, hown⟩ := hcame
      simp only [Undertaking.advance, SlotStage.advance] at h
      (repeat' split at h) <;> cases h
      exact ⟨hj, huse, untouched_append hown ⟨rfl, fun _ => rfl⟩⟩
    | held => exact came_next_held hX hu hcame h
    | enqueue => exact came_next_enqueue hX hu hcame h
    | shutdown => exact hcame.elim
    | release | releasePanic => cases h

/-! ## A call next to the others -/

def Workers.beside (X : Workers) (u : Undertaking) : Workers :=
  { X with undertakings := X.undertakings ++ [u] }

theorem move?_beside {m : Workers.Move} (h : X.move? m = some Y) (hm : ∀ k t, m ≠ .cancel k t) :
    (X.beside u).move? m = some (Y.beside u) := by
  cases m with
  | use k use =>
    obtain ⟨hk, h⟩ := Option.ite_none_right_eq_some.1 h
    cases h
    exact if_pos hk
  | cancel k t => exact absurd rfl (hm k t)
  | proceed place =>
    obtain ⟨v, hv, hadvance⟩ := Option.bind_eq_some_iff.1 h
    obtain ⟨⟨s, next⟩, hstep, rfl⟩ := Option.map_eq_some_iff.1 hadvance
    have hlt := (List.getElem?_eq_some_iff.1 hv).1
    have hget : (X.beside u).undertakings[place]? = some v :=
      (List.getElem?_append_left hlt).trans hv
    have htake : (X.undertakings ++ [u]).take place = X.undertakings.take place :=
      List.take_append_of_le_length (Nat.le_of_lt hlt)
    have hdrop : (X.undertakings ++ [u]).drop (place + 1) = X.undertakings.drop (place + 1) ++ [u] :=
      List.drop_append_of_le_length hlt
    simp only [Workers.move?, hget, Option.bind_some]
    rw [show (X.beside u).scheduler = X.scheduler from rfl, hstep]
    simp only [Workers.beside, Option.map_some, htake, hdrop, List.append_assoc]
  | serve l result =>
    obtain ⟨hl, h⟩ := Option.ite_none_right_eq_some.1 h
    obtain ⟨_, hadvance, rfl⟩ := Option.map_eq_some_iff.1 h
    refine (if_pos hl).trans ?_
    rw [show (X.beside u).services = X.services from rfl,
      show (X.beside u).scheduler = X.scheduler from rfl, hadvance]
    rfl
  | pass delay =>
    cases h
    rfl

theorem guarded_step_beside {m : Workers.Move} (hX : (X.beside u).Guarded started)
    (h : X.move? m = some Y) : ∃ started', (Y.beside u).Guarded started' := by
  by_cases hm : ∀ k t, m ≠ .cancel k t
  · exact ⟨_, hX.step (move?_beside h hm)⟩
  · obtain ⟨k, t, rfl⟩ : ∃ k t, m = .cancel k t := by simpa using hm
    obtain ⟨c, task, hc, -, -, rfl⟩ := cancel_eq h
    obtain ⟨slot, hslot, -⟩ := Option.map_eq_some_iff.1 hc
    exact ⟨started, hX.begin (fun _ => rfl) (hslot ▸ rfl) trivial⟩

theorem guarded_perm {undertakings : List Undertaking} (hX : X.Guarded started)
    (h : X.undertakings.Perm undertakings) :
    { X with undertakings := undertakings }.Guarded started where
  locks k slot hslot := (h.countP_eq _).symm.trans (hX.locks k slot hslot)
  placed u hu := hX.placed u (h.mem_iff.2 hu)
  fits u hu := hX.fits u (h.mem_iff.2 hu)
  slots := hX.slots
  runs k l hmem hruns := (hX.runs k l hmem hruns).imp_right h.mem_iff.1
  known := hX.known
  single := hX.single

theorem guarded_beside (hX : X.Guarded started) (use : SlotUse)
    (hk : (X.scheduler.slots.get? k).isSome) :
    (X.beside (.slot none (.acquire k use))).Guarded started := by
  have hbegun := hX.begin (u := .slot none (.acquire k use)) (fun _ => rfl) hk trivial
  exact guarded_perm (X := { X with undertakings := _ :: X.undertakings }) hbegun
    (List.perm_append_singleton _ _).symm

theorem guarded_own {next : Option Undertaking} (hX : (X.beside u).Guarded started)
    (h : u.advance X.scheduler = some (s, next)) : ∃ started', Workers.Guarded
      { X with scheduler := s, undertakings := X.undertakings ++ next.toList } started' := by
  have hmem : u ∈ (X.beside u).undertakings := by simp [Workers.beside]
  have heffect := Undertaking.effect_of_advance (hX.placed u hmem) (hX.fits u hmem)
    (fun _ _ => hX.running) h
  have hops : (X.beside u).undertakings = X.undertakings ++ u :: [] := rfl
  have hafter := hX.after hops (fun v hv => by cases hv; exact Undertaking.worker_of_advance h) heffect
  exact ⟨_, hafter.same (by simp [Workers.after]) (.refl _)⟩

def submitting {L : Language} (stage : SlotStage) : Run L (Answer TaskId) :=
  perform stage >>= fun reply => pure reply.answered

/-- How far a call that schedules for a worker has come, among what the others are midway in. -/
inductive Workers.Submits {L : Language} (X : Workers) (k : WorkerId)
    (own : List (Scheduler × Scheduler)) : Run L (Answer TaskId) → Prop
  | called {started : List (WorkerId × LoopId)} (module : ModuleRef) (function : FunctionRef)
    (args : List Value) (timing : Timing) : X.Guarded started → (∀ p ∈ own, Untouched p.1 p.2) →
    Submits X k own (Worker.schedule k module function args timing)
  | asks {started : List (WorkerId × LoopId)} (kind : TaskKind) (delay : Duration) (job : JobId) :
    X.Guarded started → (∀ p ∈ own, Untouched p.1 p.2) →
    Submits X k own (submitting (.acquire k (.enqueue kind delay job)))
  | uses {started : List (WorkerId × LoopId)} {loop : Option LoopId} {stage : SlotStage} :
    (X.beside (.slot loop stage)).Guarded started →
    (Undertaking.slot loop stage).Came k own → Submits X k own (submitting stage)
  | answered {started : List (WorkerId × LoopId)} {reply : SlotReply} : X.Guarded started →
    (∀ t, reply = .queued t → QueuedOnce k t own) → Submits X k own (pure reply.answered)
  | panicked {started : List (WorkerId × LoopId)} {payload : Option String} : X.Guarded started →
    Submits X k own (.panic payload)

theorem release_of_finished {stage : SlotStage} {reply : SlotReply}
    (h : stage.advance s = .finished s' reply) :
    (∃ k, stage = .release k reply ∧ s' = s.setLocked k false) ∨ reply = .number 0 := by
  cases stage with
  | acquire k use =>
    simp only [SlotStage.advance] at h
    (repeat' split at h) <;> cases h
    exact .inr rfl
  | held k use =>
    simp only [SlotStage.advance] at h
    (repeat' split at h) <;> cases h
    exact .inr rfl
  | enqueue k inner | shutdown k inner =>
    simp only [SlotStage.advance] at h
    split at h <;> cases h
  | release k reply' => cases h; exact .inl ⟨k, rfl, rfl⟩
  | releasePanic k text => cases h

section

variable {L : Language} {own : List (Scheduler × Scheduler)} {q q' : Run L (Answer TaskId)}
  {w w' : World L}

theorem submits_uses {loop : Option LoopId} {stage : SlotStage}
    (hX : (X.beside (.slot loop stage)).Guarded started) (hcame : (Undertaking.slot loop stage).Came k own)
    (hw : w.scheduler = X.scheduler)
    (h : (submitting stage : Run L (Answer TaskId)).Takes (fun _ _ => True) w q' w') :
    Workers.Submits { X with scheduler := w'.scheduler } k (own ++ [(X.scheduler, w'.scheduler)]) q' := by
  have hadvance : (Undertaking.slot loop stage).advance X.scheduler =
      afterStep (fun next => .slot (next.loopAfter loop) next) (stage.advance X.scheduler) := rfl
  obtain ⟨s, rfl, ⟨y, hstage, rfl⟩ | ⟨reply, hstage, rfl⟩ | ⟨text, hstage, rfl⟩⟩ := takes_perform_cases h
  all_goals
    replace hstage : stage.advance X.scheduler = _ := hw ▸ hstage
    rw [hstage] at hadvance
    obtain ⟨started', hguarded⟩ := guarded_own hX hadvance
  · have hmem : .slot loop stage ∈ (X.beside (.slot loop stage)).undertakings := by
      simp [Workers.beside]
    exact .uses hguarded (came_next (X := X.beside _) hX hmem hcame hadvance)
  · rw [Option.toList_none, List.append_nil] at hguarded
    refine .answered hguarded fun t ht => ?_
    subst ht
    rcases release_of_finished hstage with ⟨j, rfl, rfl⟩ | hnone
    · exact hcame.2.append ⟨rfl, fun _ => rfl⟩
    · cases hnone
  · rw [Option.toList_none, List.append_nil] at hguarded
    exact .panicked hguarded

theorem Workers.Submits.takes (hq : X.Submits k own q) (hw : w.scheduler = X.scheduler)
    (h : q.Takes (fun _ _ => True) w q' w') :
    Workers.Submits { X with scheduler := w'.scheduler } k (own ++ [(X.scheduler, w'.scheduler)]) q' := by
  cases hq with
  | called module function args timing hX hown =>
    obtain ⟨hmove, rfl⟩ := Program.takes_step.1 h
    cases hmove
    change Workers.Submits { X with scheduler := w.scheduler } k (own ++ [(X.scheduler, w.scheduler)]) _
    rw [hw]
    exact .asks _ _ _ hX (untouched_append hown ⟨rfl, fun _ => rfl⟩)
  | asks kind delay job hX hown =>
    cases hslot : X.scheduler.slots.get? k with
    | none =>
      obtain ⟨hmove, rfl⟩ := takes_perform_bind.1 h
      have hadvance : Staged.advance w.scheduler (SlotStage.acquire k (.enqueue kind delay job)) =
          .finished X.scheduler (.number 0) := by
        rw [hw]
        simp only [Staged.advance, SlotStage.advance, hslot]
      rw [hadvance] at hmove ⊢
      cases hmove
      exact .answered hX fun t hqueued => by cases hqueued
    | some slot =>
      exact submits_uses (guarded_beside hX _ (hslot ▸ rfl)) ⟨rfl, ⟨kind, delay, job, rfl⟩, hown⟩ hw h
  | uses hX hcame => exact submits_uses hX hcame hw h
  | answered => cases h
  | panicked => cases h

theorem Workers.Submits.waits {m : Workers.Move} (hq : X.Submits k own q) (h : X.move? m = some Y) :
    Y.Submits k own q := by
  cases hq with
  | called module function args timing hX hown => exact .called _ _ _ _ (hX.step h) hown
  | asks kind delay job hX hown => exact .asks _ _ _ (hX.step h) hown
  | uses hX hcame =>
    obtain ⟨started', hY⟩ := guarded_step_beside hX h
    exact .uses hY hcame
  | answered hX hqueued => exact .answered (hX.step h) hqueued
  | panicked hX => exact .panicked (hX.step h)

/-- A call that schedules comes, among whatever the others do, to where its answer is true. -/
theorem Workers.Runs.submits {module : ModuleRef} {function : FunctionRef} {args : List Value}
    {timing : Timing} (hX : X.Runs started)
    (h : X.Hosts (Worker.schedule k module function args timing) Y q own) : Y.Submits k own q := by
  induction h with
  | begun => exact .called _ _ _ _ hX.guarded fun p hp => by cases hp
  | takes _ hw htakes ih => exact ih.takes hw htakes
  | waits _ hstep ih =>
    obtain ⟨m, hmove⟩ := hstep
    exact ih.waits hmove

theorem Workers.Submits.queued {t : TaskId} (h : X.Submits k own q) (hq : q = pure (.ok t)) :
    QueuedOnce k t own := by
  cases h with
  | called => cases hq
  | asks | uses =>
    rw [submitting, perform_bind_eq] at hq
    cases hq
  | @answered _ reply _ hqueued =>
    cases reply with
    | queued t' =>
      cases hq
      exact hqueued t rfl
    | noInterval | number n => cases hq
  | panicked => cases hq

end

/-! ## Workers hand work to running loops -/

/-- What holds of workers and the loops that they have started, whatever threads have done. -/
structure HandsOver (X : Workers) (started : List (WorkerId × LoopId)) : Prop where
  /-- The loop in a slot runs. -/
  running : ∀ k l, X.scheduler.loopOf k = some l → X.scheduler.isRunning l
  /-- Every loop was started by a worker. -/
  known : ∀ l, (X.scheduler.loops.get? l).isSome → ∃ k, (k, l) ∈ started
  /-- At most one of the loops that a worker has started runs. -/
  one : ∀ k l l', (k, l) ∈ started → (k, l') ∈ started → X.scheduler.isRunning l →
    X.scheduler.isRunning l' → l = l'
  /-- A call that answers with a task has queued it in one of its steps, and touched nothing in the
  others. -/
  queued : ∀ (L : Language) k module function args timing t Y own,
    X.Hosts (L := L) (Worker.schedule k module function args timing) Y (pure (.ok t)) own →
    QueuedOnce k t own

theorem Workers.Guarded.one {l' : LoopId} (hX : X.Guarded started) (hl : (k, l) ∈ started)
    (hl' : (k, l') ∈ started) (hruns : X.scheduler.isRunning l) (hruns' : X.scheduler.isRunning l') :
    l = l' := by
  rcases hX.runs k l hl hruns with hslot | hstops
  · rcases hX.runs k l' hl' hruns' with hslot' | hstops'
    · exact Option.some.inj (hslot.symm.trans hslot')
    · obtain ⟨-, hempty, -⟩ := hX.fits _ hstops'
      cases hslot.symm.trans hempty
  · rcases hX.runs k l' hl' hruns' with hslot' | hstops'
    · obtain ⟨-, hempty, -⟩ := hX.fits _ hstops
      cases hslot'.symm.trans hempty
    · -- both would hold the slot
      obtain ⟨first, second, hops⟩ := List.append_of_mem hstops
      by_contra hne
      have hother : Undertaking.stopping k l' ∈ first ++ second := by
        refine mem_others hops (fun heq => ?_) hstops'
        cases heq
        exact absurd rfl hne
      have halone := alone_of_holds (k := k) hX hops (by simp) _ hother
      simp at halone

/-- No worker hands work to a stopped loop. -/
theorem Workers.Runs.handsOver (h : X.Runs started) : HandsOver X started where
  running _ _ := h.guarded.running
  known l hl := by
    obtain ⟨loop, hloop⟩ := Option.isSome_iff_exists.1 hl
    exact (h.guarded.known l).1 (List.getElem?_eq_some_iff.1 hloop).1
  one _ _ _ := h.guarded.one
  queued _ _ _ _ _ _ _ _ _ hhosts := (h.submits hhosts).queued rfl

namespace Workers

def run? (X : Workers) (started : List (WorkerId × LoopId)) :
    List Move → Option (Workers × List (WorkerId × LoopId))
  | [] => some (X, started)
  | m :: rest => (X.move? m).bind fun Y => Y.run? (started ++ X.startedBy Y m) rest

theorem Runs.of_run? {started' : List (WorkerId × LoopId)} {moves : List Move} (hX : X.Runs started)
    (h : X.run? started moves = some (Y, started')) : Y.Runs started' := by
  induction moves generalizing X started with
  | nil =>
    cases h
    exact hX
  | cons m rest ih =>
    obtain ⟨Z, hmove, hrest⟩ := Option.bind_eq_some_iff.1 h
    exact ih (hX.step hmove) hrest

/-- A thread that uses a slot takes a step wherever no move of the others is given, up to its reply. -/
def host? (X : Workers) (stage : SlotStage) : List (Option Move) → Option (Workers × SlotReply)
  | [] => none
  | some m :: rest => (X.move? m).bind fun Y => Y.host? stage rest
  | none :: rest =>
    match stage.advance X.scheduler with
    | .next s stage => host? { X with scheduler := s } stage rest
    | .finished s reply => some ({ X with scheduler := s }, reply)
    | _ => none

theorem Hosts.of_host? {L : Language} {p : Run L (Answer TaskId)} {stage : SlotStage}
    {script : List (Option Move)} {reply : SlotReply} {own : List (Scheduler × Scheduler)} (w : World L)
    (hX : X.Hosts p Y (submitting stage) own) (h : Y.host? stage script = some (Z, reply)) :
    ∃ own', X.Hosts p Z (pure reply.answered) own' := by
  induction script generalizing Y stage own with
  | nil => cases h
  | cons m rest ih =>
    cases m with
    | some m =>
      obtain ⟨V, hmove, hrest⟩ := Option.bind_eq_some_iff.1 h
      exact ih (hX.waits ⟨m, hmove⟩) hrest
    | none =>
      have hown {s : Scheduler} (hmove : (w.withScheduler Y.scheduler).afterStage
          (stage.advance Y.scheduler) = some (w.withScheduler s)) :
          ∃ own', X.Hosts p { Y with scheduler := s }
            ((stage.advance Y.scheduler).rest fun reply => pure reply.answered) own' := by
        have htakes : (submitting stage).Takes (fun _ _ => True) (w.withScheduler Y.scheduler)
            ((stage.advance Y.scheduler).rest fun reply => pure reply.answered)
            (w.withScheduler s) := takes_perform_bind.2 ⟨hmove, rfl⟩
        exact ⟨_, hX.takes rfl htakes⟩
      rw [host?] at h
      cases hstage : stage.advance Y.scheduler with
      | blocked => simp [hstage] at h
      | panicked s text => simp [hstage] at h
      | next s stage' =>
        rw [hstage] at h
        obtain ⟨own', hnext⟩ := hown (s := s) (by rw [hstage]; rfl)
        rw [hstage] at hnext
        exact ih hnext h
      | finished s reply' =>
        rw [hstage] at h
        obtain ⟨own', hnext⟩ := hown (s := s) (by rw [hstage]; rfl)
        rw [hstage] at hnext
        cases h
        exact ⟨own', hnext⟩

end Workers

def sharingWorkers : Workers where
  scheduler := { Scheduler.create 100 with
    counters := ⟨[.create]⟩
    slots := ⟨[⟨none, false, "", 0, .continue⟩, ⟨none, false, "", 0, .continue⟩]⟩ }
  undertakings := []
  services := fun l => .serving (.poll l)
  history := []

theorem fresh_sharingWorkers : sharingWorkers.Fresh where
  slot k slot h := by
    rcases k with _ | _ | k
    · cases h; exact ⟨rfl, rfl⟩
    · cases h; exact ⟨rfl, rfl⟩
    · cases h
  loops := rfl
  undertakings := rfl

/-- The first worker is used and terminated, and the second used; then a terminate of the first begins. -/
def useAndTerminate : List Workers.Move :=
  Workers.Move.use 0 (.enqueue .oneShot 50 0) :: List.replicate 6 (Workers.Move.proceed 0) ++
    Workers.Move.use 0 .terminate :: List.replicate 8 (Workers.Move.proceed 0) ++
    Workers.Move.use 1 (.enqueue .oneShot 50 0) :: List.replicate 6 (Workers.Move.proceed 0) ++
    [Workers.Move.use 0 .terminate]

def silent : Language := ⟨Empty, Empty, Empty, Empty, Empty, Empty, Empty, Unit⟩

/-- A call that schedules comes before the terminate, which waits for the slot, and starts a loop in place of
the one that was stopped; the terminate goes on when the call has answered. -/
theorem useAndTerminate_handsOver : ∃ X Y own, Workers.Runs X [(0, 0), (1, 1)] ∧
    X.scheduler.isRunning 0 = false ∧ X.scheduler.isRunning 1 = true ∧
    X.Hosts (L := silent) (Worker.schedule 0 (.name "job") (.name "run") [] (.every 5)) Y
      (pure (.ok 2)) own ∧
    HandsOver X [(0, 0), (1, 1)] := by
  have hbegun : (sharingWorkers.run? [] useAndTerminate).map (fun p =>
      (p.2, p.1.scheduler.isRunning 0, p.1.scheduler.isRunning 1)) =
      some ([(0, 0), (1, 1)], false, true) := by
    with_unfolding_all rfl
  have hend : ((sharingWorkers.run? [] useAndTerminate).bind fun p =>
      p.1.host? (.acquire 0 (.enqueue (.periodic 5) 5 0))
        [none, some (.pass 1), none, none, some (.serve 1 (.panic none)), none, none, none]).map
      Prod.snd = some (.queued 2) := by
    with_unfolding_all rfl
  obtain ⟨⟨X, started⟩, hX, hbegun⟩ := Option.map_eq_some_iff.1 hbegun
  simp only [Prod.mk.injEq] at hbegun
  obtain ⟨rfl, hstopped, hruns⟩ := hbegun
  rw [hX, Option.bind_some] at hend
  obtain ⟨⟨Y, reply⟩, hY, rfl⟩ := Option.map_eq_some_iff.1 hend
  have hreaches : X.Runs [(0, 0), (1, 1)] := .of_run? (.fresh fresh_sharingWorkers) hX
  let w : World silent := (World.create Files.Tree.empty 0 1 0 ()).withScheduler X.scheduler
  have htakes : (Worker.schedule 0 (.name "job") (.name "run") [] (.every 5)).Takes (fun _ _ => True) w
      (submitting (.acquire 0 (.enqueue (.periodic 5) 5 0)))
      (w.addJob (.invocation 0 (.name "job") (.name "run") [])).2 :=
    Program.takes_step.2 ⟨rfl, rfl⟩
  have hcalled := Workers.Hosts.takes (.begun (X := X)) rfl htakes
  obtain ⟨own, hhosts⟩ := hcalled.of_host? w hY
  exact ⟨X, Y, own, hreaches, hstopped, hruns, hhosts, hreaches.handsOver⟩

end ScriptWorker.Scheduling
