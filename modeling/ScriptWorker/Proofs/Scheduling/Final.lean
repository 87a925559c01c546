import ScriptWorker.Proofs.Scheduling.Waiting

/-!
# Shutdown is final

A loop is stopped in the step that empties its queue, and whoever would queue a task looks in the same
step whether the loop runs. So nothing comes into the queue of a stopped loop, whatever threads do. Its
thread can start one more task, which it took before; and a shutdown that has returned leaves all that it
took out cancelled.
-/

namespace ScriptWorker.Scheduling

open Relation Scheduler

variable {l : LoopId} {own : Option CounterId} {x y z : State} {t : TaskId}

/-! ## Following one thread -/

/-- An operation that some thread is midway in, among all that goes on: it takes its next step, or
something else happens. After it has returned anything may happen. -/
inductive Follows (l : LoopId) (own : Option CounterId) :
    State × Option Operation → State × Option Operation → Prop
  | proceeds {x y : State} {op : Operation} {place : Nat} {s : Scheduler} {next : Option Operation} :
    x.operations[place]? = some op → op.advance x.scheduler = some (s, next) →
    x.move? l own (.proceed place) = some y → Follows l own (x, some op) (y, next)
  | waits {x y : State} {op : Operation} : op ∈ x.operations → op ∈ y.operations → Step l own x y →
    Follows l own (x, some op) (y, some op)
  | returned {x y : State} : Step l own x y → Follows l own (x, none) (y, none)

namespace Follows

variable {o p : Option Operation}

theorem step (h : Follows l own (x, o) (y, p)) : Step l own x y := by
  cases h with
  | proceeds _ _ hmove => exact .move _ hmove
  | waits _ _ hstep => exact hstep
  | returned hstep => exact hstep

theorem steps (h : ReflTransGen (Follows l own) (x, o) (y, p)) : ReflTransGen (Step l own) x y :=
  h.lift Prod.fst fun _ _ => step

theorem of_proceeds {op : Operation} {place : Nat} {s : Scheduler} {next : Option Operation}
    (hget : x.operations[place]? = some op) (hadvance : op.advance x.scheduler = some (s, next))
    (hmove : x.move? l own (.proceed place) = some y) :
    op ∈ x.operations ∧ y.scheduler = s ∧ ∀ op' ∈ next, op' ∈ y.operations := by
  simp only [State.move?, hget, Option.bind_some, hadvance, Option.map_some] at hmove
  cases hmove
  refine ⟨List.mem_of_getElem? hget, rfl, fun op' hop' => ?_⟩
  cases hop'
  simp

end Follows

/-! ## A loop that was stopped -/

structure State.Closed (x : State) (l : LoopId) : Prop where
  stopped : x.scheduler.isRunning l = false
  empty : x.scheduler.queueOf l = []

namespace Account

variable {a b : Account}

structure Closed (a : Account) : Prop where
  stopped : a.running = false
  queued : a.queued = 0

theorem Step.closed (h : Step a b) (ha : a.Closed) : b.Closed := by
  obtain ⟨hstopped, hqueued⟩ := ha
  cases h with
  | accept _ hrunning => simp [hstopped] at hrunning
  | rearm _ _ hrunning => simp [hstopped] at hrunning
  | take hpos => omega
  | unqueue => exact ⟨hstopped, rfl⟩
  | drain => exact ⟨rfl, rfl⟩
  | _ => exact ⟨hstopped, hqueued⟩

theorem Step.rearmed (h : Step a b) (ha : a.Closed) (hknown : a.state ≠ none)
    (hstate : a.state ≠ some .pending) : b.state ≠ some .pending := by
  have hstopped := ha.stopped
  cases h with
  | create _ _ hnone => exact absurd hnone hknown
  | rearm _ _ hrunning => simp [hstopped] at hrunning
  | loseRunning _ _ hrunning => simp [hstopped] at hrunning
  | refuse => simp
  | cancel => simp
  | cancelRunning => simp
  | discard => simp
  | start => simp
  | complete => simp
  | halt => simp
  | drop => simp
  | _ => exact hstate

theorem Step.unstarted (h : Step a b) (ha : a.Closed) (hhand : a.hand ≠ .taken) :
    b.hand ≠ .taken ∧ b.started = a.started := by
  have hqueued := ha.queued
  cases h with
  | take hpos => omega
  | start htaken => exact absurd htaken hhand
  | skip => simp
  | finish => simp
  | fire => simp
  | releaseOneShot => simp
  | complete => simp
  | halt => simp
  | leave => simp
  | releaseHalted => simp
  | conclude => simp
  | rearm => simp
  | loseRunning => simp
  | drop => simp
  | _ => exact ⟨hhand, rfl⟩

theorem Sound.hand_of_queued (ha : a.Sound) (h : 0 < a.queued) : a.hand ≠ .taken := by
  intro hhand
  rcases ha.state_of_queued h with hstate | hstate
  · have hplace := (ha.pending_of hstate).place
    simp only [hhand, Hand.count] at hplace
    omega
  · have hplace := (ha.cancelled_of hstate).place
    simp only [hhand, Hand.count] at hplace
    omega

end Account

theorem closed_iff : x.Closed l ↔ ∀ t, (x.account l t).Closed := by
  constructor
  · intro ⟨hstopped, hempty⟩ t
    refine ⟨hstopped, ?_⟩
    change x.scheduler.queued l t = 0
    rw [queued_eq, hempty]
    rfl
  · intro h
    refine ⟨(h 0).stopped, List.eq_nil_iff_forall_not_mem.2 fun t => ?_⟩
    rw [← List.count_eq_zero, ← queued_eq]
    exact (h t).queued

theorem State.Closed.steps (hclosed : x.Closed l) (hx : x.Orderly l own)
    (h : ReflTransGen (Step l own) x y) : y.Closed l :=
  closed_iff.2 fun t => keeps_account (P := Account.Closed) (fun _ _ hstep _ => hstep.closed) hx h
    (closed_iff.1 hclosed t)

theorem closed_stop (hx : x.Orderly l own) : (x.scheduler.stop l).1.Perm (x.scheduler.queueOf l) ∧
    (x.scheduler.stop l).2.isRunning l = false ∧ (x.scheduler.stop l).2.queueOf l = [] := by
  obtain ⟨loop, hloop⟩ := hx.exists_loop
  rw [stop_eq hloop]
  unfold isRunning queueOf modifyLoop
  simp only [Table.get?_modify, if_true, hloop, Option.map_some, DelayQueue.items_drain, and_self,
    and_true]
  exact DelayQueue.perm_drain _

theorem Follows.drain {drained : List TaskId} (hx : x.Orderly l own)
    (h : Follows l own (x, some (.shutdown (.stop l))) (y, some (.shutdown (.wake l drained)))) :
    y.Closed l ∧ drained.Perm (x.scheduler.queueOf l) := by
  cases h with
  | proceeds hget hadvance hmove =>
    obtain ⟨-, hs, -⟩ := of_proceeds hget hadvance hmove
    change some ((x.scheduler.stop l).2,
      some (Operation.shutdown (.wake l (x.scheduler.stop l).1))) = some (_, _) at hadvance
    obtain ⟨hstop, hnext⟩ := Prod.mk.inj (Option.some.inj hadvance)
    obtain rfl : (x.scheduler.stop l).1 = drained := by simpa using hnext
    obtain ⟨hperm, hstopped, hempty⟩ := closed_stop hx
    rw [hstop, ← hs] at hstopped hempty
    exact ⟨⟨hstopped, hempty⟩, hperm⟩

/-! ## What a stopped loop answers -/

theorem accept_closed (hclosed : x.Closed l) (delay : Duration) :
    x.scheduler.accept l t delay = (.stopped, x.scheduler) := by
  have hstopped := hclosed.stopped
  unfold isRunning at hstopped
  unfold accept
  cases hloop : x.scheduler.loops.get? l with
  | none => rfl
  | some loop => simp_all

theorem rearm_closed {task : Task} (hclosed : x.Closed l) (htask : x.scheduler.taskIn l t = some task)
    (interval : Duration) :
    x.scheduler.rearm t interval = (.ended, x.scheduler.discardNow t) ∨
      x.scheduler.rearm t interval = (.ended, x.scheduler) := by
  have hstopped := hclosed.stopped
  obtain ⟨hget, howner⟩ := get?_of_taskIn htask
  unfold isRunning at hstopped
  unfold rearm
  rw [hget]
  dsimp only
  rw [howner]
  cases hloop : x.scheduler.loops.get? l with
  | none => exact .inr rfl
  | some loop => simp_all

/-! ## New tasks -/

/-- An enqueue goes on and comes nearer to its end, or gives out the handle of a cancelled task; it
leaves every counter. -/
inductive Refuses (l : LoopId) (s : Scheduler) (stage : Enqueue) : Prop
  | goesOn (s' : Scheduler) (next : Enqueue) : stage.advance s = .next s' next →
    s'.counters = s.counters → next.rank < stage.rank → Refuses l s stage
  | returns (s' : Scheduler) (t : TaskId) : stage.advance s = .finished s' t →
    s'.counters = s.counters → s'.isIn l .cancelled t → Refuses l s stage

def Unaccepted (l : LoopId) : Enqueue → Prop
  | .create l' .. => l' = l
  | .accept l' .. => l' = l
  | .refuse _ => True
  | .refuseSettle _ => True
  | .announce .. => False
  | .refuseRunning _ => False

theorem refuses_of_unaccepted {stage : Enqueue} (hx : x.Orderly l own) (hclosed : x.Closed l)
    (hmem : .enqueue stage ∈ x.operations) (hstage : Unaccepted l stage) :
    Refuses l x.scheduler stage ∧
      ∀ s next, stage.advance x.scheduler = .next s next → Unaccepted l next := by
  cases stage with
  | create l' kind delay job =>
    refine ⟨.goesOn _ _ rfl (sameBooks_createTask l' kind job).counters (by simp [Enqueue.rank]), ?_⟩
    intro s next hnext
    cases hnext
    exact hstage
  | accept l' u delay =>
    obtain rfl : l' = l := hstage
    have hnext : (Enqueue.accept l' u delay).advance x.scheduler = .next x.scheduler (.refuse u) := by
      simp only [Enqueue.advance, accept_closed hclosed]
    refine ⟨.goesOn _ _ hnext rfl (by simp [Enqueue.rank]), ?_⟩
    intro s next h
    rw [hnext] at h
    cases h
    trivial
  | refuse u =>
    have htransition := transition_eq (state_of_refuse hx hmem) .pending .cancelled
    rw [if_pos rfl] at htransition
    have hnext : (Enqueue.refuse u).advance x.scheduler =
        .next (x.scheduler.setState u .cancelled) (.refuseSettle u) := by
      simp only [Enqueue.advance, htransition]
    refine ⟨.goesOn _ _ hnext rfl (by simp [Enqueue.rank]), ?_⟩
    intro s next h
    rw [hnext] at h
    cases h
    trivial
  | refuseSettle u =>
    have hstate := state_of_settling hx (u := u) hmem (by simp [Operation.stakes])
    refine ⟨.returns _ u rfl rfl ?_, fun s next h => by cases h⟩
    rw [isIn_iff, standing_settleCancelled hstate]
    exact hstate
  | announce l' u => exact hstage.elim
  | refuseRunning u => exact hstage.elim

theorem unaccepted_of_follows {kind : TaskKind} {delay : Duration} {job : JobId} {stage : Enqueue}
    (hx : x.Orderly l own) (hclosed : x.Closed l)
    (hmem : .enqueue (.create l kind delay job) ∈ x.operations)
    (h : ReflTransGen (Follows l own) (x, some (.enqueue (.create l kind delay job)))
      (y, some (.enqueue stage))) :
    .enqueue stage ∈ y.operations ∧ Unaccepted l stage := by
  have hall : ∀ p : State × Option Operation,
      ReflTransGen (Follows l own) (x, some (.enqueue (.create l kind delay job))) p →
      ∀ op ∈ p.2, ∃ stage, op = .enqueue stage ∧ op ∈ p.1.operations ∧ Unaccepted l stage := by
    intro p hp
    induction hp with
    | refl =>
      intro op hop
      cases hop
      exact ⟨_, rfl, hmem, rfl⟩
    | @tail p q hsteps hstep ih =>
      have hp := hx.steps (Follows.steps hsteps)
      have hshut := hclosed.steps hx (Follows.steps hsteps)
      cases hstep with
      | @proceeds v _ op _ s next hget hadvance hmove =>
        obtain ⟨hmid, -, hnext⟩ := Follows.of_proceeds hget hadvance hmove
        obtain ⟨stage, rfl, -, hstage⟩ := ih op rfl
        obtain ⟨-, hunaccepted⟩ := refuses_of_unaccepted hp hshut hmid hstage
        intro op hop
        cases hop
        have hop := hnext _ rfl
        cases hprogress : stage.advance v.scheduler with
        | next s' next' =>
          simp only [Operation.advance, hprogress, afterStep] at hadvance
          cases hadvance
          exact ⟨next', rfl, hop, hunaccepted _ _ hprogress⟩
        | _ => simp only [Operation.advance, hprogress, afterStep] at hadvance; cases hadvance
      | waits _ hmid _ =>
        intro op hop
        obtain ⟨stage, hop', -, hstage⟩ := ih op hop
        cases hop
        exact ⟨stage, hop', hmid, hstage⟩
      | returned =>
        intro op hop
        cases hop
  obtain ⟨stage', hop, hmid, hstage⟩ := hall _ h _ rfl
  cases hop
  exact ⟨hmid, hstage⟩

/-! ## Tasks that were taken out -/

def Operation.rest : Operation → List TaskId
  | shutdown (.wake _ rest) => rest
  | shutdown (.discard rest _) => rest
  | shutdown (.discardRunning _ rest _) => rest
  | shutdown (.settle _ rest _) => rest
  | _ => []

theorem discards {op : Operation} {s : Scheduler} {next : Option Operation} (hx : x.Orderly l own)
    (hmem : op ∈ x.operations) (hadvance : op.advance x.scheduler = some (s, next))
    (ht : t ∈ op.rest) : s.isIn l .cancelled t ∨ ∃ op' ∈ next, t ∈ op'.rest := by
  cases op with
  | enqueue stage => cases ht
  | cancel u stage => cases ht
  | shutdown stage =>
    cases stage with
    | stop l' => cases ht
    | wake l' rest =>
      cases hadvance
      exact .inr ⟨_, rfl, ht⟩
    | discard rest dropped =>
      cases rest with
      | nil => cases ht
      | cons u rest =>
        rcases state_of_drained hx (u := u) hmem (by simp [Operation.stakes]) with hstate | hstate
        · have htransition := transition_eq hstate .pending .cancelled
          rw [if_pos rfl] at htransition
          simp only [Operation.advance, Shutdown.advance, htransition, afterStep] at hadvance
          cases hadvance
          rcases List.mem_cons.1 ht with rfl | ht
          · left
            rw [isIn_iff, standing_setState hstate]
            rfl
          · exact .inr ⟨_, rfl, ht⟩
        · have htransition := transition_eq hstate .pending .cancelled
          rw [if_neg (by simp)] at htransition
          simp only [Operation.advance, Shutdown.advance, htransition, afterStep] at hadvance
          cases hadvance
          rcases List.mem_cons.1 ht with rfl | ht
          · exact .inl (isIn_iff.2 hstate)
          · exact .inr ⟨_, rfl, ht⟩
    | discardRunning u rest dropped =>
      simp only [Operation.advance, Shutdown.advance] at hadvance
      split at hadvance <;> cases hadvance <;> exact .inr ⟨_, rfl, ht⟩
    | settle u rest dropped =>
      cases hadvance
      exact .inr ⟨_, rfl, ht⟩

theorem cancelled_steps (hx : x.Orderly l own) (h : ReflTransGen (Step l own) x y)
    (ht : x.scheduler.isIn l .cancelled t) : y.scheduler.isIn l .cancelled t :=
  isIn_iff.2 (keeps_account (P := fun a => a.state = some .cancelled)
    (fun _ _ hstep ha hstate => hstep.terminal ha hstate rfl) hx h (isIn_iff.1 ht))

theorem discarded_of_follows {drained : List TaskId} {o : Option Operation} (hx : x.Orderly l own)
    (h : ReflTransGen (Follows l own) (x, some (.shutdown (.wake l drained))) (y, o))
    (ht : t ∈ drained) : y.scheduler.isIn l .cancelled t ∨ ∃ op ∈ o, t ∈ op.rest := by
  have hall : ∀ p : State × Option Operation,
      ReflTransGen (Follows l own) (x, some (.shutdown (.wake l drained))) p →
      p.1.scheduler.isIn l .cancelled t ∨ ∃ op ∈ p.2, t ∈ op.rest := by
    intro p hp
    induction hp with
    | refl => exact .inr ⟨_, rfl, ht⟩
    | @tail p q hsteps hstep ih =>
      have hp := hx.steps (Follows.steps hsteps)
      rcases ih with hcancelled | ⟨op, hop, hrest⟩
      · exact .inl (cancelled_steps hp (.single hstep.step) hcancelled)
      · cases hstep with
        | proceeds hget hadvance hmove =>
          obtain ⟨hmid, hs, -⟩ := Follows.of_proceeds hget hadvance hmove
          cases hop
          rw [hs]
          exact discards hp hmid hadvance hrest
        | waits => exact .inr ⟨op, hop, hrest⟩
        | returned => cases hop
  exact hall _ h

/-! ## Firings -/

def Event.started? : Event → Option TaskId
  | started t => some t
  | _ => none

def startedTasks (history : List Event) : List TaskId := history.filterMap Event.started?

def Service.taken? : Service → Option TaskId
  | starting (.swap t) => some t
  | _ => none

theorem startedTasks_append (first second : List Event) :
    startedTasks (first ++ second) = startedTasks first ++ startedTasks second :=
  List.filterMap_append

theorem startedTasks_operation (op : Operation) (s : Scheduler) : startedTasks (op.events s) = [] := by
  unfold Operation.events
  split <;> (try split) <;> rfl

theorem startedTasks_service (service : Service) (s : Scheduler) :
    startedTasks (service.events s) = [] ∨
      ∃ t, service.taken? = some t ∧ startedTasks (service.events s) = [t] := by
  unfold Service.events
  split
  · next t =>
    split
    · exact .inr ⟨t, rfl, rfl⟩
    · exact .inl rfl
  · exact .inl rfl
  · exact .inl rfl
  · left
    split
    · rfl
    · split
      · rfl
      · split <;> rfl
  · exact .inl rfl

theorem taken?_of_closed {result : Outcome (Answer Value)} {s : Scheduler} {next : Service}
    (hx : x.Orderly l own) (hclosed : x.Closed l)
    (h : x.service.advance l result x.scheduler = some (s, next)) : next.taken? = none := by
  have hon := hx.service
  have hacts := Service.acts h
  generalize x.service = before at hon hacts
  cases hacts with
  | @take l' _ _ hpoll =>
    obtain rfl : l' = l := hon
    obtain ⟨loop, hloop⟩ := hx.exists_loop
    have hstopped : loop.running = false := (standing_running (u := 0) hloop).symm.trans hclosed.stopped
    unfold Scheduler.poll at hpoll
    simp [hloop, hstopped] at hpoll
  | swap hservice _ hnext =>
    subst hnext
    split
    · cases hservice <;> rfl
    · rfl
  | count hnext => rcases hnext with rfl | rfl <;> rfl
  | release hservice => cases hservice <;> rfl
  | block | stop | wake | fire | settle | rearm | overflow => rfl

theorem Step.starts (h : Step l own x y) (hx : x.Orderly l own) (hclosed : x.Closed l) :
    y.service.taken? = x.service.taken? ∧ startedTasks y.history = startedTasks x.history ∨
      y.service.taken? = none ∧ (startedTasks y.history = startedTasks x.history ∨
        ∃ t, x.service.taken? = some t ∧ startedTasks y.history = startedTasks x.history ++ [t]) := by
  cases h with
  | elsewhere => exact .inl ⟨rfl, rfl⟩
  | move m h =>
    cases m with
    | call c =>
      obtain ⟨-, h⟩ := Option.ite_none_right_eq_some.1 h
      cases h
      exact .inl ⟨rfl, rfl⟩
    | proceed place =>
      obtain ⟨op, -, hadvance⟩ := Option.bind_eq_some_iff.1 h
      obtain ⟨_, -, rfl⟩ := Option.map_eq_some_iff.1 hadvance
      refine .inl ⟨rfl, ?_⟩
      rw [startedTasks_append, startedTasks_operation, List.append_nil]
    | serve result =>
      obtain ⟨⟨s, next⟩, hadvance, rfl⟩ := Option.map_eq_some_iff.1 h
      refine .inr ⟨taken?_of_closed hx hclosed hadvance, ?_⟩
      rw [startedTasks_append]
      rcases startedTasks_service x.service x.scheduler with hnone | ⟨t, htaken, hone⟩
      · exact .inl (by rw [hnone, List.append_nil])
      · exact .inr ⟨t, htaken, by rw [hone]⟩
    | join u =>
      obtain ⟨_, -, rfl⟩ := Option.map_eq_some_iff.1 h
      exact .inl ⟨rfl, rfl⟩

theorem eq_swap_of_taken? {service : Service} (h : service.taken? = some t) :
    service = .starting (.swap t) := by
  unfold Service.taken? at h
  split at h <;> cases h
  rfl

/-- After a loop was stopped one more firing starts at most. -/
theorem starts_steps (hx : x.Orderly l own) (hclosed : x.Closed l)
    (h : ReflTransGen (Step l own) x y) :
    startedTasks y.history = startedTasks x.history ∨
      ∃ t, x.service = .starting (.swap t) ∧
        startedTasks y.history = startedTasks x.history ++ [t] := by
  have hall : y.service.taken? = x.service.taken? ∧ startedTasks y.history = startedTasks x.history ∨
      y.service.taken? = none ∧ (startedTasks y.history = startedTasks x.history ∨
        ∃ t, x.service.taken? = some t ∧
          startedTasks y.history = startedTasks x.history ++ [t]) := by
    induction h with
    | refl => exact .inl ⟨rfl, rfl⟩
    | tail hsteps hstep ih =>
      have hlast := hstep.starts (hx.steps hsteps) (hclosed.steps hx hsteps)
      rcases ih with ⟨htaken, hsame⟩ | ⟨htaken, hstarted⟩
      · rwa [htaken, hsame] at hlast
      · rw [htaken] at hlast
        rcases hlast with ⟨hnone, hsame⟩ | ⟨hnone, hsame | ⟨t, hnot, -⟩⟩
        · exact .inr ⟨hnone, by rwa [hsame]⟩
        · exact .inr ⟨hnone, by rwa [hsame]⟩
        · cases hnot
  rcases hall with ⟨-, hsame⟩ | ⟨-, hsame | ⟨t, htaken, hone⟩⟩
  · exact .inl hsame
  · exact .inl hsame
  · exact .inr ⟨t, eq_swap_of_taken? htaken, hone⟩

/-! ## Shutdown -/

/-- A call of shutdown that has returned in `z`: it stopped the loop in the step from `x` to `y`. -/
structure Shut (l : LoopId) (own : Option CounterId) (x y z : State) : Prop where
  call : ∃ drained,
    Follows l own (x, some (.shutdown (.stop l))) (y, some (.shutdown (.wake l drained))) ∧
    ReflTransGen (Follows l own) (y, some (.shutdown (.wake l drained))) (z, none)

/-- What holds for good after a shutdown that stopped a loop in the step from `x` to `y` and returned in
`z`. -/
structure Final (l : LoopId) (own : Option CounterId) (x y z : State) : Prop where
  /-- The loop does not run and its queue is empty. -/
  closed : ∀ w, ReflTransGen (Step l own) y w → w.Closed l
  returned : ReflTransGen (Step l own) y z
  /-- The queue takes no task. -/
  unqueued : ∀ w, ReflTransGen (Step l own) y w → ∀ t delay,
    w.scheduler.accept l t delay = (.stopped, w.scheduler)
  /-- The end of a firing queues no next one. -/
  ended : ∀ w, ReflTransGen (Step l own) y w → ∀ t task interval,
    w.scheduler.taskIn l t = some task → (w.scheduler.rearm t interval).1 = .ended
  /-- No task becomes pending again. -/
  rearmed : ∀ v w, ReflTransGen (Step l own) y v → ReflTransGen (Step l own) v w → ∀ t task,
    v.scheduler.taskIn l t = some task → task.state ≠ .pending → ¬w.scheduler.isIn l .pending t
  /-- Whoever then begins to enqueue a task is given one that is cancelled, and no counter changes. -/
  refused : ∀ v w, ReflTransGen (Step l own) y v → ∀ kind delay job stage,
    .enqueue (.create l kind delay job) ∈ v.operations →
    ReflTransGen (Follows l own) (v, some (.enqueue (.create l kind delay job)))
      (w, some (.enqueue stage)) → Refuses l w.scheduler stage
  /-- Every task that was queued is cancelled when the shutdown has returned. -/
  discarded : ∀ t ∈ x.scheduler.queueOf l, ∀ w, ReflTransGen (Step l own) z w →
    w.scheduler.isIn l .cancelled t
  /-- None of them is started from when it was taken out. -/
  unstarted : ∀ t ∈ x.scheduler.queueOf l, ∀ w, ReflTransGen (Step l own) y w →
    w.history.count (.started t) = x.history.count (.started t)
  /-- One firing at most starts, of the task that the loop's thread had taken. -/
  last : ∀ w, ReflTransGen (Step l own) y w → startedTasks w.history = startedTasks x.history ∨
    ∃ t, x.service = .starting (.swap t) ∧
      startedTasks w.history = startedTasks x.history ++ [t]

theorem Follows.same {drained : List TaskId}
    (h : Follows l own (x, some (.shutdown (.stop l))) (y, some (.shutdown (.wake l drained)))) :
    y.service = x.service ∧ y.history = x.history := by
  cases h with
  | proceeds hget hadvance hmove =>
    simp only [State.move?, hget, Option.bind_some, hadvance, Option.map_some] at hmove
    cases hmove
    exact ⟨rfl, List.append_nil _⟩

/-- Whatever threads do, a loop that was shut is done with. -/
theorem Reaches.final (hx : Reaches l own x) (h : Shut l own x y z) : Final l own x y z := by
  obtain ⟨drained, hdrain, hreturn⟩ := h.call
  obtain ⟨hclosed, hperm⟩ := hdrain.drain hx.orderly
  obtain ⟨hservice, hhistory⟩ := hdrain.same
  have hy : y.Orderly l own := hx.orderly.step hdrain.step
  have hreturned := Follows.steps hreturn
  constructor
  case closed => exact fun w hw => hclosed.steps hy hw
  case returned => exact hreturned
  case unqueued => exact fun w hw t delay => accept_closed (hclosed.steps hy hw) delay
  case ended =>
    intro w hw t task interval htask
    rcases rearm_closed (hclosed.steps hy hw) htask interval with hrearm | hrearm <;> rw [hrearm]
  case rearmed =>
    intro v w hv hw t task htask hstate hpending
    obtain ⟨hknown, -⟩ := account_of_task htask
    have hclosed := closed_iff.1 (hclosed.steps hy hv) t
    refine (keeps_account (P := fun a => a.Closed ∧ a.state ≠ none ∧ a.state ≠ some .pending) ?_
      (hy.steps hv) hw ⟨hclosed, by simp [hknown], by simpa [hknown] using hstate⟩).2.2
      (isIn_iff.1 hpending)
    rintro a b hstep - ⟨hshut, hsome, hnot⟩
    exact ⟨hstep.closed hshut, hstep.known hsome, hstep.rearmed hshut hsome hnot⟩
  case refused =>
    intro v w hv kind delay job stage hmem hw
    have hv' := hy.steps hv
    have hw' := Follows.steps hw
    obtain ⟨hmid, hstage⟩ := unaccepted_of_follows hv' (hclosed.steps hy hv) hmem hw
    exact (refuses_of_unaccepted (hv'.steps hw') (hclosed.steps hy (hv.trans hw')) hmid hstage).1
  case discarded =>
    intro t ht w hw
    refine cancelled_steps (hy.steps hreturned) hw ?_
    rcases discarded_of_follows hy hreturn (hperm.mem_iff.2 ht) with hcancelled | ⟨_, hop, -⟩
    · exact hcancelled
    · cases hop
  case unstarted =>
    intro t ht w hw
    have hqueued : 0 < (x.account l t).queued := by
      change 0 < x.scheduler.queued l t
      rw [queued_eq]
      exact List.count_pos_iff.2 ht
    have hhand : (y.account l t).hand ≠ .taken := by
      simp only [State.account, hservice]
      exact (hx.orderly.sound t).hand_of_queued hqueued
    have hkept := keeps_account
      (P := fun a => a.Closed ∧ a.hand ≠ .taken ∧ a.started = y.history.count (.started t)) ?_
      hy hw ⟨closed_iff.1 hclosed t, hhand, rfl⟩
    · rw [← hhistory]
      exact hkept.2.2
    · rintro a b hstep - ⟨hshut, hnot, hsame⟩
      obtain ⟨hnot', hsame'⟩ := hstep.unstarted hshut hnot
      exact ⟨hstep.closed hshut, hnot', hsame'.trans hsame⟩
  case last =>
    intro w hw
    rw [← hservice, ← hhistory]
    exact starts_steps hy hclosed hw

theorem follows_of_move? {m : Move} (h : x.move? l own m = some y) (hone : x.operations.length ≤ 1)
    (hm : m = .proceed 0 ∨ ∃ result, m = .serve result) :
    Follows l own (x, x.operations.head?) (y, y.operations.head?) ∧ y.operations.length ≤ 1 := by
  rcases hm with rfl | ⟨result, rfl⟩
  · obtain ⟨op, hop, hadvance⟩ := Option.bind_eq_some_iff.1 h
    obtain ⟨⟨s, next⟩, hstep, hy⟩ := Option.map_eq_some_iff.1 hadvance
    have hops : x.operations = [op] := by
      match hlist : x.operations, hone with
      | [], _ => simp [hlist] at hop
      | [_], _ => simpa [hlist] using hop
    have hnext : y.operations = next.toList := by
      rw [← hy]
      simp [hops]
    rw [hnext, hops, Option.head?_toList]
    exact ⟨.proceeds hop hstep h, by cases next <;> simp⟩
  · obtain ⟨_, -, hy⟩ := Option.map_eq_some_iff.1 h
    have hsame : y.operations = x.operations := by rw [← hy]
    rw [hsame]
    refine ⟨?_, hone⟩
    cases hhead : x.operations.head? with
    | none => exact .returned (.move _ h)
    | some op =>
      have hmem := List.mem_of_head? hhead
      exact .waits hmem (hsame ▸ hmem) (.move _ h)

theorem follows_of_moves? {moves : List Move} (h : x.moves? l own moves = some y)
    (hone : x.operations.length ≤ 1)
    (hmoves : ∀ m ∈ moves, m = .proceed 0 ∨ ∃ result, m = .serve result) :
    ReflTransGen (Follows l own) (x, x.operations.head?) (y, y.operations.head?) := by
  induction moves generalizing x with
  | nil =>
    cases h
    exact .refl
  | cons m rest ih =>
    obtain ⟨v, hmove, hrest⟩ := Option.bind_eq_some_iff.1 h
    obtain ⟨hm, hmoves⟩ := List.forall_mem_cons.1 hmoves
    obtain ⟨hfirst, hlength⟩ := follows_of_move? hmove hone hm
    exact (ih hrest hlength hmoves).head hfirst

def takeAndShut : List Move := [
  .call (.enqueue .oneShot 0 0), .proceed 0, .proceed 0, .proceed 0,
  .call (.enqueue (.periodic 5) 3 0), .proceed 0, .proceed 0, .proceed 0,
  .serve (.panic none), .call .shutdown]

def shutToEnd : List Move := [
  .proceed 0, .serve (.panic none), .proceed 0, .serve (.panic none), .proceed 0, .proceed 0]

theorem takeAndShut_final : ∃ x y z, Reaches 0 (some 0) x ∧ Shut 0 (some 0) x y z ∧
    x.service = .starting (.swap 0) ∧ x.scheduler.queueOf 0 = [1] ∧ startedTasks z.history = [0] ∧
    Final 0 (some 0) x y z := by
  have hstart : ((newLoop .continue).moves? 0 (some 0) takeAndShut).map (fun x =>
      (x.operations, x.service, x.scheduler.queueOf 0)) =
      some ([.shutdown (.stop 0)], .starting (.swap 0), [1]) := by
    with_unfolding_all rfl
  have hend : ((newLoop .continue).moves? 0 (some 0) takeAndShut).bind (fun x =>
      (x.move? 0 (some 0) (.proceed 0)).bind fun y => (y.moves? 0 (some 0) shutToEnd).map fun z =>
        (y.operations, z.operations, startedTasks z.history)) =
      some ([.shutdown (.wake 0 [1])], [], [0]) := by
    with_unfolding_all rfl
  obtain ⟨x, hx, hstart⟩ := Option.map_eq_some_iff.1 hstart
  rw [hx, Option.bind_some] at hend
  obtain ⟨y, hy, hend⟩ := Option.bind_eq_some_iff.1 hend
  obtain ⟨z, hz, hend⟩ := Option.map_eq_some_iff.1 hend
  simp only [Prod.mk.injEq] at hstart hend
  obtain ⟨hbegun, hservice, hqueue⟩ := hstart
  obtain ⟨hdrained, hnone, hstarted⟩ := hend
  obtain ⟨hdrain, hone⟩ := follows_of_move? hy (by simp [hbegun]) (.inl rfl)
  have hreturn := follows_of_moves? hz hone (by simp [shutToEnd])
  rw [hbegun, hdrained] at hdrain
  rw [hdrained, hnone] at hreturn
  have hreaches := reaches_of_moves? hx
  have hshut : Shut 0 (some 0) x y z := ⟨[1], hdrain, hreturn⟩
  exact ⟨x, y, z, hreaches, hshut, hservice, hqueue, hstarted, hreaches.final hshut⟩

end ScriptWorker.Scheduling
