import ScriptWorker.Proofs.Scheduling.Releases
import ScriptWorker.Proofs.Scheduling.Sleeping

/-!
# Deadlines past the horizon

A deadline past the last point of time is a panic. Whoever hands a task to a loop with such a delay has
taken a slot for it by then, and the loop's thread that is to queue a periodic task again is past all
that would contain the panic: it ends, while its loop counts as running and the others stay in the queue.
Any other delay leaves a loop as it should be.
-/

namespace ScriptWorker

namespace Scheduler

variable {s : Scheduler} {l : LoopId} {t : TaskId} {loop : EventLoop} {state : TaskState}

theorem later?_eq_some {delay : Duration} (h : s.now + delay ≤ s.horizon) :
    s.later? delay = some (s.now + delay) := if_pos h

theorem later?_eq_none {delay : Duration} (h : s.horizon < s.now + delay) : s.later? delay = none :=
  if_neg (Nat.not_le.2 h)

theorem accept_eq (h : s.loop? l = some loop) (delay : Duration) :
    s.accept l t delay =
      if loop.running = false then (.stopped, s)
      else if s.now + delay ≤ s.horizon then
        (.queued, (s.increment loop.counter).withQueue l (loop.queue.push (s.now + delay) t))
      else (.overflow, s.increment loop.counter) := by
  unfold accept
  rw [show s.loops.get? l = some loop from h]
  cases hrunning : loop.running with
  | false => simp [hrunning]
  | true =>
    have hlater : (s.increment loop.counter).later? delay = s.later? delay := rfl
    by_cases hdeadline : s.now + delay ≤ s.horizon
    · simp [hrunning, hlater, later?_eq_some hdeadline, hdeadline]
    · simp [hrunning, hlater, later?_eq_none (Nat.not_le.1 hdeadline), hdeadline]

theorem rearm_eq (h : s.loop? l = some loop) (hrunning : loop.running = true)
    (hstate : (s.standing l t).state = some .running) (interval : Duration) :
    s.rearm t interval =
      if s.now + interval ≤ s.horizon then
        (.queued, (s.setState t .pending).withQueue l (loop.queue.push (s.now + interval) t))
      else (.overflow, s.setState t .pending) := by
  obtain ⟨task, -, hget, howner, -⟩ := get?_of_standing hstate
  have hlater : (s.setState t .pending).later? interval = s.later? interval := rfl
  unfold rearm
  rw [hget]
  dsimp only
  rw [howner, show s.loops.get? l = some loop from h]
  dsimp only
  rw [hrunning, transition_eq hstate]
  by_cases hdeadline : s.now + interval ≤ s.horizon
  · simp [hlater, later?_eq_some hdeadline, hdeadline]
  · simp [hlater, later?_eq_none (Nat.not_le.1 hdeadline), hdeadline]

end Scheduler

namespace Scheduling

open Relation Scheduler

variable {l : LoopId} {own : Option CounterId} {x y z : State} {t : TaskId}

/-! ## What is over for good -/

theorem Account.Step.stopped {a b : Account} (h : a.Step b) (ha : a.running = false) :
    b.running = false := by
  cases h with
  | drain => rfl
  | _ => exact ha

theorem Account.Sound.queued_eq_zero_of_overflowed {a : Account} (ha : a.Sound)
    (h : 0 < a.overflowed) (hpending : a.state = some .pending) : a.queued = 0 := by
  have hplace := (ha.pending_of hpending).place
  omega

theorem State.Orderly.stopped (hx : x.Orderly l own) (hsteps : ReflTransGen (Step l own) x z)
    (h : x.scheduler.isRunning l = false) : z.scheduler.isRunning l = false := by
  have hkeeps := keeps_account (P := fun a => a.running = false) (t := 0)
    (fun _ _ hstep _ ha => hstep.stopped ha) hx hsteps
  exact hkeeps h

theorem ended_of_steps (hsteps : ReflTransGen (Step l own) x z) (h : x.service = .stopped) :
    z.service = .stopped ∧ z.results = x.results := by
  induction hsteps with
  | refl => exact ⟨h, rfl⟩
  | @tail y z _ hstep ih =>
    obtain ⟨hservice, hresults⟩ := ih
    cases hstep with
    | elsewhere _ => exact ⟨hservice, hresults⟩
    | move m hmove =>
      cases m with
      | call c =>
        obtain ⟨-, hmove⟩ := Option.ite_none_right_eq_some.1 hmove
        cases hmove
        exact ⟨hservice, hresults⟩
      | proceed place =>
        obtain ⟨op, -, hadvance⟩ := Option.bind_eq_some_iff.1 hmove
        obtain ⟨_, -, rfl⟩ := Option.map_eq_some_iff.1 hadvance
        exact ⟨hservice, hresults⟩
      | serve result =>
        obtain ⟨_, hadvance, -⟩ := Option.map_eq_some_iff.1 hmove
        rw [hservice] at hadvance
        cases hadvance
      | join u =>
        obtain ⟨_, -, rfl⟩ := Option.map_eq_some_iff.1 hmove
        exact ⟨hservice, hresults⟩

/-! ## Handing tasks to a loop -/

/-- What becomes of a task that is handed to a loop. -/
inductive Admits (l : LoopId) (t : TaskId) (delay : Duration) (place : Nat) (x y : State) : Prop
  | queued (loop : EventLoop) : x.scheduler.loop? l = some loop → loop.running = true →
    x.scheduler.now + delay ≤ x.scheduler.horizon →
    y.scheduler = (x.scheduler.increment loop.counter).withQueue l
      (loop.queue.push (x.scheduler.now + delay) t) →
    y.operations = x.operations.set place (.enqueue (.announce l t)) → Admits l t delay place x y
  | refused : x.scheduler.isRunning l = false → y.scheduler = x.scheduler →
    y.operations = x.operations.set place (.enqueue (.refuse t)) → Admits l t delay place x y
  /-- It has no deadline: the slot is taken, the task is not queued, and nobody is given its handle. -/
  | lost (loop : EventLoop) : x.scheduler.loop? l = some loop → loop.running = true →
    x.scheduler.horizon < x.scheduler.now + delay →
    y.scheduler = x.scheduler.increment loop.counter → y.operations = x.operations.eraseIdx place →
    t ∉ y.scheduler.queueOf l → Admits l t delay place x y

theorem State.Orderly.admits (hx : x.Orderly l own) {delay : Duration} {place : Nat}
    (hop : x.operations[place]? = some (.enqueue (.accept l t delay)))
    (h : x.move? l own (.proceed place) = some y) : Admits l t delay place x y := by
  have hy : y.Orderly l own := hx.step (.move _ h)
  have hset (op : Operation) : x.operations.take place ++ (op :: x.operations.drop (place + 1)) =
      x.operations.set place op :=
    (List.set_eq_take_append_cons_drop.trans
      (if_pos (List.getElem?_eq_some_iff.1 hop).1)).symm
  obtain ⟨loop, hloop⟩ := hx.exists_loop
  have haccept := accept_eq (t := t) hloop delay
  simp only [State.move?, hop, Option.bind_some] at h
  by_cases hrunning : loop.running = false
  · rw [if_pos hrunning] at haccept
    simp only [Operation.advance, Enqueue.advance, haccept, afterStep, Option.map_some,
      Option.toList_some, List.singleton_append, hset, Option.some.injEq] at h
    subst h
    have hstopped : x.scheduler.isRunning l = false := (standing_running (u := t) hloop).trans hrunning
    exact .refused hstopped rfl rfl
  · rw [if_neg hrunning] at haccept
    by_cases hdeadline : x.scheduler.now + delay ≤ x.scheduler.horizon
    · rw [if_pos hdeadline] at haccept
      simp only [Operation.advance, Enqueue.advance, haccept, afterStep, Option.map_some,
        Option.toList_some, List.singleton_append, hset, Option.some.injEq] at h
      subst h
      exact .queued loop hloop (by simpa using hrunning) hdeadline rfl rfl
    · rw [if_neg hdeadline] at haccept
      have hstate : (x.account l t).state = some .pending := by
        obtain ⟨others, hshare⟩ := exists_share (List.mem_of_getElem? hop) t
        apply (hx.sound t).state_of_offers
        simp [State.account, hshare, Operation.stakes, Stakes.add_eq]
      simp only [Operation.advance, Enqueue.advance, haccept, afterStep, Option.map_some,
        Option.toList_none, List.nil_append, Operation.events, Option.some.injEq,
        ← List.eraseIdx_eq_take_drop_succ] at h
      subst h
      have hlost : t ∉ (x.scheduler.increment loop.counter).queueOf l := by
        have hzero := (hy.sound t).queued_eq_zero_of_overflowed (by simp [State.account, tally]) hstate
        apply List.count_eq_zero.1
        rw [← queued_eq]
        exact hzero
      exact .lost loop hloop (by simpa using hrunning) (Nat.not_le.1 hdeadline) rfl rfl hlost

/-! ## Queueing a periodic task again -/

/-- What becomes of a loop's thread that is to queue a periodic task again. -/
inductive Resumes (l : LoopId) (own : Option CounterId) (t : TaskId) (interval : Duration) (x y : State) :
    Prop
  | resumed : x.scheduler.isRunning l = false ∨ (x.scheduler.standing l t).state ≠ some .running ∨
      x.scheduler.now + interval ≤ x.scheduler.horizon →
    y.service = .serving (.poll l) →
    (∀ u, (x.scheduler.queueOf l).count u ≤ (y.scheduler.queueOf l).count u) → Resumes l own t interval x y
  /-- There is no such deadline: the thread ends for good, the loop counts as running, and the others
  stay in the queue. -/
  | ended : x.scheduler.isRunning l = true → (x.scheduler.standing l t).state = some .running →
    x.scheduler.horizon < x.scheduler.now + interval →
    y.scheduler.isRunning l = true → y.scheduler.queueOf l = x.scheduler.queueOf l →
    (∀ z, ReflTransGen (Step l own) y z → z.service = .stopped ∧ z.results = y.results) →
    Resumes l own t interval x y

theorem count_queueOf_push {s : Scheduler} {loop : EventLoop} (h : s.loop? l = some loop)
    (deadline : Instant) (u : TaskId) :
    (s.queueOf l).count u ≤ ((s.withQueue l (loop.queue.push deadline t)).queueOf l).count u := by
  have hpush := standing_push (s := s) (l := l) (t := t) (u := u) h deadline
  rw [← queued_eq, ← queued_eq]
  have hqueued : (s.withQueue l (loop.queue.push deadline t)).queued l u =
      (s.queued l u) + if t = u then 1 else 0 := congrArg Standing.queued hpush
  omega

theorem State.Orderly.resumes (hx : x.Orderly l own) {interval : Duration}
    {result : Outcome (Answer Value)} (hservice : x.service = .concluding (.rearm t interval))
    (h : x.move? l own (.serve result) = some y) : Resumes l own t interval x y := by
  obtain ⟨loop, hloop⟩ := hx.exists_loop
  have hruns : x.scheduler.isRunning l = loop.running := standing_running (u := t) hloop
  obtain ⟨state, hstate⟩ := (hx.sound t).known_of_hand (by simp [State.account, hservice, Service.hand])
  simp only [State.move?, hservice, Service.advance, Conclude.advance] at h
  by_cases hrunning : loop.running = true ∧ state = .running
  · obtain ⟨hrunning, rfl⟩ := hrunning
    have hrearm := rearm_eq hloop hrunning hstate interval
    by_cases hdeadline : x.scheduler.now + interval ≤ x.scheduler.horizon
    · rw [if_pos hdeadline] at hrearm
      simp only [hrearm, Option.map_some, Option.some.injEq] at h
      subst h
      apply Resumes.resumed (.inr (.inr hdeadline)) rfl
      intro u
      exact count_queueOf_push (s := x.scheduler.setState t .pending) hloop _ u
    · rw [if_neg hdeadline] at hrearm
      simp only [hrearm, Option.map_some, Option.some.injEq] at h
      subst h
      refine .ended (hruns.trans hrunning) hstate (Nat.not_le.1 hdeadline) (hruns.trans hrunning) rfl ?_
      intro z hsteps
      exact ended_of_steps hsteps rfl
  · -- the task is not to be queued again
    have hended : ∃ s, x.scheduler.rearm t interval = (.ended, s) ∧ s.loops = x.scheduler.loops := by
      rcases rearm_cases hloop hstate interval with
        ⟨hrearm, -⟩ | ⟨hrearm, -⟩ | ⟨-, hyes, hstate'⟩ | ⟨-, hyes, hstate', -⟩
      · refine ⟨_, hrearm, ?_⟩
        rw [discardNow_eq hstate]
        split <;> rfl
      · exact ⟨_, hrearm, rfl⟩
      · exact absurd ⟨hyes, hstate'⟩ hrunning
      · exact absurd ⟨hyes, hstate'⟩ hrunning
    obtain ⟨s, hrearm, hloops⟩ := hended
    simp only [hrearm, Option.map_some, Option.some.injEq] at h
    subst h
    refine .resumed ?_ rfl fun u => ?_
    · by_cases hstopped : loop.running = true
      · right
        left
        intro hsame
        exact hrunning ⟨hstopped, Option.some.inj (hstate.symm.trans hsame)⟩
      · exact .inl (hruns.trans (by simpa using hstopped))
    · rw [show s.queueOf l = x.scheduler.queueOf l by unfold queueOf; rw [hloops]]

/-! ## Whatever threads do -/

/-- A thread was to queue a task again, on a loop that ran, with a deadline past the horizon. -/
def Overran (l : LoopId) (own : Option CounterId) (x : State) : Prop :=
  ∃ w t interval, Reaches l own w ∧ ReflTransGen (Step l own) w x ∧
    w.service = .concluding (.rearm t interval) ∧ w.scheduler.isRunning l = true ∧
    w.scheduler.horizon < w.scheduler.now + interval

theorem Service.stops {service : Service} {result : Outcome (Answer Value)} {s s' : Scheduler}
    (hon : service.On l) (h : service.advance l result s = some (s', .stopped)) :
    s.isRunning l = false ∧ s' = s ∨
      ∃ t interval, service = .concluding (.rearm t interval) ∧ (s.rearm t interval).1 = .overflow := by
  cases Service.acts h with
  | @stop l' _ hpoll =>
    obtain rfl : l' = l := hon
    left
    cases hloop : s.loops.get? l' with
    | none =>
      have hstopped : s.poll l' = (.stopped, s) := by
        unfold Scheduler.poll
        rw [hloop]
      rw [hstopped] at hpoll
      cases hpoll
      exact ⟨by unfold isRunning; rw [hloop], rfl⟩
    | some loop =>
      have hruns : s.isRunning l' = loop.running := standing_running (u := 0) hloop
      rcases poll_cases hloop with ⟨hstopped, hrunning⟩ | ⟨_, _, -, -, hready⟩ | hblocked
      · rw [hstopped] at hpoll
        cases hpoll
        exact ⟨hruns.trans hrunning, rfl⟩
      · rw [hready] at hpoll
        cases hpoll
      · rw [hblocked] at hpoll
        cases hpoll
  | overflow hrearm => exact .inr ⟨_, _, rfl, congrArg Prod.fst hrearm⟩
  | @swap _ _ _ _ _ moved _ _ hservice _ hnext => cases moved <;> cases hservice <;> cases hnext
  | count hnext => rcases hnext with hnext | hnext <;> cases hnext
  | release hservice => cases hservice

theorem State.Orderly.overran_of_overflow (hx : x.Orderly l own) (hreaches : Reaches l own x)
    {interval : Duration} (hservice : x.service = .concluding (.rearm t interval))
    (h : (x.scheduler.rearm t interval).1 = .overflow) : Overran l own x := by
  obtain ⟨loop, hloop⟩ := hx.exists_loop
  obtain ⟨state, hstate⟩ := (hx.sound t).known_of_hand (by simp [State.account, hservice, Service.hand])
  have hruns : x.scheduler.isRunning l = loop.running := standing_running (u := t) hloop
  rcases rearm_cases hloop hstate interval with
    ⟨hrearm, -⟩ | ⟨hrearm, -⟩ | ⟨hrearm, hrunning, rfl⟩ | ⟨_, -, -, hrearm⟩
  · rw [hrearm] at h; cases h
  · rw [hrearm] at h; cases h
  · refine ⟨x, t, interval, hreaches, .refl, hservice, hruns.trans hrunning, ?_⟩
    by_contra hdeadline
    rw [rearm_eq hloop hrunning hstate, if_pos (Nat.not_lt.1 hdeadline)] at hrearm
    cases hrearm
  · rw [hrearm] at h; cases h

theorem Reaches.stopped_or_overran (h : Reaches l own x) (hservice : x.service = .stopped) :
    x.scheduler.isRunning l = false ∨ Overran l own x := by
  obtain ⟨start, hstart, hsteps⟩ := h
  induction hsteps with
  | refl =>
    rw [hstart.service] at hservice
    cases hservice
  | @tail y z hbefore hstep ih =>
    have hreaches : Reaches l own y := ⟨start, hstart, hbefore⟩
    have hlast : ReflTransGen (Step l own) y z := .single hstep
    by_cases hended : y.service = .stopped
    · rcases ih hended with hstopped | ⟨w, t, interval, hw, hsteps, hrest⟩
      · exact .inl (hreaches.orderly.stopped hlast hstopped)
      · exact .inr ⟨w, t, interval, hw, hsteps.trans hlast, hrest⟩
    · cases hstep with
      | elsewhere _ => exact absurd hservice hended
      | move m hmove =>
        cases m with
        | call c =>
          obtain ⟨-, hmove⟩ := Option.ite_none_right_eq_some.1 hmove
          cases hmove
          exact absurd hservice hended
        | proceed place =>
          obtain ⟨op, -, hadvance⟩ := Option.bind_eq_some_iff.1 hmove
          obtain ⟨_, -, rfl⟩ := Option.map_eq_some_iff.1 hadvance
          exact absurd hservice hended
        | serve result =>
          obtain ⟨⟨s, next⟩, hadvance, rfl⟩ := Option.map_eq_some_iff.1 hmove
          obtain rfl : next = .stopped := hservice
          rcases Service.stops hreaches.orderly.service hadvance with
            ⟨hstopped, rfl⟩ | ⟨t, interval, hrearm, hoverflow⟩
          · exact .inl hstopped
          · obtain ⟨w, u, length, hw, hsteps, hrest⟩ :=
              hreaches.orderly.overran_of_overflow hreaches hrearm hoverflow
            exact .inr ⟨w, u, length, hw, hsteps.trans hlast, hrest⟩
        | join u =>
          obtain ⟨_, -, rfl⟩ := Option.map_eq_some_iff.1 hmove
          exact absurd hservice hended

/-- How a loop stands to delays and intervals of any length. -/
structure Endures (l : LoopId) (own : Option CounterId) (x : State) : Prop where
  /-- A slot is taken without a task in the queue just when the deadline lies past the horizon. -/
  admits : ∀ t delay place y, x.operations[place]? = some (.enqueue (.accept l t delay)) →
    x.move? l own (.proceed place) = some y → Admits l t delay place x y
  /-- After a firing the thread goes on, unless the next deadline lies past the horizon. -/
  resumes : ∀ t interval result y, x.service = .concluding (.rearm t interval) →
    x.move? l own (.serve result) = some y → Resumes l own t interval x y
  /-- The thread of a running loop has ended only by a deadline past the horizon. -/
  ended : x.service = .stopped → x.scheduler.isRunning l = true → Overran l own x

/-- Whatever threads do, delays and intervals leave a loop as it should be as long as the deadlines that
they lead to can be represented, and just so long. -/
theorem Reaches.endures (h : Reaches l own x) : Endures l own x where
  admits _ _ _ _ hop hmove := h.orderly.admits hop hmove
  resumes _ _ _ _ hservice hmove := h.orderly.resumes hservice hmove
  ended hservice hrunning := by
    rcases h.stopped_or_overran hservice with hstopped | hoverran
    · rw [hrunning] at hstopped
      cases hstopped
    · exact hoverran

/-- Two tasks come to be queued and a third one has no deadline. Then the first one fires, and its interval
leads past the horizon. -/
def pastHorizon : List Move := [
  .call (.enqueue (.periodic 200) 0 0), .proceed 0, .proceed 0, .proceed 0,
  .call (.enqueue .oneShot 5 0), .proceed 0, .proceed 0, .proceed 0,
  .call (.enqueue .oneShot 101 0), .proceed 0, .proceed 0,
  .serve (.panic none), .serve (.panic none), .serve (.panic none), .serve (.panic none),
  .serve (.panic none)]

theorem pastHorizon_endures : ∃ x, Reaches 0 (some 0) x ∧ x.service = .stopped ∧
    x.scheduler.isRunning 0 = true ∧ x.scheduler.queueOf 0 = [1] ∧ x.scheduler.count 0 = 3 ∧
    Endures 0 (some 0) x := by
  have hend : ((newLoop .continue).moves? 0 (some 0) pastHorizon).map (fun x =>
      (match x.service with
        | .stopped => true
        | _ => false,
        x.scheduler.isRunning 0, x.scheduler.queueOf 0, x.scheduler.count 0)) =
      some (true, true, [1], 3) := by
    decide +kernel
  obtain ⟨x, hmoves, hx⟩ := Option.map_eq_some_iff.1 hend
  obtain ⟨hservice, hrest⟩ := Prod.mk.inj hx
  obtain ⟨hrunning, hrest⟩ := Prod.mk.inj hrest
  obtain ⟨hqueue, hcount⟩ := Prod.mk.inj hrest
  have hstopped : x.service = .stopped := by
    split at hservice
    · assumption
    · cases hservice
  have hreaches := reaches_of_moves? hmoves
  exact ⟨x, hreaches, hstopped, hrunning, hqueue, hcount, hreaches.endures⟩

end Scheduling

end ScriptWorker
