import ScriptWorker.Proofs.Scheduling.Timing

/-!
# Sleep of loop threads

The thread of a loop blocks with an alarm, the first deadline in its queue, or for good if the queue
is empty. Whoever queues a task, takes one out or stops the loop does so first and wakes the thread
afterwards. So a blocked thread has somebody about to wake it, or its alarm is still early enough.
-/

namespace ScriptWorker

open Relation

namespace DelayQueue

variable {α : Type} {q : DelayQueue α}

theorem isEmpty_iff (q : DelayQueue α) : q.isEmpty = true ↔ q.entries = [] := by
  have hlength : q.entries.length = q.size := by
    rw [(perm_entries q).length_eq, SkewHeap.length_elements]
    rfl
  unfold isEmpty
  rw [decide_eq_true_eq, ← hlength, List.length_eq_zero_iff]

theorem Sound.nextDeadline_le (h : q.Sound) {time : Instant} (htime : q.nextDeadline = some time) :
    ∀ entry ∈ q.entries, time ≤ entry.readyAt := by
  rw [nextDeadline_eq] at htime
  obtain ⟨first, hfirst, rfl⟩ := Option.map_eq_some_iff.1 htime
  obtain ⟨rest, hline⟩ : ∃ rest, q.entries = first :: rest := List.head?_eq_some_iff.1 hfirst
  intro entry hentry
  have hahead := h.pairwise
  rw [hline] at hentry hahead
  rcases List.mem_cons.1 hentry with rfl | hentry
  · exact Nat.le_refl _
  · have hbehind := (List.pairwise_cons.1 hahead).1 entry hentry
    simp only [QueueEntry.Ahead, Instant] at hbehind ⊢
    omega

theorem entries_of_nextDeadline_none (h : q.nextDeadline = none) : q.entries = [] := by
  rw [nextDeadline_eq, Option.map_eq_none_iff] at h
  exact List.head?_eq_none_iff.1 h

end DelayQueue

namespace EventLoop

variable {loop loop' : EventLoop} {alarm : Option Instant}

/-- A loop runs, and what its thread waits for comes no later than anything in the queue. -/
structure Watches (loop : EventLoop) (alarm : Option Instant) : Prop where
  running : loop.running = true
  /-- The alarm goes off no later than the earliest deadline. -/
  early : ∀ time ∈ alarm, ∀ entry ∈ loop.queue.entries, time ≤ entry.readyAt
  /-- The thread waits for good only if the queue is empty. -/
  idle : alarm = none → loop.queue.isEmpty = true

theorem watches_nextDeadline (hrunning : loop.running = true) (hsound : loop.queue.Sound) :
    loop.Watches loop.queue.nextDeadline where
  running := hrunning
  early _ htime := hsound.nextDeadline_le htime
  idle hnone := (DelayQueue.isEmpty_iff _).2 (DelayQueue.entries_of_nextDeadline_none hnone)

theorem Watches.thins (h : loop.Watches alarm) (hrunning : loop'.running = loop.running)
    (hsound : loop.queue.Sound) (hthins : loop.queue.Thins loop'.queue) : loop'.Watches alarm := by
  have hmem := (hthins hsound).2
  refine ⟨hrunning.trans h.running, ?early, ?idle⟩
  case early =>
    intro time htime entry hentry
    exact h.early time htime entry (hmem entry hentry)
  case idle =>
    intro hnone
    have hempty := (DelayQueue.isEmpty_iff _).1 (h.idle hnone)
    rw [hempty] at hmem
    apply (DelayQueue.isEmpty_iff _).2
    exact List.eq_nil_iff_forall_not_mem.2 fun entry hentry => List.not_mem_nil (hmem entry hentry)

end EventLoop

namespace Scheduler

variable {s s' : Scheduler} {l l' : LoopId} {t : TaskId} {loop : EventLoop}

theorem loops_transition {source target : TaskState} {moved : Bool}
    (h : s.transition t source target = (moved, s')) : s'.loops = s.loops := by
  have hmodify := transition_snd (s := s) (t := t) source target
  rw [h] at hmodify
  obtain rfl : s' = _ := hmodify
  rfl

/-! ## What lets a thread sleep on -/

def Spares (l : LoopId) (s s' : Scheduler) : Prop :=
  ∀ loop' ∈ s'.loop? l, ∃ loop ∈ s.loop? l, loop'.sleeping = loop.sleeping ∧
    loop'.running = loop.running ∧ loop.queue.Thins loop'.queue

def Awoken (l : LoopId) (s : Scheduler) : Prop := ∀ loop ∈ s.loop? l, loop.sleeping = none

theorem spares_of_row (h : s'.loop? l = s.loop? l) : s.Spares l s' := by
  intro loop hloop
  rw [h] at hloop
  exact ⟨loop, hloop, rfl, rfl, .refl _⟩

theorem spares_of_loops (h : s'.loops = s.loops) : s.Spares l s' :=
  spares_of_row (congrArg (·.get? l) h)

theorem loop?_modifyLoop (f : EventLoop → EventLoop) :
    (s.modifyLoop l' f).loop? l = if l' = l then (s.loop? l).map f else s.loop? l :=
  Table.get?_modify _ _ _ _

theorem spares_notify_of_ne (h : l' ≠ l) : s.Spares l (s.notify l') := by
  apply spares_of_row
  exact (loop?_modifyLoop fun loop => { loop with sleeping := none }).trans (if_neg h)

theorem awoken_notify (s : Scheduler) (l : LoopId) : (s.notify l).Awoken l := by
  intro loop hloop
  have hrow : (s.notify l).loop? l = (s.loop? l).map fun loop => { loop with sleeping := none } :=
    (loop?_modifyLoop fun loop => { loop with sleeping := none }).trans (if_pos rfl)
  rw [hrow] at hloop
  obtain ⟨_, _, rfl⟩ := Option.map_eq_some_iff.1 hloop
  rfl

theorem spares_modifyLoop {f : EventLoop → EventLoop}
    (h : ∀ loop ∈ s.loop? l', (f loop).sleeping = loop.sleeping ∧ (f loop).running = loop.running ∧
      loop.queue.Thins (f loop).queue) : s.Spares l (s.modifyLoop l' f) := by
  intro loop' hloop'
  rw [loop?_modifyLoop] at hloop'
  by_cases hl : l' = l
  · subst hl
    rw [if_pos rfl] at hloop'
    obtain ⟨loop, hloop, rfl⟩ := Option.map_eq_some_iff.1 hloop'
    exact ⟨loop, hloop, h loop hloop⟩
  · rw [if_neg hl] at hloop'
    exact ⟨loop', hloop', rfl, rfl, .refl _⟩

theorem spares_createTask {kind : TaskKind} {job : JobId} : s.Spares l (s.createTask l' kind job).2 := by
  have hspares : s.Spares l (s.modifyLoop l' fun loop => { loop with nextNumber := loop.nextNumber + 1 }) :=
    spares_modifyLoop fun loop _ => ⟨rfl, rfl, .refl loop.queue⟩
  exact hspares

theorem spares_unqueue {removed : Bool} (h : s.unqueue l' t = (removed, s')) : s.Spares l s' := by
  cases hloop : s.loops.get? l' with
  | none =>
    unfold unqueue at h
    rw [hloop] at h
    cases h
    exact spares_of_loops rfl
  | some loop =>
    obtain ⟨_, hunqueue⟩ := unqueue_cases (t := t) hloop
    rw [h] at hunqueue
    obtain ⟨-, rfl⟩ := Prod.mk.inj hunqueue
    apply spares_modifyLoop
    intro row hrow
    obtain rfl : loop = row := Option.some.inj (hloop.symm.trans hrow)
    exact ⟨rfl, rfl, .retain loop.queue fun other => other != t⟩

theorem loops_accept {admission : Admission} {delay : Duration} (h : s.accept l' t delay = (admission, s'))
    (hne : admission ≠ .queued) : s'.loops = s.loops := by
  unfold accept at h
  split at h
  · cases h
    rfl
  · split at h
    · dsimp only at h
      split at h
      · cases h
        rfl
      · cases h
        exact absurd rfl hne
    · cases h
      rfl

theorem poll_blocked (hpoll : s.poll l = (.blocked, s')) : ∃ loop ∈ s.loop? l, loop.running = true ∧
    s'.loop? l = some { loop with sleeping := some loop.queue.nextDeadline } := by
  unfold Scheduler.poll at hpoll
  split at hpoll
  · cases hpoll
  · next loop hloop =>
    by_cases hrunning : loop.running = true
    · rw [if_neg (by simp [hrunning])] at hpoll
      split at hpoll
      · cases hpoll
      · cases hpoll
        refine ⟨loop, hloop, hrunning, ?_⟩
        apply (loop?_modifyLoop fun loop =>
          { loop with sleeping := some loop.queue.nextDeadline }).trans
        rw [if_pos rfl, show s.loop? l = some loop from hloop]
        rfl
    · rw [if_pos (by simp [hrunning])] at hpoll
      cases hpoll

theorem awake_of_watches {alarm : Option Instant} (hloop : s.loop? l = some loop)
    (hsleeping : loop.sleeping = some alarm) (hwatches : loop.Watches alarm)
    {entry : QueueEntry TaskId} (hentry : entry ∈ loop.queue.entries) (hdue : entry.readyAt ≤ s.now) :
    s.awake l = true := by
  unfold awake
  rw [show s.loops.get? l = some loop from hloop]
  dsimp only
  rw [hsleeping]
  cases alarm with
  | none =>
    have hempty := (DelayQueue.isEmpty_iff _).1 (hwatches.idle rfl)
    rw [hempty] at hentry
    cases hentry
  | some time =>
    have hearly := hwatches.early time rfl entry hentry
    exact decide_eq_true (Nat.le_trans hearly hdue)

end Scheduler

namespace Scheduling

open Scheduler

variable {l : LoopId} {own : Option CounterId} {x y : State}

/-! ## Queues stay in order -/

theorem State.Orderly.ages_or_joins (hx : x.Orderly l own) {result : Outcome (Answer Value)}
    {s : Scheduler} {next : Service} (h : x.service.advance l result x.scheduler = some (s, next)) :
    x.scheduler.Ages l s ∨ ∃ t delay, x.scheduler.Joins l t delay s := by
  have hknown (u : TaskId) (hu : (x.service.hand u).count = 1) :
      ∃ state, (x.scheduler.standing l u).state = some state := (hx.sound u).known_of_hand hu
  have hacts := Service.acts h
  generalize x.service = before at hknown hacts
  cases hacts with
  | take hpoll | block hpoll | stop hpoll => exact .inl (ages_poll hpoll)
  | wake => exact .inl ages_notify
  | swap _ hswap => exact .inl (ages_transition hswap)
  | count | settle => exact .inl (ages_modifyTask (fun _ => rfl) fun _ => rfl)
  | fire => exact .inl (.refl _)
  | release => exact .inl ages_decrement
  | overflow hrearm => exact .inl (rearm_ages hrearm (by simp))
  | @rearm t interval rearming _ hrearm hended =>
    cases rearming with
    | queued =>
      obtain ⟨state, hstate⟩ := hknown t (by simp [Service.hand])
      exact .inr ⟨t, interval, ownerOf_eq hstate ▸ rearm_joins hrearm⟩
    | ended => exact .inl (rearm_ages hrearm (by simp))
    | overflow => exact absurd rfl hended

theorem State.Orderly.eachQueued (hx : x.Orderly l own) (h : Step l own x y)
    (hqueue : x.scheduler.EachQueued l fun _ _ => True) : y.scheduler.EachQueued l fun _ _ => True := by
  cases h with
  | elsewhere h =>
    intro q hq
    rw [queueIn, h.loop] at hq
    exact hqueue q hq
  | move m h =>
    cases m with
    | call c =>
      obtain ⟨-, h⟩ := Option.ite_none_right_eq_some.1 h
      cases h
      exact hqueue
    | proceed place =>
      obtain ⟨op, hop, hadvance⟩ := Option.bind_eq_some_iff.1 h
      obtain ⟨⟨s, next⟩, hstep, rfl⟩ := Option.map_eq_some_iff.1 hadvance
      rcases op.ages_or_accepts (l := l) hstep with ⟨hages, -⟩ | ⟨l', t, delay, rfl, haccept⟩
      · exact hqueue.ages hages
      · obtain rfl : l' = l := hx.operations _ (List.mem_of_getElem? hop)
        exact hqueue.joins (accept_joins haccept) trivial
    | serve result =>
      obtain ⟨⟨s, next⟩, hadvance, rfl⟩ := Option.map_eq_some_iff.1 h
      rcases hx.ages_or_joins hadvance with hages | ⟨t, delay, hjoins⟩
      · exact hqueue.ages hages
      · exact hqueue.joins hjoins trivial
    | join t =>
      obtain ⟨answer, -, rfl⟩ := Option.map_eq_some_iff.1 h
      exact hqueue

theorem Started.eachQueued (h : Started l own x) : x.scheduler.EachQueued l fun _ _ => True := by
  obtain ⟨loop, hloop, hqueue, -⟩ := h.loop
  intro q hq
  rw [queueIn, hloop, Option.map_some, hqueue] at hq
  cases hq
  exact ⟨DelayQueue.sound_empty, fun _ _ => trivial⟩

/-! ## Who is about to wake a thread -/

/-- An operation has changed the queue of a loop, or stopped it, and has yet to wake the thread. A cancel
wakes the loop of its task. -/
def Operation.OwesWake (l : LoopId) : Operation → Prop
  | enqueue (.announce l' _) => l' = l
  | cancel _ (.wake ..) => True
  | shutdown (.wake l' _) => l' = l
  | _ => False

/-- The thread of a loop is blocked in its wait, until the alarm if there is one. -/
def State.Asleep (x : State) (l : LoopId) (alarm : Option Instant) : Prop :=
  x.service = .serving (.parked l) ∧ ∃ loop ∈ x.scheduler.loop? l, loop.sleeping = some alarm

theorem State.Orderly.wakes_or_spares (hx : x.Orderly l own) {op : Operation} (hmem : op ∈ x.operations)
    {s : Scheduler} {next : Option Operation} (h : op.advance x.scheduler = some (s, next)) :
    (∃ op' ∈ next, op'.OwesWake l) ∨ s.Awoken l ∨ ¬ op.OwesWake l ∧ x.scheduler.Spares l s := by
  have hon := hx.operations op hmem
  have hnotify (l' : LoopId) :
      (x.scheduler.notify l').Awoken l ∨ l' ≠ l ∧ x.scheduler.Spares l (x.scheduler.notify l') := by
    by_cases hl : l' = l
    · exact .inl (hl ▸ awoken_notify _ _)
    · exact .inr ⟨hl, spares_notify_of_ne hl⟩
  cases Operation.acts h with
  | create => exact .inr (.inr ⟨id, spares_createTask⟩)
  | queue => exact .inl ⟨_, rfl, hon⟩
  | turnDown haccept | overflow haccept =>
    exact .inr (.inr ⟨id, spares_of_loops (loops_accept haccept (by simp))⟩)
  | swap hop hswap =>
    exact .inr (.inr ⟨by cases hop <;> exact id, spares_of_loops (loops_transition hswap)⟩)
  | settle hop => exact .inr (.inr ⟨by cases hop <;> exact id, spares_of_loops rfl⟩)
  | rouse hop =>
    cases hop with
    | announce | shutdown => exact .inr (hnotify _)
    | wake =>
      obtain ⟨rfl, -⟩ := hon
      rw [ownerOf_eq (state_of_claims hx hmem (by simp [Operation.stakes]))]
      exact .inr (.inl (awoken_notify _ _))
  | unqueue => exact .inl ⟨_, rfl, trivial⟩
  | absent hunqueue => exact .inr (.inr ⟨id, spares_unqueue hunqueue⟩)
  | stop => exact .inl ⟨_, rfl, hon⟩
  | release | finish => exact .inr (.inr ⟨id, spares_of_loops rfl⟩)

theorem Service.poll_of_asleep {service : Service} {result : Outcome (Answer Value)} {s s' : Scheduler}
    (hon : service.On l) (h : service.advance l result s = some (s', .serving (.parked l))) :
    s.poll l = (.blocked, s') := by
  cases Service.acts h with
  | block hpoll => exact hpoll
  | @swap _ _ _ _ _ moved _ _ hservice _ hnext => cases moved <;> cases hservice <;> cases hnext
  | count hnext => rcases hnext with hnext | hnext <;> cases hnext
  | release hservice => cases hservice

/-! ## Nobody oversleeps -/

/-- Whenever the thread of a loop is asleep, somebody is about to wake it or its alarm is early enough. -/
structure Alert (l : LoopId) (x : State) : Prop where
  queue : x.scheduler.EachQueued l fun _ _ => True
  asleep : ∀ alarm, x.Asleep l alarm → (∃ op ∈ x.operations, op.OwesWake l) ∨
    ∃ loop ∈ x.scheduler.loop? l, loop.Watches alarm

namespace Alert

variable {alarm : Option Instant}

theorem spares (hx : Alert l x) (hspares : x.scheduler.Spares l y.scheduler)
    (hservice : y.service = x.service) (hwakes : ∀ op ∈ x.operations, op.OwesWake l → op ∈ y.operations)
    (hasleep : y.Asleep l alarm) : (∃ op ∈ y.operations, op.OwesWake l) ∨
      ∃ loop ∈ y.scheduler.loop? l, loop.Watches alarm := by
  obtain ⟨hparked, loop', hloop', hsleeping'⟩ := hasleep
  obtain ⟨loop, hloop, hsleeping, hrunning, hthins⟩ := hspares loop' hloop'
  have hbefore : x.Asleep l alarm :=
    ⟨hservice.symm.trans hparked, loop, hloop, hsleeping.symm.trans hsleeping'⟩
  rcases hx.asleep alarm hbefore with ⟨op, hmem, hop⟩ | ⟨row, hrow, hwatches⟩
  · exact .inl ⟨op, hwakes op hmem hop, hop⟩
  · obtain rfl : loop = row := Option.some.inj (hloop.symm.trans hrow)
    have hqueue : loop.queue ∈ x.scheduler.queueIn l := congrArg (Option.map EventLoop.queue) hloop
    exact .inr ⟨loop', hloop', hwatches.thins hrunning (hx.queue _ hqueue).1 hthins⟩

theorem proceed (hx : Alert l x) (ho : x.Orderly l own) {place : Nat}
    (h : x.move? l own (.proceed place) = some y) (hasleep : y.Asleep l alarm) :
    (∃ op ∈ y.operations, op.OwesWake l) ∨ ∃ loop ∈ y.scheduler.loop? l, loop.Watches alarm := by
  obtain ⟨op, hop, hadvance⟩ := Option.bind_eq_some_iff.1 h
  obtain ⟨⟨s, next⟩, hstep, rfl⟩ := Option.map_eq_some_iff.1 hadvance
  obtain ⟨hlt, hget⟩ := List.getElem?_eq_some_iff.1 hop
  rcases ho.wakes_or_spares (List.mem_of_getElem? hop) hstep with
    ⟨op', rfl, hwakes⟩ | hawoken | ⟨hquiet, hspares⟩
  · exact .inl ⟨op', by simp, hwakes⟩
  · obtain ⟨-, loop, hloop, hsleeping⟩ := hasleep
    rw [hawoken loop hloop] at hsleeping
    cases hsleeping
  · apply hx.spares (y := { x with scheduler := s, operations := _, history := _, replies := _ }) hspares rfl ?_ hasleep
    -- whoever is about to wake the thread is not the one that has moved
    intro other hother hwakes
    rw [← List.take_append_drop place x.operations, List.drop_eq_getElem_cons hlt, hget] at hother
    rcases List.mem_append.1 hother with htake | hdrop
    · exact List.mem_append_left _ htake
    · rcases List.mem_cons.1 hdrop with rfl | hdrop
      · exact absurd hwakes hquiet
      · exact List.mem_append_right _ (List.mem_append_right _ hdrop)

theorem step (hx : Alert l x) (ho : x.Orderly l own) (h : Step l own x y) : Alert l y := by
  refine ⟨ho.eachQueued h hx.queue, fun alarm hasleep => ?_⟩
  cases h with
  | elsewhere h => exact hx.spares (spares_of_row h.loop) rfl (fun _ hop _ => hop) hasleep
  | move m h =>
    cases m with
    | call c =>
      obtain ⟨-, h⟩ := Option.ite_none_right_eq_some.1 h
      cases h
      exact hx.spares (spares_of_row rfl) rfl (fun _ hop _ => List.mem_cons_of_mem _ hop) hasleep
    | proceed place => exact hx.proceed ho h hasleep
    | serve result =>
      obtain ⟨⟨s, next⟩, hadvance, rfl⟩ := Option.map_eq_some_iff.1 h
      obtain ⟨rfl, loop', hloop', hsleeping⟩ := hasleep
      obtain ⟨loop, hloop, hrunning, hrow⟩ := poll_blocked (Service.poll_of_asleep ho.service hadvance)
      obtain rfl : _ = loop' := Option.some.inj (hrow.symm.trans hloop')
      obtain rfl : loop.queue.nextDeadline = alarm := Option.some.inj hsleeping
      have hqueue : loop.queue ∈ x.scheduler.queueIn l := congrArg (Option.map EventLoop.queue) hloop
      have hwatches := EventLoop.watches_nextDeadline hrunning (hx.queue _ hqueue).1
      exact .inr ⟨_, hloop', hwatches.running, hwatches.early, hwatches.idle⟩
    | join t =>
      obtain ⟨answer, -, rfl⟩ := Option.map_eq_some_iff.1 h
      exact hx.spares (spares_of_row rfl) rfl (fun _ hop _ => hop) hasleep

end Alert

theorem Reaches.alert (h : Reaches l own x) : Alert l x := by
  obtain ⟨start, hstart, hsteps⟩ := h
  induction hsteps with
  | refl =>
    refine ⟨hstart.eachQueued, fun alarm hasleep => ?_⟩
    have hservice := hasleep.1
    rw [hstart.service] at hservice
    cases hservice
  | tail hbefore hstep ih => exact ih.step (Reaches.orderly ⟨start, hstart, hbefore⟩) hstep

/-- The thread of a loop never oversleeps: blocked, with nobody about to wake it, it sees a running loop
and waits no longer than until the earliest deadline in the queue. -/
theorem Reaches.watches (h : Reaches l own x) {alarm : Option Instant} (hasleep : x.Asleep l alarm)
    (hquiet : ∀ op ∈ x.operations, ¬ op.OwesWake l) :
    ∃ loop ∈ x.scheduler.loop? l, loop.Watches alarm := by
  rcases h.alert.asleep alarm hasleep with ⟨op, hmem, hwakes⟩ | hwatches
  · exact absurd hwakes (hquiet op hmem)
  · exact hwatches

/-- A loop's thread blocks for good, then until a first task is due, then until a second one that is due
sooner. -/
def sleepsTwice : List Move := [
  .serve (.panic none),
  .call (.enqueue .oneShot 7 0), .proceed 0, .proceed 0, .proceed 0,
  .serve (.panic none), .serve (.panic none),
  .call (.enqueue .oneShot 3 0), .proceed 0, .proceed 0, .proceed 0,
  .serve (.panic none), .serve (.panic none)]

def State.alarms (x : State) : Option LoopId × Option (Option Instant) :=
  (match x.service with
    | .serving (.parked l) => some l
    | _ => none,
    (x.scheduler.loop? 0).bind EventLoop.sleeping)

theorem sleepsTwice_watches : ∃ x, Reaches 0 (some 0) x ∧ x.Asleep 0 (some 3) ∧
    (∀ op ∈ x.operations, ¬ op.OwesWake 0) ∧ ∃ loop ∈ x.scheduler.loop? 0, loop.Watches (some 3) := by
  have hend : ((newLoop .continue).moves? 0 (some 0) sleepsTwice).map (fun x =>
      (x.operations.length, x.alarms)) = some (0, some 0, some (some 3)) := by
    decide +kernel
  obtain ⟨x, hmoves, hx⟩ := Option.map_eq_some_iff.1 hend
  obtain ⟨hnone, halarms⟩ := Prod.mk.inj hx
  obtain ⟨hparked, hsleeping⟩ := Prod.mk.inj halarms
  have hreaches := reaches_of_moves? hmoves
  have hservice : x.service = .serving (.parked 0) := by
    split at hparked
    · next hservice =>
      cases hparked
      exact hservice
    · cases hparked
  have hasleep : x.Asleep 0 (some 3) := ⟨hservice, Option.bind_eq_some_iff.1 hsleeping⟩
  have hquiet : ∀ op ∈ x.operations, ¬ op.OwesWake 0 := by
    intro op hop
    rw [List.length_eq_zero_iff.1 hnone] at hop
    cases hop
  exact ⟨x, hreaches, hasleep, hquiet, hreaches.watches hasleep hquiet⟩

/-- Between the second task's joining the queue and the call that wakes the thread, the alarm is late. -/
example : ((newLoop .continue).moves? 0 (some 0) (sleepsTwice.take 10)).map (fun x =>
    (x.alarms, (x.scheduler.loop? 0).bind fun loop => loop.queue.nextDeadline)) =
    some ((some 0, some (some 7)), some 3) := by
  decide +kernel

/-- As soon as something in the queue is due, a blocked thread is about to be woken or can go on by
itself. -/
theorem Reaches.rouses (h : Reaches l own x) {alarm : Option Instant} (hasleep : x.Asleep l alarm)
    {loop : EventLoop} (hloop : x.scheduler.loop? l = some loop) {entry : QueueEntry TaskId}
    (hentry : entry ∈ loop.queue.entries) (hdue : entry.readyAt ≤ x.scheduler.now) :
    (∃ op ∈ x.operations, op.OwesWake l) ∨
      ∀ result, x.service.advance l result x.scheduler =
        some (x.scheduler.notify l, .serving (.poll l)) := by
  rcases h.alert.asleep alarm hasleep with hwakes | ⟨row, hrow, hwatches⟩
  · exact .inl hwakes
  · right
    intro result
    obtain ⟨hservice, row', hrow', hsleeping⟩ := hasleep
    obtain rfl : loop = row := Option.some.inj (hloop.symm.trans hrow)
    obtain rfl : loop = row' := Option.some.inj (hloop.symm.trans hrow')
    have hawake := awake_of_watches hloop hsleeping hwatches hentry hdue
    rw [hservice]
    simp only [Service.advance, Serve.advance, hawake, if_true]

end Scheduling

end ScriptWorker
