import ScriptWorker.Proofs.Scheduling.Aging
import ScriptWorker.Proofs.Scheduling.Waiting

/-!
# When tasks start

Threads move on a loop while its clock goes on. Notes are taken of when a task is registered, taken out
of the queue and started, and of when each of its firings ends. A task that waits in the queue has a
deadline that lies its delay after its registration, and its interval after the end of every firing that
it has had; the loop's thread takes the first in line when that is due, and starts nothing else.
-/

namespace ScriptWorker

deriving instance DecidableEq for QueueEntry

/-- The entries in the queue of a loop, in the order in which they come out. -/
def Scheduler.lineOf (s : Scheduler) (l : LoopId) : List (QueueEntry TaskId) :=
  (s.queueIn l).elim [] DelayQueue.entries

namespace Scheduling

open Relation Scheduler

inductive Note where
  | registered (task : TaskId) (time : Instant) (kind : TaskKind) (delay : Duration)
  /-- The task was taken out of the queue; the line is as it was found, the task included. -/
  | taken (task : TaskId) (time : Instant) (line : List (QueueEntry TaskId))
  | started (task : TaskId) (time : Instant)
  | ended (task : TaskId) (time : Instant)
  deriving DecidableEq

namespace Note

def task : Note → TaskId
  | registered t .. | taken t .. | started t _ | ended t _ => t

def isRegistration : Note → Bool
  | registered .. => true
  | _ => false

theorem registered_ne {n : Note} {t : TaskId} {r : Instant} {kind : TaskKind} {delay : Duration}
    (h : n.task ≠ t ∨ ¬ n.isRegistration) : registered t r kind delay ≠ n := by
  rintro rfl
  exact h.elim (· rfl) (· rfl)

theorem mem_of_snoc {notes : List Note} {m n : Note} (hm : m ∈ notes ++ [n]) (hne : m ≠ n) : m ∈ notes :=
  (List.mem_append.1 hm).resolve_right fun hm => hne (List.mem_singleton.1 hm)

theorem split_snoc {notes before since : List Note} {m n : Note}
    (h : notes ++ [n] = before ++ m :: since) :
    before = notes ∧ m = n ∨ ∃ since', since = since' ++ [n] ∧ notes = before ++ m :: since' := by
  rcases List.eq_nil_or_concat since with rfl | ⟨since', last, rfl⟩
  · obtain ⟨hinit, hlast⟩ := List.append_inj' h rfl
    exact .inl ⟨hinit.symm, (List.cons.inj hlast).1.symm⟩
  · rw [List.concat_eq_append, ← List.cons_append, ← List.append_assoc] at h
    obtain ⟨hinit, hlast⟩ := List.append_inj' h rfl
    cases hlast
    exact .inr ⟨since', List.concat_eq_append, hinit⟩

end Note

def Operation.notes (s : Scheduler) : Operation → List Note
  | enqueue (.accept l t delay) =>
    match (s.accept l t delay).1 with
    | .queued => [.registered t s.now (s.kindOf t) delay]
    | _ => []
  | _ => []

def Service.notes (s : Scheduler) : Service → List Note
  | serving (.poll l) =>
    match (s.poll l).1 with
    | .ready t => [.taken t s.now (s.lineOf l)]
    | _ => []
  | starting (.swap t) => if (s.transition t .pending .running).1 then [.started t s.now] else []
  | firing t => [.ended t s.now]
  | _ => []

def Move.notes (x : State) : Move → List Note
  | .proceed place => x.operations[place]?.elim [] (Operation.notes x.scheduler)
  | .serve _ => x.service.notes x.scheduler
  | .call _ | .join _ => []

/-- Threads on a loop, and what was noted of their steps. -/
structure Timed where
  state : State
  notes : List Note

namespace Timed

def elsewhere (x : Timed) (s : Scheduler) : Timed := { x with state := { x.state with scheduler := s } }

/-- A thread takes a step, which is noted, or whoever has nothing to do with the loop does. The clock
never goes back. -/
inductive Step (l : LoopId) (own : Option CounterId) : Timed → Timed → Prop
  | move {x : Timed} {y : State} (m : Move) : x.state.move? l own m = some y →
    Step l own x ⟨y, x.notes ++ m.notes x.state⟩
  | elsewhere {x : Timed} {s : Scheduler} : x.state.scheduler.Elsewhere l own s →
    x.state.scheduler.now ≤ s.now → Step l own x (x.elsewhere s)

def Reaches (l : LoopId) (own : Option CounterId) (x : Timed) : Prop :=
  ∃ start, Started l own start ∧ ReflTransGen (Step l own) ⟨start, []⟩ x

theorem Step.step {l : LoopId} {own : Option CounterId} {x y : Timed} (h : Step l own x y) :
    Scheduling.Step l own x.state y.state := by
  cases h with
  | move m h => exact .move m h
  | elsewhere h _ => exact .elsewhere h

inductive Turn where
  | move (m : Move)
  | pass (time : Duration)

def turn? (l : LoopId) (own : Option CounterId) (x : Timed) : Turn → Option Timed
  | .move m => (x.state.move? l own m).map fun y => ⟨y, x.notes ++ m.notes x.state⟩
  | .pass time => some (x.elsewhere { x.state.scheduler with now := x.state.scheduler.now + time })

def turns? (l : LoopId) (own : Option CounterId) (x : Timed) : List Turn → Option Timed
  | [] => some x
  | turn :: rest => (x.turn? l own turn).bind fun y => y.turns? l own rest

theorem step_of_turn? {l : LoopId} {own : Option CounterId} {x y : Timed} {turn : Turn}
    (h : x.turn? l own turn = some y) : Step l own x y := by
  cases turn with
  | move m =>
    obtain ⟨z, hmove, rfl⟩ := Option.map_eq_some_iff.1 h
    exact .move m hmove
  | pass time =>
    cases h
    exact .elsewhere ⟨rfl, fun _ => rfl, fun _ _ => rfl⟩ (Nat.le_add_right ..)

theorem steps_of_turns? {l : LoopId} {own : Option CounterId} {x y : Timed} {turns : List Turn}
    (h : x.turns? l own turns = some y) : ReflTransGen (Step l own) x y := by
  induction turns generalizing x with
  | nil =>
    cases h
    exact .refl
  | cons turn rest ih =>
    obtain ⟨z, hturn, hrest⟩ := Option.bind_eq_some_iff.1 h
    exact (ih hrest).head (step_of_turn? hturn)

end Timed

/-! ## Deadlines -/

section

variable {l : LoopId} {own : Option CounterId} {notes : List Note} {n : Note} {t u : TaskId}
  {time : Instant}

/-- A point of time lies the delay of a task after its registration, and the interval of a periodic task
after every end of a firing. -/
structure Due (notes : List Note) (t : TaskId) (time : Instant) : Prop where
  registered : ∃ r kind delay, .registered t r kind delay ∈ notes
  delay : ∀ r kind delay, .registered t r kind delay ∈ notes → r + delay ≤ time
  interval : ∀ r interval delay e, .registered t r (.periodic interval) delay ∈ notes →
    .ended t e ∈ notes → e + interval ≤ time

/-- Every firing of a task that was started has ended since. -/
def Rested (notes : List Note) (t : TaskId) : Prop :=
  ∀ earlier time since, notes = earlier ++ .started t time :: since → ∃ e, .ended t e ∈ since

/-- A task was the first in line and due when it was taken out of the queue, and the loop's thread has
done nothing since. -/
def Fetched (notes : List Note) (t : TaskId) : Prop :=
  ∃ earlier time entry rest since, notes = earlier ++ .taken t time (entry :: rest) :: since ∧
    entry.item = t ∧ entry.readyAt ≤ time ∧ (∀ e ∈ rest, entry.Ahead e) ∧
    ∀ n ∈ since, n.isRegistration

/-- What holds of a firing that starts at some time, after what was noted before. -/
structure Timely (notes before : List Note) (t : TaskId) (time : Instant) : Prop where
  registered : ∃ r kind delay, .registered t r kind delay ∈ before
  /-- The task does not start before its delay has passed since it was registered. -/
  delay : ∀ r kind delay, .registered t r kind delay ∈ notes → r + delay ≤ time
  /-- All earlier firings of the task have ended. -/
  rested : Rested before t
  /-- A periodic task does not start before its interval has passed since each of them. -/
  interval : ∀ r interval delay e, .registered t r (.periodic interval) delay ∈ notes →
    .ended t e ∈ before → e + interval ≤ time
  /-- The task was first in line, ahead of everything that was queued. -/
  fetched : Fetched before t

theorem Due.later {time' : Instant} (h : Due notes t time) (hle : time ≤ time') : Due notes t time' where
  registered := h.registered
  delay r kind delay hr := Nat.le_trans (h.delay r kind delay hr) hle
  interval r i delay e hr he := Nat.le_trans (h.interval r i delay e hr he) hle

theorem Due.note (h : Due notes t time) (hne : n.task ≠ t ∨ ¬ n.isRegistration ∧ ∀ e, .ended t e ≠ n) :
    Due (notes ++ [n]) t time where
  registered := by
    obtain ⟨r, kind, delay, hr⟩ := h.registered
    exact ⟨r, kind, delay, List.mem_append_left _ hr⟩
  delay r kind delay hr :=
    h.delay r kind delay (Note.mem_of_snoc hr (Note.registered_ne (hne.imp_right And.left)))
  interval r i delay e hr he := by
    refine h.interval r i delay e
      (Note.mem_of_snoc hr (Note.registered_ne (hne.imp_right And.left))) (Note.mem_of_snoc he ?_)
    rintro rfl
    exact hne.elim (· rfl) fun h => h.2 e rfl

theorem Rested.note (h : Rested notes t) (hne : ∀ time, .started t time ≠ n) : Rested (notes ++ [n]) t := by
  intro earlier time since hsplit
  rcases Note.split_snoc hsplit with ⟨-, hn⟩ | ⟨since', rfl, hold⟩
  · exact absurd hn (hne time)
  · obtain ⟨e, he⟩ := h earlier time since' hold
    exact ⟨e, List.mem_append_left _ he⟩

theorem rested_ended (notes : List Note) (t : TaskId) (e : Instant) : Rested (notes ++ [.ended t e]) t := by
  intro earlier time since hsplit
  rcases Note.split_snoc hsplit with ⟨-, hn⟩ | ⟨since', rfl, -⟩
  · cases hn
  · exact ⟨e, List.mem_append_right _ (List.mem_singleton_self _)⟩

theorem due_registered (hfresh : ∀ n ∈ notes, n.task ≠ t) (r : Instant) (kind : TaskKind)
    (delay : Duration) : Due (notes ++ [.registered t r kind delay]) t (r + delay) where
  registered := ⟨r, kind, delay, List.mem_append_right _ (List.mem_singleton_self _)⟩
  delay r' kind' delay' hr := by
    rcases List.mem_append.1 hr with hr | hr
    · exact absurd rfl (hfresh _ hr)
    · cases List.mem_singleton.1 hr
      exact Nat.le_refl _
  interval r' i delay' e _ he := by
    rcases List.mem_append.1 he with he | he
    · exact absurd rfl (hfresh _ he)
    · cases List.mem_singleton.1 he

theorem rested_registered (hfresh : ∀ n ∈ notes, n.task ≠ t) (r : Instant) (kind : TaskKind)
    (delay : Duration) : Rested (notes ++ [.registered t r kind delay]) t := by
  intro earlier time since hsplit
  rcases Note.split_snoc hsplit with ⟨-, hn⟩ | ⟨since', -, rfl⟩
  · cases hn
  · exact absurd rfl (hfresh (.started t time) (List.mem_append_right _ List.mem_cons_self))

theorem Fetched.note (h : Fetched notes t) (hn : n.isRegistration) : Fetched (notes ++ [n]) t := by
  obtain ⟨earlier, time, entry, rest, since, rfl, hitem, hdue, hahead, hsince⟩ := h
  refine ⟨earlier, time, entry, rest, since ++ [n], by simp, hitem, hdue, hahead, fun m hm => ?_⟩
  rcases List.mem_append.1 hm with hm | hm
  · exact hsince m hm
  · rwa [List.mem_singleton.1 hm]

theorem Timely.note {before : List Note} (h : Timely notes before t time)
    (hne : n.task ≠ t ∨ ¬ n.isRegistration) : Timely (notes ++ [n]) before t time :=
  { h with
    delay := fun r kind delay hr =>
      h.delay r kind delay (Note.mem_of_snoc hr (Note.registered_ne hne))
    interval := fun r i delay e hr =>
      h.interval r i delay e (Note.mem_of_snoc hr (Note.registered_ne hne)) }

/-- What holds of the task that the loop's thread has in hand. -/
def Held (notes : List Note) (now : Instant) : Service → Prop
  | .starting (.swap t) => Due notes t now ∧ Rested notes t ∧ Fetched notes t
  | .starting (.count t) => Due notes t now
  | .firing t => Due notes t now
  | .concluding (.rearm t interval) => Due notes t (now + interval) ∧ Rested notes t
  | _ => True

theorem Held.later {service : Service} {time' : Instant} (h : Held notes time service)
    (hle : time ≤ time') : Held notes time' service := by
  unfold Held at h ⊢
  split at h
  · exact ⟨h.1.later hle, h.2⟩
  · exact h.later hle
  · exact h.later hle
  · exact ⟨h.1.later (Nat.add_le_add_right hle _), h.2⟩
  · trivial

theorem Held.note {service : Service} (h : Held notes time service) (hn : n.isRegistration)
    (hhand : (service.hand n.task).count = 0) : Held (notes ++ [n]) time service := by
  have hstart (t : TaskId) (time : Instant) : .started t time ≠ n := by
    rintro rfl
    cases hn
  have hne {t : TaskId} (hcount : (service.hand t).count = 1) : n.task ≠ t := by
    rintro rfl
    rw [hhand] at hcount
    cases hcount
  unfold Held at h ⊢
  split at h
  · exact ⟨h.1.note (.inl (hne (by simp [Service.hand]))), h.2.1.note (hstart _), h.2.2.note hn⟩
  · exact h.note (.inl (hne (by simp [Service.hand])))
  · exact h.note (.inl (hne (by simp [Service.hand])))
  · exact ⟨h.1.note (.inl (hne (by simp [Service.hand]))), h.2.note (hstart _)⟩
  · trivial

theorem held_ended {kind : TaskKind} (h : Due notes t time)
    (hkind : ∀ r kind' delay, .registered t r kind' delay ∈ notes → kind = kind') (policy : FailurePolicy)
    (outcome : Answer Value) :
    Held (notes ++ [.ended t time]) time (.concluding (Conclude.start kind policy t outcome)) := by
  cases kind with
  | oneShot => trivial
  | periodic interval =>
    have hdue : Due (notes ++ [.ended t time]) t (time + interval) := by
      have hold {r : Instant} {kind : TaskKind} {delay : Duration}
          (hr : .registered t r kind delay ∈ notes ++ [.ended t time]) :
          .registered t r kind delay ∈ notes := Note.mem_of_snoc hr (by simp)
      refine ⟨?_, fun r kind delay hr => ?_, fun r i delay e hr he => ?_⟩
      · obtain ⟨r, kind, delay, hr⟩ := h.registered
        exact ⟨r, kind, delay, List.mem_append_left _ hr⟩
      · exact Nat.le_trans (h.delay r kind delay (hold hr)) (Nat.le_add_right ..)
      · rcases List.mem_append.1 he with he | he
        · exact Nat.le_trans (h.interval r i delay e (hold hr) he) (Nat.le_add_right ..)
        · cases List.mem_singleton.1 he
          cases hkind r _ delay (hold hr)
          exact Nat.le_refl _
    have hagain := And.intro hdue (rested_ended notes t time)
    cases outcome with
    | ok value => exact hagain
    | error cause => cases policy with
      | «continue» => exact hagain
      | halt => trivial

/-! ## What threads keep to -/

def State.served (x : State) (result : Outcome (Answer Value)) (s : Scheduler) (next : Service) : State :=
  { x with
    scheduler := s
    service := next
    history := x.history ++ x.service.events x.scheduler
    results := x.results ++ x.service.results result }

/-- Whoever is queued or in hand has waited as long as it has to, and so had all that were started. -/
structure Timed.Sound (l : LoopId) (x : Timed) : Prop where
  queue : x.state.scheduler.EachQueued l fun t time => Due x.notes t time ∧ Rested x.notes t
  accepted : ∀ n ∈ x.notes, .accepted n.task ∈ x.state.history
  kinds : ∀ t r kind delay, .registered t r kind delay ∈ x.notes →
    x.state.scheduler.kindIn l t = some kind
  held : Held x.notes x.state.scheduler.now x.state.service
  starts : ∀ before t time since, x.notes = before ++ .started t time :: since →
    Timely x.notes before t time

theorem Account.Sound.queued_eq_zero {a : Account} (ha : a.Sound) (hhand : a.hand.count = 1) :
    a.queued = 0 := by
  cases ha with
  | unknown _ h => have := h.place; omega
  | pending _ h => have := h.place; omega
  | running _ h => have := h.place; omega
  | finished _ h => have := h.place; omega
  | failed _ h => have := h.place; omega
  | cancelled _ h => have := h.place; omega

theorem kindIn_eq {s : Scheduler} {state : TaskState} (h : (s.standing l t).state = some state) :
    s.kindIn l t = some (s.kindOf t) := by
  obtain ⟨task, htask, hget, -⟩ := get?_of_standing h
  unfold kindIn kindOf
  rw [htask, hget]
  rfl

theorem kindOf_of_kindIn {s : Scheduler} {kind : TaskKind} (h : s.kindIn l t = some kind) :
    s.kindOf t = kind := by
  obtain ⟨task, htask, rfl⟩ := Option.map_eq_some_iff.1 h
  unfold kindOf
  rw [(get?_of_taskIn htask).1]

theorem item_ne_of_queued {s : Scheduler} {q : DelayQueue TaskId} (hq : q ∈ s.queueIn l)
    (hqueued : (s.standing l t).queued = 0) {e : QueueEntry TaskId} (he : e ∈ q.entries) : t ≠ e.item := by
  obtain ⟨loop, hloop, rfl⟩ := Option.map_eq_some_iff.1 hq
  rintro rfl
  rw [standing_queued hloop] at hqueued
  exact List.count_eq_zero.1 hqueued
    (List.mem_map_of_mem ((DelayQueue.perm_entries loop.queue).mem_iff.1 he))

theorem first_of_ready {s s' : Scheduler} {loop : EventLoop} {P : TaskId → Instant → Prop}
    (hloop : s.loops.get? l = some loop) (hqueued : s.EachQueued l P)
    (hpoll : s.poll l = (.ready t, s')) :
    ∃ entry rest, s.lineOf l = entry :: rest ∧ entry.item = t ∧ entry.readyAt ≤ s.now ∧
      (∀ e ∈ rest, entry.Ahead e) ∧ P t entry.readyAt := by
  have hqueue : loop.queue ∈ s.queueIn l := by rw [queueIn, hloop]; rfl
  obtain ⟨hsound, hwait⟩ := hqueued loop.queue hqueue
  rcases poll_cases hloop with ⟨hstop, -⟩ | ⟨task, queue, -, hpop, hready⟩ | hblock
  · rw [hstop] at hpoll; cases hpoll
  · rw [hready] at hpoll
    cases hpoll
    obtain ⟨hnone, -⟩ | ⟨entry, rest, hsome, hline, hentry, -⟩ := hsound.popReady_cases s.now
    · rw [hnone] at hpop; cases hpop
    · rw [hsome] at hpop
      cases hpop
      have hlineOf : s.lineOf l = entry :: queue.entries := by
        unfold lineOf queueIn
        rw [hloop]
        exact hline
      have hahead : ∀ e ∈ queue.entries, entry.Ahead e :=
        (List.pairwise_cons.1 (hline ▸ hsound.pairwise)).1
      exact ⟨entry, queue.entries, hlineOf, rfl, hentry, hahead, hwait entry (hline ▸ List.mem_cons_self)⟩
  · rw [hblock] at hpoll; cases hpoll

theorem Operation.ages_or_accepts {op : Operation} {s s' : Scheduler} {next : Option Operation}
    (h : op.advance s = some (s', next)) :
    s.Ages l s' ∧ op.notes s = [] ∨
      ∃ l' t delay, op = .enqueue (.accept l' t delay) ∧ s.accept l' t delay = (.queued, s') := by
  cases Operation.acts h with
  | create => exact .inl ⟨ages_createTask, rfl⟩
  | queue haccept => exact .inr ⟨_, _, _, rfl, haccept⟩
  | turnDown haccept | overflow haccept =>
    exact .inl ⟨accept_ages haccept (by simp), by simp [Operation.notes, haccept]⟩
  | swap hop hswap => exact .inl ⟨ages_transition hswap, by cases hop <;> rfl⟩
  | settle hop => exact .inl ⟨ages_settleCancelled, by cases hop <;> rfl⟩
  | rouse hop => exact .inl ⟨ages_notify, by cases hop <;> rfl⟩
  | unqueue hunqueue | absent hunqueue => exact .inl ⟨ages_unqueue hunqueue, rfl⟩
  | release => exact .inl ⟨ages_decrement, rfl⟩
  | stop hstop => exact .inl ⟨ages_stop hstop, rfl⟩
  | finish => exact .inl ⟨.refl s, rfl⟩

namespace Timed.Sound

variable {x : Timed} {y : State}

theorem quiet (hx : x.Sound l) (hages : x.state.scheduler.Ages l y.scheduler)
    (hhistory : ∀ e ∈ x.state.history, e ∈ y.history) (hheld : Held x.notes y.scheduler.now y.service) :
    Timed.Sound l ⟨y, x.notes⟩ where
  queue := hx.queue.ages hages
  accepted n hn := hhistory _ (hx.accepted n hn)
  kinds t r kind delay hr := hages.kinds t kind (hx.kinds t r kind delay hr)
  held := hheld
  starts := hx.starts

theorem serve (hx : x.Sound l) (hy : y.Orderly l own) (hages : x.state.scheduler.Ages l y.scheduler)
    (hhistory : ∀ e ∈ x.state.history, e ∈ y.history) (hn : ¬ n.isRegistration)
    (hhand : (y.service.hand n.task).count = 1) (hdue : Due x.notes n.task time)
    (hheld : Held (x.notes ++ [n]) y.scheduler.now y.service)
    (hstart : ∀ t time, n = .started t time → Timely (x.notes ++ [n]) x.notes t time) :
    Timed.Sound l ⟨y, x.notes ++ [n]⟩ where
  queue := by
    intro q hq
    obtain ⟨hsound, hqueue⟩ := hx.queue.ages hages q hq
    refine ⟨hsound, fun e he => ?_⟩
    have hne := item_ne_of_queued hq ((hy.sound n.task).queued_eq_zero hhand) he
    obtain ⟨hdue, hrested⟩ := hqueue e he
    exact ⟨hdue.note (.inl hne), hrested.note fun time => by rintro rfl; exact hne rfl⟩
  accepted m hm := by
    rcases List.mem_append.1 hm with hm | hm
    · exact hhistory _ (hx.accepted m hm)
    · obtain ⟨r, kind, delay, hr⟩ := hdue.registered
      have haccepted := hx.accepted _ hr
      rw [List.mem_singleton.1 hm]
      exact hhistory _ haccepted
  kinds t r kind delay hr :=
    hages.kinds t kind (hx.kinds t r kind delay (Note.mem_of_snoc hr (Note.registered_ne (.inr hn))))
  held := hheld
  starts before t time since hsplit := by
    rcases Note.split_snoc hsplit with ⟨rfl, hstarted⟩ | ⟨since', -, hold⟩
    · exact hstart t time hstarted.symm
    · exact (hx.starts before t time since' hold).note (.inr hn)

theorem register {delay : Duration} (hx : x.Sound l) (ho : x.state.Orderly l own)
    (hmem : .enqueue (.accept l t delay) ∈ x.state.operations)
    (hjoins : x.state.scheduler.Joins l t delay y.scheduler)
    (hhistory : y.history = x.state.history ++ [.accepted t]) (hservice : y.service = x.state.service) :
    Timed.Sound l
      ⟨y, x.notes ++ [.registered t x.state.scheduler.now (x.state.scheduler.kindOf t) delay]⟩ := by
  obtain ⟨others, hshare⟩ := exists_share hmem t
  have hoffers : 0 < (x.state.account l t).offers := by
    simp [State.account, hshare, Operation.stakes, Stakes.add_eq]
  have hstate := (ho.sound t).state_of_offers hoffers
  have hpending := (ho.sound t).pending_of hstate
  have hplace := hpending.place
  have hqueued : (x.state.account l t).queued = 0 := by omega
  have hhand : (x.state.account l t).hand.count = 0 := by omega
  -- nothing was noted of the task before
  have hfresh : ∀ n ∈ x.notes, n.task ≠ t := by
    rintro n hn rfl
    have haccepted : 0 < (x.state.account l n.task).accepted := List.count_pos_iff.2 (hx.accepted n hn)
    have := hpending.accepted
    omega
  set now := x.state.scheduler.now
  set kind := x.state.scheduler.kindOf t
  refine ⟨?queue, fun n hn => ?accepted, fun u r kind' delay' hr => ?kinds, ?held,
    fun before u time since hsplit => ?starts⟩
  case queue =>
    have hold : x.state.scheduler.EachQueued l fun u time =>
        Due (x.notes ++ [.registered t now kind delay]) u time ∧
          Rested (x.notes ++ [.registered t now kind delay]) u := by
      intro q hq
      obtain ⟨hsound, hqueue⟩ := hx.queue q hq
      refine ⟨hsound, fun e he => ?_⟩
      obtain ⟨hdue, hrested⟩ := hqueue e he
      exact ⟨hdue.note (.inl (item_ne_of_queued hq hqueued he)), hrested.note (by simp)⟩
    exact hold.joins hjoins ⟨due_registered hfresh now kind delay, rested_registered hfresh now kind delay⟩
  case accepted =>
    rw [hhistory]
    rcases List.mem_append.1 hn with hn | hn
    · exact List.mem_append_left _ (hx.accepted n hn)
    · rw [List.mem_singleton.1 hn]
      exact List.mem_append_right _ (List.mem_singleton_self _)
  case kinds =>
    refine hjoins.kinds u kind' ?_
    rcases List.mem_append.1 hr with hr | hr
    · exact hx.kinds u r kind' delay' hr
    · cases List.mem_singleton.1 hr
      exact kindIn_eq hstate
  case held =>
    rw [hjoins.now, hservice]
    exact hx.held.note rfl hhand
  case starts =>
    rcases Note.split_snoc hsplit with ⟨-, hn⟩ | ⟨since', -, hold⟩
    · cases hn
    · refine (hx.starts before u time since' hold).note (.inl fun hu => ?_)
      exact hfresh (.started u time) (by rw [hold]; simp) hu.symm

section

variable {result : Outcome (Answer Value)} {s : Scheduler} {next : Service} (hx : x.Sound l)
  (hy : (x.state.served result s next).Orderly l own)
include hx hy

theorem serving {stage : Serve} (ho : x.state.Orderly l own) (hservice : x.state.service = .serving stage)
    (h : (Service.serving stage).advance l result x.state.scheduler = some (s, next)) :
    Timed.Sound l ⟨x.state.served result s next,
      x.notes ++ (Service.serving stage).notes x.state.scheduler⟩ := by
  have hquiet (hages : x.state.scheduler.Ages l s) (hheld : Held x.notes s.now next) :
      Timed.Sound l ⟨x.state.served result s next, x.notes ++ []⟩ := by
    rw [List.append_nil]
    exact hx.quiet hages (fun e he => List.mem_append_left _ he) hheld
  cases stage with
  | parked l' =>
    simp only [Service.advance, Serve.advance] at h
    split at h <;> rename_i hparked <;> split at hparked <;> cases hparked <;> cases h
    exact hquiet ages_notify trivial
  | poll l' =>
    obtain rfl : l' = l := by
      have hon := ho.service
      rwa [hservice] at hon
    simp only [Service.advance, Serve.advance] at h
    cases hpoll : x.state.scheduler.poll l' with
    | mk poll s₁ =>
      have hages := ages_poll (l := l') hpoll
      simp only [Service.notes, hpoll] at h ⊢
      cases poll with
      | stopped =>
        cases h
        exact hquiet hages trivial
      | blocked =>
        cases h
        exact hquiet hages trivial
      | ready t =>
        cases h
        obtain ⟨loop, hloop⟩ := ho.exists_loop
        obtain ⟨entry, rest, hline, rfl, hentry, hahead, hdue, hrested⟩ :=
          first_of_ready hloop hx.queue hpoll
        have hnow := hdue.later hentry
        refine hx.serve hy hages (fun e he => List.mem_append_left _ he) Bool.false_ne_true
          (by simp [State.served, Service.hand, Note.task]) hnow ⟨?_, ?_, ?_⟩ (by simp)
        · exact (hnow.later hages.now).note (.inr ⟨Bool.false_ne_true, by simp⟩)
        · exact hrested.note (by simp)
        · exact ⟨x.notes, _, entry, rest, [], by rw [hline], rfl, hentry, hahead, by simp⟩

theorem starting {stage : Start} (hservice : x.state.service = .starting stage)
    (h : (Service.starting stage).advance l result x.state.scheduler = some (s, next)) :
    Timed.Sound l ⟨x.state.served result s next,
      x.notes ++ (Service.starting stage).notes x.state.scheduler⟩ := by
  have hheld := hx.held
  rw [hservice] at hheld
  cases stage with
  | swap t =>
    obtain ⟨hdue, hrested, hfetched⟩ := hheld
    simp only [Service.advance, Start.advance] at h
    cases hswap : x.state.scheduler.transition t .pending .running with
    | mk moved s₁ =>
      have hages := ages_transition (l := l) hswap
      simp only [Service.notes, hswap] at h ⊢
      cases moved with
      | false =>
        cases h
        simp only [Bool.false_eq_true, ↓reduceIte, List.append_nil]
        exact hx.quiet hages (fun e he => List.mem_append_left _ he) trivial
      | true =>
        cases h
        refine hx.serve hy hages (fun e he => List.mem_append_left _ he) Bool.false_ne_true
          (by simp [State.served, Service.hand, Note.task]) hdue ?_ fun u time hu => ?_
        · exact (hdue.later hages.now).note (.inr ⟨Bool.false_ne_true, by simp⟩)
        · cases hu
          exact Timely.note ⟨hdue.registered, hdue.delay, hrested, hdue.interval, hfetched⟩
            (.inr Bool.false_ne_true)
  | count t =>
    simp only [Service.notes, List.append_nil]
    have hages : x.state.scheduler.Ages l (x.state.scheduler.countFiring t) :=
      ages_modifyTask (f := fun task => { task with firings := task.firings + 1 }) (fun _ => rfl) fun _ => rfl
    simp only [Service.advance, Start.advance] at h
    cases hcount : ((x.state.scheduler.countFiring t).task? t).map Task.firings <;> rw [hcount] at h <;>
      cases h
    · exact hx.quiet hages (fun e he => List.mem_append_left _ he) trivial
    · exact hx.quiet hages (fun e he => List.mem_append_left _ he) hheld

theorem firing {t : TaskId} (hservice : x.state.service = .firing t)
    (h : (Service.firing t).advance l result x.state.scheduler = some (s, next)) :
    Timed.Sound l ⟨x.state.served result s next, x.notes ++ (Service.firing t).notes x.state.scheduler⟩ := by
  have hdue : Due x.notes t x.state.scheduler.now := by
    have hheld := hx.held
    rwa [hservice] at hheld
  obtain ⟨rfl, rfl⟩ := Prod.mk.inj (Option.some.inj h)
  refine hx.serve hy (.refl _) (fun e he => List.mem_append_left _ he) Bool.false_ne_true ?_ hdue ?_
    (by simp)
  · change ((Service.concluding _).hand t).count = 1
    rw [hand_conclusion, if_pos rfl]
    split <;> rfl
  · exact held_ended hdue (fun r kind delay hr => kindOf_of_kindIn (hx.kinds t r kind delay hr)) _ _

omit hy in
theorem concluding {stage : Conclude} (ho : x.state.Orderly l own)
    (hservice : x.state.service = .concluding stage)
    (h : (Service.concluding stage).advance l result x.state.scheduler = some (s, next)) :
    Timed.Sound l ⟨x.state.served result s next,
      x.notes ++ (Service.concluding stage).notes x.state.scheduler⟩ := by
  have hheld := hx.held
  rw [hservice] at hheld
  have hquiet (hages : x.state.scheduler.Ages l s) (hheld : Held x.notes s.now next) :=
    hx.quiet (y := x.state.served result s next) hages (fun e he => List.mem_append_left _ he) hheld
  simp only [Service.notes, List.append_nil]
  simp only [Service.advance] at h
  cases stage with
  | release t outcome =>
    cases h
    exact hquiet ages_decrement trivial
  | complete t outcome =>
    simp only [Conclude.advance] at h
    split at h <;> rename_i hmoved <;> split at hmoved <;> cases hmoved <;> cases h <;>
      exact hquiet (ages_transition ‹_›) trivial
  | settle t outcome =>
    cases h
    exact hquiet (ages_modifyTask (fun _ => rfl) fun _ => rfl) trivial
  | halt t cause =>
    simp only [Conclude.advance] at h
    split at h <;> rename_i hmoved <;> split at hmoved <;> cases hmoved <;> cases h <;>
      exact hquiet (ages_transition ‹_›) trivial
  | haltRelease t cause =>
    cases h
    exact hquiet ages_decrement trivial
  | rearm t interval =>
    obtain ⟨state, hstate⟩ := (ho.sound t).known_of_hand
      (by simp [State.account, hservice, Service.hand])
    simp only [Conclude.advance] at h
    cases hrearm : x.state.scheduler.rearm t interval with
    | mk rearming s₁ =>
      rw [hrearm] at h
      cases rearming with
      | queued =>
        cases h
        have hjoins := rearm_joins hrearm
        rw [ownerOf_eq hstate] at hjoins
        exact {
          queue := hx.queue.joins hjoins hheld
          accepted := fun n hn => List.mem_append_left _ (hx.accepted n hn)
          kinds := fun u r kind delay hr => hjoins.kinds u kind (hx.kinds u r kind delay hr)
          held := trivial
          starts := hx.starts }
      | ended =>
        cases h
        exact hquiet (rearm_ages hrearm (by simp)) trivial
      | overflow =>
        cases h
        exact hquiet (rearm_ages hrearm (by simp)) trivial

end

theorem proceed {place : Nat} (hx : x.Sound l) (ho : x.state.Orderly l own)
    (h : x.state.move? l own (.proceed place) = some y) :
    Timed.Sound l ⟨y, x.notes ++ (Move.proceed place).notes x.state⟩ := by
  obtain ⟨op, hop, hadvance⟩ := Option.bind_eq_some_iff.1 h
  obtain ⟨⟨s, next⟩, hstep, rfl⟩ := Option.map_eq_some_iff.1 hadvance
  have hmem : op ∈ x.state.operations := List.mem_of_getElem? hop
  simp only [Move.notes, hop, Option.elim_some]
  rcases op.ages_or_accepts (l := l) hstep with ⟨hages, hnotes⟩ | ⟨l', t, delay, rfl, haccept⟩
  · rw [hnotes, List.append_nil]
    exact hx.quiet hages (fun e he => List.mem_append_left _ he) (hx.held.later hages.now)
  · obtain rfl : l' = l := ho.operations _ hmem
    have hnotes : (Operation.enqueue (.accept l' t delay)).notes x.state.scheduler =
        [.registered t x.state.scheduler.now (x.state.scheduler.kindOf t) delay] := by
      simp only [Operation.notes, haccept]
    rw [hnotes]
    refine hx.register ho hmem (accept_joins haccept) ?_ rfl
    simp only [Operation.events, haccept]

theorem step {y : Timed} (hx : x.Sound l) (ho : x.state.Orderly l own) (h : Timed.Step l own x y) :
    y.Sound l := by
  have hy : y.state.Orderly l own := ho.step h.step
  cases h with
  | elsewhere h hnow =>
    have hages := h.ages hnow
    have hquiet := hx.quiet (y := (x.elsewhere _).state) hages (fun _ he => he) (hx.held.later hages.now)
    exact hquiet
  | move m h =>
    cases m with
    | call c =>
      obtain ⟨-, h⟩ := Option.ite_none_right_eq_some.1 h
      cases h
      rw [Move.notes, List.append_nil]
      exact hx.quiet (.refl _) (fun _ he => he) hx.held
    | proceed place => exact hx.proceed ho h
    | serve result =>
      obtain ⟨⟨s, next⟩, hadvance, rfl⟩ := Option.map_eq_some_iff.1 h
      have hserved : Timed.Sound l ⟨x.state.served result s next,
          x.notes ++ x.state.service.notes x.state.scheduler⟩ := by
        cases hservice : x.state.service with
        | serving stage => exact hx.serving hy ho hservice (hservice ▸ hadvance)
        | starting stage => exact hx.starting hy hservice (hservice ▸ hadvance)
        | firing t => exact hx.firing hy hservice (hservice ▸ hadvance)
        | concluding stage => exact hx.concluding ho hservice (hservice ▸ hadvance)
        | stopped => rw [hservice] at hadvance; cases hadvance
      exact hserved
    | join t =>
      obtain ⟨answer, -, rfl⟩ := Option.map_eq_some_iff.1 h
      rw [Move.notes, List.append_nil]
      exact hx.quiet (.refl _) (fun _ he => he) hx.held

end Timed.Sound

theorem Timed.Reaches.sound {x : Timed} (h : Timed.Reaches l own x) : x.Sound l ∧ x.state.Orderly l own := by
  obtain ⟨start, hstart, hsteps⟩ := h
  induction hsteps with
  | refl =>
    obtain ⟨loop, hloop, hqueue, -⟩ := hstart.loop
    refine ⟨⟨fun q hq => ?_, by simp, by simp, ?_, fun before t time since h => ?_⟩, hstart.orderly⟩
    · rw [queueIn, hloop, Option.map_some, hqueue] at hq
      cases hq
      exact ⟨DelayQueue.sound_empty, fun e he => (List.not_mem_nil he).elim⟩
    · rw [hstart.service]
      trivial
    · cases before <;> cases h
  | tail _ hstep ih => exact ⟨ih.1.step ih.2 hstep, ih.2.step hstep.step⟩

/-- Firings respect delays and order, whatever threads do: a task does not start before its delay has
passed since its registration, nor before its interval has passed since each of its earlier firings came to
its end, and it was first in line when it was taken out of the queue. -/
theorem Timed.Reaches.timely {x : Timed} (h : Timed.Reaches l own x) {before since : List Note}
    (hstart : x.notes = before ++ .started t time :: since) : Timely x.notes before t time :=
  h.sound.1.starts before t time since hstart

end

/-- A task that fires every five units of time, and two that are due at one time, of which the later one
is cancelled while the other one runs. -/
def periodicAmongOthers : List Timed.Turn :=
  let enqueue (kind : TaskKind) (delay : Duration) : List Timed.Turn :=
    [.move (.call (.enqueue kind delay 0)), .move (.proceed 0), .move (.proceed 0), .move (.proceed 0)]
  let serve (count : Nat) : List Timed.Turn := List.replicate count (.move (.serve (.panic none)))
  let cancel (t : TaskId) : List Timed.Turn :=
    .move (.call (.cancel t 0)) :: List.replicate 5 (.move (.proceed 0))
  enqueue (.periodic 5) 0 ++ enqueue .oneShot 3 ++ enqueue .oneShot 3 ++
    serve 5 ++ [.pass 4] ++ serve 3 ++ cancel 2 ++ serve 4 ++ [.pass 2] ++ serve 2

def periodicAmongOthersNotes : List Note := [
  .registered 0 0 (.periodic 5) 0, .registered 1 0 .oneShot 3, .registered 2 0 .oneShot 3,
  .taken 0 0 [⟨0, 0, 0⟩, ⟨3, 1, 1⟩, ⟨3, 2, 2⟩], .started 0 0, .ended 0 0,
  .taken 1 4 [⟨3, 1, 1⟩, ⟨3, 2, 2⟩, ⟨5, 3, 0⟩], .started 1 4, .ended 1 4, .taken 0 6 [⟨5, 3, 0⟩]]

theorem periodicAmongOthers_timely : ∃ x, Timed.Reaches 0 (some 0) x ∧
    x.notes = periodicAmongOthersNotes ++ [.started 0 6] ∧ Timely x.notes periodicAmongOthersNotes 0 6 := by
  have hend : ((⟨newLoop .continue, []⟩ : Timed).turns? 0 (some 0) periodicAmongOthers).map Timed.notes =
      some (periodicAmongOthersNotes ++ [.started 0 6]) := by
    decide +kernel
  obtain ⟨x, hturns, hnotes⟩ := Option.map_eq_some_iff.1 hend
  have hreaches : Timed.Reaches 0 (some 0) x :=
    ⟨_, started_newLoop .continue, Timed.steps_of_turns? hturns⟩
  exact ⟨x, hreaches, hnotes, hreaches.timely hnotes⟩

end Scheduling

end ScriptWorker
