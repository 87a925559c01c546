import Mathlib.Data.List.Nodup
import ScriptWorker.Proofs.Scheduling.Outcomes

/-!
# Where tasks wait

A task is in the queue of its loop at most once, and only as long as it is pending or a cancel is
about to take it out; a pending task of a running loop is in the queue or in the hands of the loop's
thread. So with nothing midway the queue holds just the pending tasks.
-/

namespace ScriptWorker

namespace Scheduler

def queueOf (s : Scheduler) (l : LoopId) : List TaskId :=
  match s.loops.get? l with
  | some loop => loop.queue.items
  | none => []

def isIn (s : Scheduler) (l : LoopId) (state : TaskState) (t : TaskId) : Bool :=
  (s.taskIn l t).any fun task => task.state = state

def pendingTasks (s : Scheduler) (l : LoopId) : List TaskId :=
  (List.range s.tasks.size).filter (s.isIn l .pending)

variable {s : Scheduler} {l : LoopId} {t : TaskId}

theorem queued_eq : s.queued l t = (s.queueOf l).count t := by
  unfold queued queueOf
  cases s.loops.get? l <;> rfl

theorem length_queueOf : (s.queueOf l).length = s.pending l := by
  unfold queueOf pending
  cases s.loops.get? l with
  | none => rfl
  | some loop => simp [DelayQueue.items, DelayQueue.size, SkewHeap.length_elements]

theorem isIn_iff {state : TaskState} : s.isIn l state t ↔ (s.standing l t).state = some state := by
  unfold isIn standing Standing.of
  cases s.taskIn l t <;> simp

theorem mem_pendingTasks : t ∈ s.pendingTasks l ↔ (s.standing l t).state = some .pending := by
  rw [pendingTasks, List.mem_filter, isIn_iff, List.mem_range]
  exact ⟨And.right, fun h => ⟨lt_size h, h⟩⟩

theorem nodup_pendingTasks : (s.pendingTasks l).Nodup := List.nodup_range.filter _

end Scheduler

namespace Scheduling

open Scheduler

variable {l : LoopId} {own : Option CounterId} {x : State} {t : TaskId}

namespace Account

variable {a : Account}

theorem Sound.queued_le_one (ha : a.Sound) : a.queued ≤ 1 := by
  cases ha with
  | unknown _ h => have := h.place; omega
  | pending _ h => have := h.place; omega
  | running _ h => have := h.place; omega
  | finished _ h => have := h.place; omega
  | failed _ h => have := h.place; omega
  | cancelled _ h => have := h.place; omega

theorem Sound.linked_of_queued (ha : a.Sound) (h : 0 < a.queued) (hstate : a.state ≠ some .pending) :
    a.state = some .cancelled ∧ 0 < a.linked := by
  have hcancelled := (ha.state_of_queued h).resolve_left hstate
  exact ⟨hcancelled, Nat.lt_of_lt_of_le h (ha.cancelled_of hcancelled).queued⟩

theorem Pending.queued_or_taken (ha : a.Pending) (haccepted : 0 < a.accepted)
    (hkept : a.overflowed = 0) (hrunning : a.running = true) : a.queued = 1 ∨ a.hand = .taken := by
  rcases ha.hand with hhand | hhand
  · left
    have hplace := ha.place
    have hoffers := ha.accepted
    have hdrained : a.drained = 0 := by
      by_contra h
      rw [ha.drained (Nat.pos_of_ne_zero h)] at hrunning
      cases hrunning
    simp only [hhand, Hand.count] at hplace
    omega
  · exact .inr hhand

end Account

/-- A cancel has cancelled a task, and has yet to take it out of the queue. -/
def State.Cancelling (x : State) (t : TaskId) : Prop :=
  ∃ c, .cancel t (.settle t c) ∈ x.operations ∨ .cancel t (.unqueue t c) ∈ x.operations

theorem Operation.eq_cancel {op : Operation} (h : 0 < (op.stakes t).linked) :
    ∃ u c, op = .cancel t (.settle u c) ∨ op = .cancel t (.unqueue u c) := by
  unfold Operation.stakes at h
  split at h
  case h_4 u v c =>
    obtain rfl : u = t := by by_contra hne; simp [hne, Stakes.zero_eq] at h
    exact ⟨v, c, .inl rfl⟩
  case h_5 u v c =>
    obtain rfl : u = t := by by_contra hne; simp [hne, Stakes.zero_eq] at h
    exact ⟨v, c, .inr rfl⟩
  all_goals (try split at h) <;> simp [Stakes.zero_eq] at h

theorem exists_linked {operations : List Operation} (h : 0 < (stakes t operations).linked) :
    ∃ op ∈ operations, 0 < (op.stakes t).linked := by
  induction operations with
  | nil => cases h
  | cons op rest ih =>
    by_cases hop : 0 < (op.stakes t).linked
    · exact ⟨op, List.mem_cons_self, hop⟩
    · have hrest : 0 < (stakes t rest).linked := by
        simp only [stakes, Stakes.add_eq] at h
        omega
      obtain ⟨op', hmem, hop'⟩ := ih hrest
      exact ⟨op', List.mem_cons_of_mem _ hmem, hop'⟩

theorem State.Orderly.cancelling (hx : x.Orderly l own) (h : 0 < (x.account l t).linked) :
    x.Cancelling t := by
  obtain ⟨op, hmem, hop⟩ := exists_linked h
  have hon := hx.operations op hmem
  obtain ⟨u, c, rfl | rfl⟩ := op.eq_cancel hop
  · obtain rfl : u = t := hon.1
    exact ⟨c, .inl hmem⟩
  · obtain rfl : u = t := hon.1
    exact ⟨c, .inr hmem⟩

/-- Each task waits in one place, and the queue holds no other. -/
structure Waiting (l : LoopId) (x : State) : Prop where
  /-- No task is in the queue twice. -/
  once : (x.scheduler.queueOf l).Nodup
  /-- What is queued is pending, or a cancel has yet to take it out. -/
  queued : ∀ t ∈ x.scheduler.queueOf l, ∃ task, x.scheduler.taskIn l t = some task ∧
    (task.state = .pending ∨ task.state = .cancelled ∧ x.Cancelling t)
  /-- No task is lost while the loop runs. -/
  kept : x.scheduler.isRunning l → ∀ t task, x.scheduler.taskIn l t = some task →
    task.state = .pending → .accepted t ∈ x.history →
    t ∈ x.scheduler.queueOf l ∨ x.service = .starting (.swap t)
  /-- With nothing midway, as many tasks are queued as are pending. -/
  pending : x.Rests → x.scheduler.pending l = (x.scheduler.pendingTasks l).length

theorem eq_swap_of_hand {service : Service} (h : service.hand t = .taken) :
    service = .starting (.swap t) := by
  unfold Service.hand at h
  split at h <;> (try split at h) <;> cases h
  subst_vars
  rfl

theorem hand_of_isIdle {service : Service} (h : service.isIdle) :
    service.hand t = .empty ∨ service.hand t = .firing := by
  cases service with
  | serving _ => exact .inl rfl
  | firing u =>
    by_cases hu : u = t
    · exact .inr (if_pos hu)
    · exact .inl (if_neg hu)
  | stopped => exact .inl rfl
  | starting _ => cases h
  | concluding _ => cases h

/-- No task is lost or queued twice, whatever threads do, unless a deadline overflows. -/
theorem Reaches.waiting (h : Reaches l own x) (hkept : ∀ t, .overflowed t ∉ x.history) :
    Waiting l x := by
  have hsound := h.orderly.sound
  have hqueued (t : TaskId) : (x.account l t).queued = (x.scheduler.queueOf l).count t := queued_eq
  have honce : (x.scheduler.queueOf l).Nodup := by
    refine List.nodup_iff_count_le_one.2 fun t => ?_
    rw [← hqueued]
    exact (hsound t).queued_le_one
  have hin : ∀ t ∈ x.scheduler.queueOf l, ∃ task, x.scheduler.taskIn l t = some task ∧
      (task.state = .pending ∨ task.state = .cancelled ∧ x.Cancelling t) := by
    intro t hmem
    have hpos : 0 < (x.account l t).queued := by
      rw [hqueued]
      exact List.count_pos_iff.2 hmem
    by_cases hpending : (x.account l t).state = some .pending
    · obtain ⟨task, htask, hstate⟩ := taskIn_of_standing hpending
      exact ⟨task, htask, .inl hstate⟩
    · obtain ⟨hcancelled, hlinked⟩ := (hsound t).linked_of_queued hpos hpending
      obtain ⟨task, htask, hstate⟩ := taskIn_of_standing hcancelled
      exact ⟨task, htask, .inr ⟨hstate, h.orderly.cancelling hlinked⟩⟩
  refine ⟨honce, hin, ?kept, ?pending⟩
  case kept =>
    intro hrunning t task htask hstate haccepted
    have hpending := (hsound t).pending_of ((account_of_task htask).1.trans (by rw [hstate]))
    rcases hpending.queued_or_taken (List.count_pos_iff.2 haccepted)
      (List.count_eq_zero_of_not_mem (hkept t)) hrunning with hone | htaken
    · left
      rw [hqueued] at hone
      exact List.count_pos_iff.1 (by omega)
    · exact .inr (eq_swap_of_hand htaken)
  case pending =>
    intro ⟨hoperations, hidle⟩
    rw [← length_queueOf]
    refine List.Perm.length_eq ((List.perm_ext_iff_of_nodup honce nodup_pendingTasks).2 fun t => ?_)
    rw [mem_pendingTasks]
    constructor
    · intro hmem
      obtain ⟨task, htask, hstate | ⟨-, _, hop | hop⟩⟩ := hin t hmem
      · exact (account_of_task htask).1.trans (by rw [hstate])
      · rw [hoperations] at hop; cases hop
      · rw [hoperations] at hop; cases hop
    · intro hstate
      have hpending := (hsound t).pending_of hstate
      have hplace := hpending.place
      have hover : (x.account l t).overflowed = 0 := List.count_eq_zero_of_not_mem (hkept t)
      have hhand : (x.account l t).hand = .empty := by
        rcases hand_of_isIdle (t := t) hidle with hempty | hfiring
        · exact hempty
        · exact hpending.hand.elim id fun htaken => nomatch hfiring.symm.trans htaken
      have hidle : (x.account l t).toStakes = 0 := congrArg (stakes t) hoperations
      rw [hqueued, hover, hhand, hidle] at hplace
      exact List.count_pos_iff.1 (by simp [Stakes.zero_eq] at hplace; omega)

/-- Two tasks come to be queued, one of them periodic and after a firing that failed; then a cancel of
that one has got as far as to cancel it. -/
def cancelMidway : List Move := [
  .call (.enqueue (.periodic 5) 0 0), .proceed 0, .proceed 0, .proceed 0,
  .serve (.panic none), .serve (.panic none), .serve (.panic none), .serve (.panic none),
  .serve (.panic none),
  .call (.enqueue .oneShot 3 0), .proceed 0, .proceed 0, .proceed 0,
  .call (.cancel 0 0), .proceed 0]

theorem cancelMidway_waiting : ∃ x, Reaches 0 (some 0) x ∧ (∀ t, .overflowed t ∉ x.history) ∧
    x.scheduler.pending 0 = 2 ∧ x.scheduler.pendingTasks 0 = [1] ∧ Waiting 0 x := by
  have hend : ((newLoop .continue).moves? 0 (some 0) cancelMidway).map (fun x =>
      (x.history, x.scheduler.pending 0, x.scheduler.pendingTasks 0)) =
      some ([.accepted 0, .started 0, .accepted 1], 2, [1]) := by
    decide +kernel
  obtain ⟨x, hmoves, hx⟩ := Option.map_eq_some_iff.1 hend
  obtain ⟨hhistory, hrest⟩ := Prod.mk.inj hx
  obtain ⟨hpending, htasks⟩ := Prod.mk.inj hrest
  have hreaches := reaches_of_moves? hmoves
  have hkept : ∀ t, .overflowed t ∉ x.history := by simp [hhistory]
  exact ⟨x, hreaches, hkept, hpending, htasks, hreaches.waiting hkept⟩

end Scheduling

end ScriptWorker
