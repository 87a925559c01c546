import ScriptWorker.Proofs.Scheduling.Programs
import ScriptWorker.Proofs.Scheduling.Steps

/-!
# One end for each task

Of the threads that would start, cancel, finish or discard a task, one wins, and what that makes of
the task is final: its terminal state and its outcome never change. A task that was cancelled is not
started any more, and a one-shot task that was started ends with what its job came to.
-/

namespace ScriptWorker.Scheduling

open Relation Scheduler

namespace Account

variable {a b : Account}

theorem Step.terminal (h : Step a b) (ha : a.Sound) {state : TaskState}
    (hstate : a.state = some state) (hterminal : state.isTerminal) : b.state = some state := by
  have hno {live : TaskState} (hlive : a.state = some live) (h : live.isTerminal = false) : False := by
    rw [hstate] at hlive
    cases hlive
    rw [h] at hterminal
    cases hterminal
  cases h with
  | create _ _ h => rw [hstate] at h; cases h
  | refuse h => exact (hno (ha.state_of_offers h) rfl).elim
  | cancel _ h => exact (hno h rfl).elim
  | cancelRunning _ h => exact (hno h rfl).elim
  | discard _ h => exact (hno h rfl).elim
  | start _ h => exact (hno h rfl).elim
  | complete h => exact (hno (ha.state_of_completing h) rfl).elim
  | halt _ _ h => exact (hno h rfl).elim
  | rearm _ h => exact (hno h rfl).elim
  | loseRunning _ h => exact (hno h rfl).elim
  | drop _ h => exact (hno h rfl).elim
  | _ => exact hstate

theorem Step.outcome (h : Step a b) (ha : a.Sound) {answer : Answer Value}
    (houtcome : a.outcome = some answer) : b.outcome = some answer := by
  cases h with
  | create _ _ hstate =>
    have hnone := (ha.unknown_of hstate).outcome
    rw [houtcome] at hnone
    cases hnone
  | settle hsettling =>
    have hc := ha.cancelled_of (ha.state_of_settling hsettling)
    rcases hc.outcome with ⟨hnone, -⟩ | ⟨-, hzero⟩
    · rw [houtcome] at hnone; cases hnone
    · omega
  | conclude hhand =>
    cases ha with
    | finished _ h => have := h.result; simp [hhand, houtcome] at this
    | failed _ h => have := h.cause; simp [hhand, houtcome] at this
    | unknown _ h => simpa [hhand] using h.place
    | pending _ h => simpa [hhand] using h.hand
    | running _ h => simpa [hhand] using h.hand
    | cancelled _ h => simpa [hhand] using h.hand
  | drop _ hstate =>
    have hnone := (ha.running_of hstate).outcome
    rw [houtcome] at hnone
    cases hnone
  | _ => exact houtcome

theorem Step.known (h : Step a b) (hstate : a.state ≠ none) : b.state ≠ none := by
  cases h <;> simp_all

theorem Step.started (h : Step a b) (hstate : a.state = some .cancelled) : b.started = a.started := by
  cases h with
  | start _ h => rw [hstate] at h; cases h
  | _ => rfl

theorem Sound.terminal (ha : a.Sound) {answer : Answer Value} (houtcome : a.outcome = some answer) :
    ∃ state, a.state = some state ∧ state.isTerminal := by
  cases ha with
  | unknown _ h => have := h.outcome; rw [houtcome] at this; cases this
  | pending _ h => have := h.outcome; rw [houtcome] at this; cases this
  | running _ h => have := h.outcome; rw [houtcome] at this; cases this
  | finished h => exact ⟨_, h, rfl⟩
  | failed h => exact ⟨_, h, rfl⟩
  | cancelled h => exact ⟨_, h, rfl⟩

theorem Sound.cancelled_of_event (ha : a.Sound) (h : 0 < a.cancelled) :
    a.state = some .cancelled := by
  cases ha with
  | cancelled hstate => exact hstate
  | unknown _ h => have := h.tally; omega
  | pending _ h => have := h.tally; omega
  | running _ h => have := h.tally; omega
  | finished _ h => have := h.tally; omega
  | failed _ h => have := h.tally; omega

theorem Sound.cancelled_le_one (ha : a.Sound) : a.cancelled ≤ 1 := by
  by_cases h : 0 < a.cancelled
  · have := (ha.cancelled_of (ha.cancelled_of_event h)).claims
    omega
  · omega

theorem Sound.started_cases (ha : a.Sound) (hperiodic : a.periodic = false) (h : 0 < a.started) :
    a.started = 1 ∧ (a.state = some .running ∧ a.outcome = none ∨
      a.state = some .finished ∧ ∃ result, a.results = [result] ∧
        ∀ answer ∈ a.outcome, answer = EventLoop.outcomeOf a.number result) := by
  cases ha with
  | unknown _ h => have := h.tally; omega
  | pending _ h => have := (h.oneShot hperiodic).1; omega
  | cancelled _ h => have := (h.oneShot hperiodic).1; omega
  | failed _ h => rw [h.periodic] at hperiodic; cases hperiodic
  | running hstate h =>
    refine ⟨?_, .inl ⟨hstate, h.outcome⟩⟩
    rcases h.hand with ⟨-, -, hfirst⟩ | ⟨-, -, hyes⟩ | ⟨-, hstarted, -⟩
    · exact (hfirst hperiodic).1
    · rw [hyes] at hperiodic; cases hperiodic
    · exact hstarted
  | finished hstate h =>
    obtain ⟨result, hresult, hend⟩ := h.result
    refine ⟨h.oneShot.2.1, .inr ⟨hstate, result, hresult, fun answer hanswer => ?_⟩⟩
    rcases hend with ⟨-, hnone⟩ | ⟨-, hsome⟩
    · rw [hnone] at hanswer; cases hanswer
    · rw [hsome] at hanswer; exact (Option.some.inj hanswer).symm

end Account

variable {l : LoopId} {own : Option CounterId} {x y : State} {t : TaskId}

theorem State.Orderly.steps (hx : x.Orderly l own) (h : ReflTransGen (Step l own) x y) :
    y.Orderly l own := by
  induction h with
  | refl => exact hx
  | tail _ hstep ih => exact ih.step hstep

theorem keeps_account {P : Account → Prop}
    (hP : ∀ a b : Account, a.Step b → a.Sound → P a → P b) (hx : x.Orderly l own)
    (h : ReflTransGen (Step l own) x y) (hp : P (x.account l t)) : P (y.account l t) := by
  induction h with
  | refl => exact hp
  | tail hsteps hstep ih =>
    have hmid := hx.steps hsteps
    exact hP _ _ (Step.account hmid hstep t) (hmid.sound t) ih

/-! ## Replies of cancels -/

theorem count_reply? (s : Scheduler) (op : Operation) (t : TaskId) :
    (op.reply? s).toList.count (.cancelled t true) = (op.events s).count (.cancelled t) := by
  have hhandle (reply : Option TaskId) :
      ((reply.map Reply.handle).toList).count (.cancelled t true) = 0 := by
    cases reply <;> simp
  have hdropped (reply : Option Nat) :
      ((reply.map Reply.dropped).toList).count (.cancelled t true) = 0 := by
    cases reply <;> simp
  cases op with
  | enqueue stage =>
    refine (hhandle _).trans (List.count_eq_zero_of_not_mem fun hmem => ?_).symm
    cases stage with
    | accept l u delay =>
      simp only [Operation.events] at hmem
      split at hmem <;> simp at hmem
    | _ => simp [Operation.events] at hmem
  | shutdown stage =>
    refine (hdropped _).trans (List.count_eq_zero_of_not_mem fun hmem => ?_).symm
    cases stage with
    | discard rest dropped =>
      cases rest with
      | nil => simp [Operation.events] at hmem
      | cons u rest =>
        simp only [Operation.events] at hmem
        split at hmem <;> simp at hmem
    | discardRunning u rest dropped =>
      simp only [Operation.events] at hmem
      split at hmem <;> simp at hmem
    | _ => simp [Operation.events] at hmem
  | cancel u stage =>
    cases stage with
    | release c => by_cases hu : u = t <;> simp [Operation.reply?, Cancel.advance, Progress.reply?, Operation.events, hu]
    | swapPending u' c | swapRunning u' c | unqueue u' c =>
      simp only [Operation.reply?, Cancel.advance, Operation.events, List.count_nil]
      (repeat' split) <;> simp [Progress.reply?]
    | settle | wake => rfl

theorem Service.cancelled_not_mem (s : Scheduler) (service : Service) (t : TaskId) :
    .cancelled t ∉ service.events s := by
  cases service with
  | starting stage =>
    cases stage <;> simp only [Service.events] <;> (try split) <;> simp
  | concluding stage =>
    cases stage <;> simp only [Service.events] <;> (repeat' split) <;> simp
  | _ => simp [Service.events]

/-- As many cancels of a task have replied that they have cancelled it as have come to their end. -/
theorem Reaches.count_replies (h : Reaches l own x) (t : TaskId) :
    x.replies.count (.cancelled t true) = x.history.count (.cancelled t) := by
  obtain ⟨start, hstart, hsteps⟩ := h
  induction hsteps with
  | refl => rw [hstart.replies, hstart.history]; rfl
  | tail _ hstep ih =>
    cases hstep with
    | elsewhere => exact ih
    | move m h =>
      cases m with
      | call c =>
        obtain ⟨-, h⟩ := Option.ite_none_right_eq_some.1 h
        cases h
        exact ih
      | proceed place =>
        obtain ⟨op, -, h⟩ := Option.bind_eq_some_iff.1 h
        obtain ⟨_, -, rfl⟩ := Option.map_eq_some_iff.1 h
        simp only [List.count_append, ih, count_reply?]
      | serve result =>
        obtain ⟨_, -, rfl⟩ := Option.map_eq_some_iff.1 h
        simp only [List.count_append, ih,
          List.count_eq_zero_of_not_mem (Service.cancelled_not_mem _ _ t), Nat.add_zero]
      | join u =>
        obtain ⟨_, -, rfl⟩ := Option.map_eq_some_iff.1 h
        exact ih

theorem joins_step (h : Step l own x y) {answer : Answer Value} (hmem : (t, answer) ∈ y.joins) :
    (t, answer) ∈ x.joins ∨ (x.account l t).outcome = some answer := by
  cases h with
  | elsewhere => exact .inl hmem
  | move m h =>
    cases m with
    | call c =>
      obtain ⟨-, h⟩ := Option.ite_none_right_eq_some.1 h
      cases h
      exact .inl hmem
    | proceed place =>
      obtain ⟨_, -, h⟩ := Option.bind_eq_some_iff.1 h
      obtain ⟨_, -, rfl⟩ := Option.map_eq_some_iff.1 h
      exact .inl hmem
    | serve result =>
      obtain ⟨_, -, rfl⟩ := Option.map_eq_some_iff.1 h
      exact .inl hmem
    | join u =>
      obtain ⟨seen, hseen, rfl⟩ := Option.map_eq_some_iff.1 h
      rcases List.mem_append.1 hmem with hold | hnew
      · exact .inl hold
      · obtain ⟨rfl, rfl⟩ := Prod.mk.inj (List.mem_singleton.1 hnew)
        exact .inr hseen

theorem outcome_of_join (h : Reaches l own x) {answer : Answer Value} (hmem : (t, answer) ∈ x.joins) :
    (x.account l t).outcome = some answer := by
  obtain ⟨start, hstart, hsteps⟩ := h
  induction hsteps with
  | refl =>
    rw [hstart.joins] at hmem
    cases hmem
  | @tail x y hsteps hstep ih =>
    have hx := hstart.orderly.steps hsteps
    have houtcome : (x.account l t).outcome = some answer := (joins_step hstep hmem).elim ih id
    exact (Step.account hx hstep t).outcome (hx.sound t) houtcome

/-- What can come of one task: of start, cancel and outcome, each at most once and none against
another. -/
structure Exclusive (l : LoopId) (own : Option CounterId) (x : State) (t : TaskId) (task : Task) :
    Prop where
  /-- One cancel at most returns that it has cancelled the task. -/
  cancel_once : x.replies.count (.cancelled t true) ≤ 1
  /-- No firing starts after that. -/
  cancel_final : .cancelled t true ∈ x.replies → ∀ y, ReflTransGen (Step l own) x y →
    y.history.count (.started t) = x.history.count (.started t)
  start_once : task.kind.isPeriodic = false → x.history.count (.started t) ≤ 1
  /-- Starting a one-shot task rules out that it is cancelled. -/
  start_wins : task.kind.isPeriodic = false → .started t ∈ x.history →
    task.state ≠ .cancelled ∧ .cancelled t true ∉ x.replies
  /-- It can then end only as finished, with what its job came to. -/
  start_ends : task.kind.isPeriodic = false → .started t ∈ x.history → task.state.isTerminal →
    task.state = .finished ∧ ∃ result, resultsOf t x.results = [result] ∧
      ∀ answer ∈ task.outcome, answer = EventLoop.outcomeOf task.number result
  /-- An outcome comes with a terminal state. -/
  outcome_ends : ∀ answer ∈ task.outcome, task.state.isTerminal
  /-- A terminal state and an outcome are final. -/
  final : ∀ y, ReflTransGen (Step l own) x y → ∃ after, y.scheduler.taskIn l t = some after ∧
    (task.state.isTerminal → after.state = task.state) ∧
    ∀ answer ∈ task.outcome, after.outcome = some answer
  /-- Every join returned the outcome. -/
  joins : ∀ answer, (t, answer) ∈ x.joins → task.outcome = some answer
  /-- What was replied is what the programs return. -/
  returned : ∀ L : Language, Returns L l t

theorem account_of_task {task : Task} (h : x.scheduler.taskIn l t = some task) :
    (x.account l t).state = some task.state ∧ (x.account l t).outcome = task.outcome ∧
      (x.account l t).periodic = task.kind.isPeriodic ∧ (x.account l t).number = task.number := by
  simp [State.account, standing, Standing.of, h]

theorem exists_task (h : (x.account l t).state ≠ none) :
    ∃ task, x.scheduler.taskIn l t = some task := by
  obtain ⟨state, hstate⟩ := Option.ne_none_iff_exists'.1 h
  obtain ⟨task, htask, -⟩ := taskIn_of_standing hstate
  exact ⟨task, htask⟩

/-- Whatever threads do on a loop, no task of it is both cancelled and started after that, and no
outcome is taken back. -/
theorem Reaches.exclusive {task : Task} (h : Reaches l own x)
    (htask : x.scheduler.taskIn l t = some task) : Exclusive l own x t task := by
  have hx := h.orderly
  have hsound := hx.sound t
  obtain ⟨hstate, houtcome, hperiodic, hnumber⟩ := account_of_task htask
  have hcount {e : Event} (hmem : e ∈ x.history) : 0 < x.history.count e := List.count_pos_iff.2 hmem
  have hreplies := h.count_replies t
  have hcancelled (hmem : .cancelled t true ∈ x.replies) : (x.account l t).state = some .cancelled :=
    hsound.cancelled_of_event
      (show 0 < x.history.count (.cancelled t) from hreplies ▸ List.count_pos_iff.2 hmem)
  have hstarted (hkind : task.kind.isPeriodic = false) (hmem : .started t ∈ x.history) :=
    hsound.started_cases (hperiodic.trans hkind) (hcount hmem)
  constructor
  case cancel_once => exact hreplies ▸ hsound.cancelled_le_one
  case cancel_final =>
    intro hmem y hsteps
    refine (keeps_account (P := fun a => a.state = some .cancelled ∧
      a.started = x.history.count (.started t)) ?_ hx hsteps ⟨hcancelled hmem, rfl⟩).2
    intro a b hstep ha ⟨hstate, hsame⟩
    exact ⟨hstep.terminal ha hstate rfl, (hstep.started hstate).trans hsame⟩
  case start_once =>
    intro hkind
    by_cases hmem : .started t ∈ x.history
    · exact Nat.le_of_eq (hstarted hkind hmem).1
    · rw [List.count_eq_zero_of_not_mem hmem]
      exact Nat.zero_le 1
  case start_wins =>
    intro hkind hmem
    have hne : (x.account l t).state ≠ some .cancelled := by
      rcases (hstarted hkind hmem).2 with ⟨hrunning, -⟩ | ⟨hfinished, -⟩
      · simp [hrunning]
      · simp [hfinished]
    exact ⟨fun hc => hne (hstate.trans (by rw [hc])), fun hmem => hne (hcancelled hmem)⟩
  case start_ends =>
    intro hkind hmem hterminal
    rcases (hstarted hkind hmem).2 with ⟨hrunning, -⟩ | ⟨hfinished, hresult⟩
    · rw [Option.some.inj (hstate.symm.trans hrunning)] at hterminal
      cases hterminal
    · rw [houtcome, hnumber] at hresult
      exact ⟨Option.some.inj (hstate.symm.trans hfinished), hresult⟩
  case outcome_ends =>
    intro answer hanswer
    obtain ⟨state, hstate', hterminal⟩ := hsound.terminal (houtcome.trans hanswer)
    rwa [Option.some.inj (hstate.symm.trans hstate')]
  case final =>
    intro y hsteps
    have hknown : (y.account l t).state ≠ none :=
      keeps_account (P := fun a => a.state ≠ none) (fun _ _ hstep _ => hstep.known) hx hsteps
        (by simp [hstate])
    obtain ⟨after, hafter⟩ := exists_task hknown
    obtain ⟨hstate', houtcome', -⟩ := account_of_task hafter
    refine ⟨after, hafter, fun hterminal => ?_, fun answer hanswer => ?_⟩
    · have hkept : (y.account l t).state = some task.state :=
        keeps_account (P := fun a => a.state = some task.state)
          (fun _ _ hstep ha h => hstep.terminal ha h hterminal) hx hsteps hstate
      exact Option.some.inj (hstate'.symm.trans hkept)
    · have hkept : (y.account l t).outcome = some answer :=
        keeps_account (P := fun a => a.outcome = some answer)
          (fun _ _ hstep ha => hstep.outcome ha) hx hsteps (houtcome.trans hanswer)
      exact houtcome'.symm.trans hkept
  case joins => exact fun answer hmem => houtcome.symm.trans (outcome_of_join h hmem)
  case returned => exact fun L => programs_return L l t

/-- Two tasks, one of them due much later. Two cancels of that one overlap; the other is taken and
started, and a cancel of it comes too late; the loop is stopped while its job runs; then that comes to
its end, and two joins see it. -/
def cancelAndShutMidway : List Move := [
  .call (.enqueue .oneShot 50 0), .proceed 0, .proceed 0, .proceed 0,
  .call (.enqueue .oneShot 0 1), .proceed 0, .proceed 0, .proceed 0,
  .call (.cancel 0 0), .call (.cancel 0 0), .proceed 0, .proceed 1,
  .serve (.panic none), .serve (.panic none), .serve (.panic none),
  .proceed 0, .proceed 0, .proceed 0, .proceed 0,
  .call (.cancel 1 0), .proceed 0,
  .call .shutdown, .proceed 0, .proceed 0, .proceed 0,
  .serve (.done (.ok .null)), .serve (.panic none), .serve (.panic none), .serve (.panic none),
  .join 1, .join 1]

theorem cancelAndShutMidway_exclusive : ∃ x first second, Reaches 0 (some 0) x ∧
    x.scheduler.taskIn 0 0 = some first ∧ first.state = .cancelled ∧
    x.scheduler.taskIn 0 1 = some second ∧ second.state = .finished ∧
    x.replies = [.handle 0, .handle 1, .cancelled 0 false, .cancelled 0 true, .cancelled 1 false,
      .dropped 0] ∧
    x.joins = [(1, .ok .null), (1, .ok .null)] ∧
    Exclusive 0 (some 0) x 0 first ∧ Exclusive 0 (some 0) x 1 second := by
  have hend : ((newLoop .continue).moves? 0 (some 0) cancelAndShutMidway).map (fun x =>
      ((x.scheduler.taskIn 0 0).map Task.state, (x.scheduler.taskIn 0 1).map Task.state, x.replies,
        x.joins)) =
      some (some .cancelled, some .finished, [.handle 0, .handle 1, .cancelled 0 false,
        .cancelled 0 true, .cancelled 1 false, .dropped 0], [(1, .ok .null), (1, .ok .null)]) := by
    with_unfolding_all rfl
  obtain ⟨x, hmoves, hx⟩ := Option.map_eq_some_iff.1 hend
  simp only [Prod.mk.injEq] at hx
  obtain ⟨hfirst, hsecond, hreplies, hjoins⟩ := hx
  obtain ⟨first, hin, hcancelled⟩ := Option.map_eq_some_iff.1 hfirst
  obtain ⟨second, hin', hfinished⟩ := Option.map_eq_some_iff.1 hsecond
  have hreaches := reaches_of_moves? hmoves
  exact ⟨x, first, second, hreaches, hin, hcancelled, hin', hfinished, hreplies, hjoins,
    hreaches.exclusive hin, hreaches.exclusive hin'⟩

end ScriptWorker.Scheduling
