import ScriptWorker.Proofs.Scheduling.Counting

/-!
# Slots before results

Whoever joins a task may read the counter next. A task that ends by itself gives its slot back before
it shows what it came to: a one-shot task before it is finished, a periodic task that was halted
before its failure is written. Only a cancelled task may show its end while its slot is still taken,
and then what it shows is that it was cancelled.
-/

namespace ScriptWorker.Scheduling

open Relation Scheduler

namespace Account

variable {a b : Account}

theorem Step.cancelled_outcome (h : Step a b) (ha : a.Sound)
    (hkept : a.state = some .cancelled → ∀ answer ∈ a.outcome, answer = .error (.cancelled a.number))
    (hstate : b.state = some .cancelled) :
    ∀ answer ∈ b.outcome, answer = .error (.cancelled b.number) := by
  have hnew {answer : Answer Value} (hanswer : answer ∈ a.outcome) (hnone : a.outcome = none) :
      answer = .error (.cancelled a.number) := by
    rw [hnone] at hanswer
    cases hanswer
  cases h with
  | create => cases hstate
  | refuse hoffers =>
    exact fun answer hanswer => hnew hanswer (ha.pending_of (ha.state_of_offers hoffers)).outcome
  | cancel _ hpending => exact fun answer hanswer => hnew hanswer (ha.pending_of hpending).outcome
  | cancelRunning _ hrunning =>
    exact fun answer hanswer => hnew hanswer (ha.running_of hrunning).outcome
  | settle => exact fun answer hanswer => (Option.some.inj hanswer).symm
  | discard _ hpending => exact fun answer hanswer => hnew hanswer (ha.pending_of hpending).outcome
  | start | complete | halt | rearm | loseRunning => cases hstate
  | conclude hhand => simpa [hhand] using (ha.cancelled_of hstate).hand
  | drop => exact fun answer hanswer => (Option.some.inj hanswer).symm
  | _ => exact hkept hstate

theorem Step.failed_outcome (h : Step a b) (ha : a.Sound)
    (hkept : a.state = some .failed → ∀ answer ∈ a.outcome, ∃ cause, answer = .error cause)
    (hstate : b.state = some .failed) : ∀ answer ∈ b.outcome, ∃ cause, answer = .error cause := by
  cases h with
  | create | refuse | cancel | cancelRunning | discard | start | complete | rearm | loseRunning
  | drop => cases hstate
  | settle hsettling =>
    rw [ha.state_of_settling hsettling] at hstate
    cases hstate
  | halt _ _ hrunning =>
    intro answer hanswer
    rw [show a.outcome = none from (ha.running_of hrunning).outcome] at hanswer
    cases hanswer
  | conclude hhand =>
    intro answer hanswer
    cases hanswer
    rcases (ha.failed_of hstate).cause with ⟨_, hhalted, -⟩ | ⟨cause, hsettling, -⟩ | ⟨hempty, -⟩
    · rw [hhand] at hhalted
      cases hhalted
    · rw [hhand] at hsettling
      cases hsettling
      exact ⟨cause, rfl⟩
    · rw [hhand] at hempty
      cases hempty
  | _ => exact hkept hstate

theorem Sound.released_of_outcome (ha : a.Sound)
    (hends : a.state = some .finished ∨ a.state = some .failed) (houtcome : a.outcome.isSome) :
    a.accepted = 1 ∧ a.released = 1 := by
  cases ha with
  | finished _ h => exact ⟨h.accepted.1, h.oneShot.2.2⟩
  | failed _ h =>
    refine ⟨h.accepted.1, ?_⟩
    rcases h.cause with ⟨_, -, -, hnone⟩ | ⟨_, -, hone, -⟩ | ⟨-, hone, -⟩
    · simp [hnone] at houtcome
    · exact hone
    · exact hone
  | unknown hstate | pending hstate | running hstate | cancelled hstate => simp [hstate] at hends

theorem Sound.accepted_eq_held (ha : a.Sound) (hkept : a.overflowed = 0) :
    a.accepted = a.released + if 0 < a.accepted ∧ a.released = 0 then 1 else 0 := by
  have := ha.released_le hkept
  split <;> omega

theorem Sound.known_of_accepted (ha : a.Sound) (h : 0 < a.accepted) :
    ∃ state, a.state = some state := by
  cases ha with
  | unknown _ h => have := h.tally; omega
  | pending hstate | running hstate | finished hstate | failed hstate | cancelled hstate =>
    exact ⟨_, hstate⟩

end Account

variable {l : LoopId} {own : Option CounterId} {c : CounterId} {x y : State} {t : TaskId}

def State.holders (x : State) : List TaskId :=
  (List.range x.scheduler.tasks.size).filter fun t =>
    .accepted t ∈ x.history ∧ .released t ∉ x.history

theorem count_holders (hx : (x.account l t).Sound) : x.holders.count t =
    if 0 < (x.account l t).accepted ∧ (x.account l t).released = 0 then 1 else 0 := by
  unfold State.holders
  rw [count_filter_range]
  · simp only [decide_eq_true_eq, State.account, tally, List.count_pos_iff, List.count_eq_zero]
  · simp only [decide_eq_true_eq]
    rintro ⟨haccepted, -⟩
    obtain ⟨state, hstate⟩ := hx.known_of_accepted (List.count_pos_iff.2 haccepted)
    exact lt_size hstate

/-- As long as no deadline overflows, the counter of a loop stands at the number of slots that tasks
hold, also while operations are midway. -/
theorem Reaches.count_eq_holders (h : Reaches l (some c) x) (hkept : ∀ t, .overflowed t ∉ x.history) :
    x.scheduler.count c = x.holders.length := by
  have hx := h.orderly
  obtain ⟨n, hn, hsum⟩ := h.balanced hkept
  have hcount : x.scheduler.count c = n := by
    unfold count
    rw [hn]
  have hperm : (acceptedTasks x.history).Perm (releasedTasks x.history ++ x.holders) := by
    refine List.perm_iff_count.2 fun t => ?_
    rw [List.count_append, count_acceptedTasks, count_releasedTasks, count_holders (hx.sound t)]
    exact (hx.sound t).accepted_eq_held (List.count_eq_zero_of_not_mem (hkept t))
  have hlength := hperm.length_eq
  rw [List.length_append] at hlength
  omega

/-- What each step keeps of the account of a task, and new tasks have, holds of every account. -/
theorem Reaches.of_account {P : Account → Prop} (h : Reaches l own x)
    (hnew : ∀ a : Account, a.state = none → P a)
    (hstep : ∀ a b : Account, a.Step b → a.Sound → P a → P b) (t : TaskId) : P (x.account l t) := by
  obtain ⟨start, hstart, hsteps⟩ := h
  refine keeps_account hstep hstart.orderly hsteps (hnew _ ?_)
  simp [State.account, standing, Standing.of, hstart.tasks t]

/-- What a task may show to whoever joins it. -/
inductive Shows (x : State) (t : TaskId) (task : Task) : Answer Value → Prop
  | finished (result : Outcome (Answer Value)) : task.state = .finished →
    task.kind.isPeriodic = false → resultsOf t x.results = [result] →
    x.history.count (.released t) = 1 → Shows x t task (EventLoop.outcomeOf task.number result)
  | halted (cause : Failure) : task.state = .failed → task.kind.isPeriodic = true →
    x.history.count (.released t) = 1 → Shows x t task (.error cause)
  | cancelled : task.state = .cancelled → Shows x t task (.error (.cancelled task.number))

/-- How the slot of a task stands to what the task shows. -/
structure Freed (l : LoopId) (own : Option CounterId) (x : State) (t : TaskId) (task : Task) :
    Prop where
  /-- A finished or halted task with an outcome has given back the one slot taken for it. -/
  released : task.state = .finished ∨ task.state = .failed → task.outcome.isSome →
    x.history.count (.accepted t) = 1 ∧ x.history.count (.released t) = 1
  /-- The counter of the loop then counts other tasks only. -/
  uncounted : task.state = .finished ∨ task.state = .failed → task.outcome.isSome →
    ∀ c ∈ own, (∀ u, .overflowed u ∉ x.history) →
      x.scheduler.count c = x.holders.length ∧ t ∉ x.holders
  /-- So a join sees a result or a halting failure when the slot is free, and nothing else but that
  the task was cancelled. -/
  joined : ∀ y, x.move? l own (.join t) = some y → ∃ answer, y.joins = x.joins ++ [(t, answer)] ∧
    y.scheduler = x.scheduler ∧ y.history = x.history ∧ Shows x t task answer

/-- Whatever threads do on a loop, the slot of a task that ended by itself is free before its outcome
can be seen. -/
theorem Reaches.freed {task : Task} (h : Reaches l own x) (htask : x.scheduler.taskIn l t = some task) :
    Freed l own x t task := by
  have hsound := h.orderly.sound t
  obtain ⟨hstate, houtcome, hperiodic, hnumber⟩ := account_of_task htask
  have hreleased (hends : task.state = .finished ∨ task.state = .failed)
      (hsome : task.outcome.isSome) :
      x.history.count (.accepted t) = 1 ∧ x.history.count (.released t) = 1 :=
    hsound.released_of_outcome (by rcases hends with hend | hend <;> simp [hstate, hend])
      (houtcome ▸ hsome)
  constructor
  case released => exact hreleased
  case uncounted =>
    intro hends hsome c hc hkept
    obtain rfl : own = some c := hc
    refine ⟨h.count_eq_holders hkept, fun hmem => ?_⟩
    have hnot : .released t ∉ x.history := (of_decide_eq_true (List.mem_filter.1 hmem).2).2
    have hone := (hreleased hends hsome).2
    rw [List.count_eq_zero_of_not_mem hnot] at hone
    cases hone
  case joined =>
    intro y hmove
    obtain ⟨answer, hseen, rfl⟩ := Option.map_eq_some_iff.1 hmove
    rw [htask, Option.bind_some] at hseen
    have hanswer : (x.account l t).outcome = some answer := houtcome.trans hseen
    have hfree (hends : task.state = .finished ∨ task.state = .failed) :
        x.history.count (.released t) = 1 := (hreleased hends (by simp [hseen])).2
    refine ⟨answer, rfl, rfl, rfl, ?_⟩
    obtain ⟨state, hstate', hterminal⟩ := hsound.terminal hanswer
    obtain rfl : task.state = state := Option.some.inj (hstate.symm.trans hstate')
    cases hend : task.state with
    | pending | running => simp [hend, TaskState.isTerminal] at hterminal
    | finished =>
      cases hsound with
      | finished _ hfinished =>
        obtain ⟨result, hresult, ⟨-, hnone⟩ | ⟨-, hsome⟩⟩ := hfinished.result
        · rw [hnone] at hanswer
          cases hanswer
        · rw [hsome, hnumber] at hanswer
          cases hanswer
          exact .finished result hend (hperiodic ▸ hfinished.oneShot.1) hresult (hfree (.inl hend))
      | unknown hother | pending hother | running hother | failed hother | cancelled hother =>
        rw [hstate, hend] at hother
        cases hother
    | failed =>
      have hfailed : (x.account l t).state = some .failed := hstate.trans (by rw [hend])
      obtain ⟨cause, rfl⟩ := h.of_account (P := fun a => a.state = some .failed →
          ∀ answer ∈ a.outcome, ∃ cause, answer = .error cause)
        (fun a hnone hstate => by rw [hnone] at hstate; cases hstate)
        (fun _ _ hstep ha hkept => hstep.failed_outcome ha hkept) t hfailed answer hanswer
      exact .halted cause hend (hperiodic ▸ (hsound.failed_of hfailed).periodic) (hfree (.inr hend))
    | cancelled =>
      have hcancelled : (x.account l t).state = some .cancelled := hstate.trans (by rw [hend])
      have hsame := h.of_account (P := fun a => a.state = some .cancelled →
          ∀ answer ∈ a.outcome, answer = .error (.cancelled a.number))
        (fun a hnone hstate => by rw [hnone] at hstate; cases hstate)
        (fun _ _ hstep ha hkept => hstep.cancelled_outcome ha hkept) t hcancelled answer hanswer
      rw [hsame, hnumber]
      exact .cancelled hend

/-- A periodic task is halted by its first firing while another task waits, and is joined as soon as
its outcome is there. -/
def haltAndJoin : List Move := [
  .call (.enqueue (.periodic 5) 0 0), .proceed 0, .proceed 0, .proceed 0,
  .call (.enqueue .oneShot 3 0), .proceed 0, .proceed 0, .proceed 0,
  .serve (.panic none), .serve (.panic none), .serve (.panic none),
  .serve (.done (.error (.invalidArgument "no"))), .serve (.panic none), .serve (.panic none),
  .serve (.panic none)]

theorem haltAndJoin_freed : ∃ x task, Reaches 0 (some 0) x ∧ x.scheduler.taskIn 0 0 = some task ∧
    task.state = .failed ∧ task.outcome = some (.error (.invalidArgument "no")) ∧
    x.scheduler.count 0 = 1 ∧ x.holders = [1] ∧ Freed 0 (some 0) x 0 task := by
  have hend : ((newLoop .halt).moves? 0 (some 0) haltAndJoin).map (fun x =>
      ((x.scheduler.taskIn 0 0).map fun task => (task.state, task.outcome), x.scheduler.count 0,
        x.holders)) =
      some (some (.failed, some (.error (.invalidArgument "no"))), 1, [1]) := by
    with_unfolding_all rfl
  obtain ⟨x, hmoves, hx⟩ := Option.map_eq_some_iff.1 hend
  obtain ⟨htask, hrest⟩ := Prod.mk.inj hx
  obtain ⟨hcount, hholders⟩ := Prod.mk.inj hrest
  obtain ⟨task, htask, hshown⟩ := Option.map_eq_some_iff.1 htask
  obtain ⟨hfailed, houtcome⟩ := Prod.mk.inj hshown
  have hreaches := reaches_of_moves? hmoves
  exact ⟨x, task, hreaches, htask, hfailed, houtcome, hcount, hholders, hreaches.freed htask⟩

end ScriptWorker.Scheduling
