import ScriptWorker.Proofs.Scheduling.Accounts
import ScriptWorker.Proofs.Scheduling.Acts

/-!
# Steps of threads on accounts

Each step of an operation, and of the loop's thread, is a step of the account of every task.
-/

namespace ScriptWorker.Scheduling

open Scheduler

variable {l : LoopId} {own : Option CounterId} {x y : State} {t : TaskId}

/-! ## Threads keep to their loop -/

def State.Handed (x : State) (l : LoopId) (t : TaskId) : Prop :=
  (x.account l t).state ≠ none ∧ (x.account l t).offers = 0

namespace Operation

/-- Whether an operation works on a loop, for a task that is its to work on. -/
def On (l : LoopId) (own : Option CounterId) (x : State) : Operation → Prop
  | enqueue (.create l' ..) => l' = l
  | enqueue (.accept l' ..) => l' = l
  | enqueue (.refuseRunning _) => False
  | enqueue _ => True
  | cancel t (.swapPending u c) => u = t ∧ x.Handed l t ∧ ∀ c' ∈ own, c = c'
  | cancel t (.swapRunning u c) =>
    u = t ∧ x.Handed l t ∧ (x.account l t).periodic = true ∧ ∀ c' ∈ own, c = c'
  | cancel t (.settle u c) => u = t ∧ ∀ c' ∈ own, c = c'
  | cancel t (.unqueue u c) => u = t ∧ ∀ c' ∈ own, c = c'
  | cancel t (.wake u c) => u = t ∧ ∀ c' ∈ own, c = c'
  | cancel _ (.release c) => ∀ c' ∈ own, c = c'
  | shutdown (.stop l') => l' = l
  | shutdown _ => True

end Operation

def Service.On (l : LoopId) : Service → Prop
  | serving (.poll l') => l' = l
  | serving (.parked l') => l' = l
  | _ => True

/-- All that goes on is on one loop. -/
structure State.Orderly (x : State) (l : LoopId) (own : Option CounterId) : Prop where
  loop : ∃ c, x.scheduler.counterIn l = some c ∧ ∀ c' ∈ own, c = c'
  operations : ∀ op ∈ x.operations, op.On l own x
  service : x.service.On l
  sound : ∀ t, (x.account l t).Sound

theorem State.Orderly.exists_loop (hx : x.Orderly l own) :
    ∃ loop, x.scheduler.loops.get? l = some loop := by
  obtain ⟨c, hc, -⟩ := hx.loop
  obtain ⟨loop, hloop, -⟩ := Option.map_eq_some_iff.1 hc
  exact ⟨loop, hloop⟩

/-! ## Operations -/

/-- The account of a task as a step of an operation leaves it: `others` are all the other
operations. -/
def State.accountAfter (x : State) (l : LoopId) (t : TaskId) (others : List Operation)
    (s : Scheduler) (next : Option Operation) (events : List Event) : Account :=
  { x.account l t with
    toStanding := s.standing l t
    toStakes := stakes t others + stakes t next.toList
    toTally := tally t (x.history ++ events) }

section

variable {others : List Operation} {s : Scheduler} {next : Option Operation} {op : Operation}

theorem proceed_eq {place : Nat} (h : x.move? l own (.proceed place) = some y) :
    ∃ op s next others, op ∈ x.operations ∧ op.advance x.scheduler = some (s, next) ∧
      (∀ t, stakes t x.operations = stakes t others + op.stakes t) ∧
      (∀ t, y.account l t = x.accountAfter l t others s next (op.events x.scheduler)) ∧
      ∀ op' ∈ y.operations, op' ∈ x.operations ∨ next = some op' := by
  obtain ⟨op, hop, hadvance⟩ := Option.bind_eq_some_iff.1 h
  obtain ⟨⟨s, next⟩, hstep, rfl⟩ := Option.map_eq_some_iff.1 hadvance
  obtain ⟨hlt, hget⟩ := List.getElem?_eq_some_iff.1 hop
  have hops : x.operations = x.operations.take place ++ op :: x.operations.drop (place + 1) := by
    rw [← hget, ← List.drop_eq_getElem_cons hlt, List.take_append_drop]
  have hshare (t : TaskId) : stakes t x.operations =
      stakes t (x.operations.take place ++ x.operations.drop (place + 1)) + op.stakes t := by
    conv_lhs => rw [hops]
    rw [stakes_append, stakes_append, stakes, Stakes.add_comm (op.stakes t), Stakes.add_assoc]
  refine ⟨op, s, next, _, List.mem_of_getElem? hop, hstep, hshare, fun t => ?_, fun op' hop' => ?_⟩
  · simp only [State.account, State.accountAfter, stakes_append]
    rw [Stakes.add_comm (stakes t next.toList), Stakes.add_assoc]
  · simp only [List.mem_append, Option.mem_toList] at hop'
    rcases hop' with hop' | rfl | hop'
    · exact .inl (List.mem_of_mem_take hop')
    · exact .inr rfl
    · exact .inl (List.mem_of_mem_drop hop')

theorem exists_share (h : op ∈ x.operations) (t : TaskId) :
    ∃ others, stakes t x.operations = stakes t others + op.stakes t := by
  obtain ⟨before, after, hops⟩ := List.append_of_mem h
  refine ⟨before ++ after, ?_⟩
  rw [hops, stakes_append, stakes_append, stakes, Stakes.add_comm (op.stakes t), Stakes.add_assoc]

theorem state_of_refuse (hx : x.Orderly l own) {u : TaskId}
    (h : .enqueue (.refuse u) ∈ x.operations) : (x.scheduler.standing l u).state = some .pending := by
  obtain ⟨others, hshare⟩ := exists_share h u
  refine (hx.sound u).state_of_offers ?_
  simp [State.account, hshare, Operation.stakes, Stakes.add_eq]

theorem state_of_settling (hx : x.Orderly l own) {u : TaskId} (h : op ∈ x.operations)
    (hsettling : 0 < (op.stakes u).settling) :
    (x.scheduler.standing l u).state = some .cancelled := by
  obtain ⟨others, hshare⟩ := exists_share h u
  refine (hx.sound u).state_of_settling ?_
  simp only [State.account, hshare, Stakes.add_eq]
  omega

theorem state_of_claims (hx : x.Orderly l own) {u : TaskId} (h : op ∈ x.operations)
    (hclaims : 0 < (op.stakes u).claims) : (x.scheduler.standing l u).state = some .cancelled := by
  obtain ⟨others, hshare⟩ := exists_share h u
  refine (hx.sound u).state_of_claims ?_
  simp only [State.account, hshare, Stakes.add_eq]
  omega

theorem state_of_passing (hx : x.Orderly l own) {u : TaskId} (h : op ∈ x.operations)
    (hpassing : 0 < (op.stakes u).passing) :
    (x.scheduler.standing l u).state = some .cancelled := by
  obtain ⟨others, hshare⟩ := exists_share h u
  refine (hx.sound u).state_of_passing ?_
  simp only [State.account, hshare, Stakes.add_eq]
  omega

theorem state_of_drained (hx : x.Orderly l own) {u : TaskId} (h : op ∈ x.operations)
    (hdrained : 0 < (op.stakes u).drained) :
    (x.scheduler.standing l u).state = some .pending ∨
      (x.scheduler.standing l u).state = some .cancelled := by
  obtain ⟨others, hshare⟩ := exists_share h u
  refine (hx.sound u).state_of_drained ?_
  simp only [State.account, hshare, Stakes.add_eq]
  omega

theorem linked_le_claims (t : TaskId) (operations : List Operation) :
    (stakes t operations).linked ≤ (stakes t operations).claims := by
  induction operations with
  | nil => exact Nat.le_refl _
  | cons op rest ih =>
    have hop : (op.stakes t).linked ≤ (op.stakes t).claims := by
      unfold Operation.stakes
      split <;> (try split) <;> simp [Stakes.zero_eq]
    exact Nat.add_le_add hop ih

/-- A step that has nothing to do with a task leaves its account. -/
theorem step_aside (hshare : stakes t x.operations = stakes t others + op.stakes t)
    (hstanding : s.standing l t = x.scheduler.standing l t)
    (hnext : stakes t next.toList = op.stakes t)
    (hevents : ∀ e ∈ op.events x.scheduler, e.task ≠ t) :
    (x.account l t).Step (x.accountAfter l t others s next (op.events x.scheduler)) := by
  unfold State.accountAfter
  rw [hnext, ← hshare, tally_append_of_ne hevents, hstanding]
  exact .quiet

theorem step_settle {u : TaskId} (hx : x.Orderly l own) (hmem : op ∈ x.operations)
    (hshare : stakes t x.operations = stakes t others + op.stakes t)
    (hstakes : ∀ t, op.stakes t = stakes t next.toList + if u = t then { settling := 1 } else 0)
    (hevents : op.events x.scheduler = []) :
    (x.account l t).Step (x.accountAfter l t others (x.scheduler.settleCancelled u) next
      (op.events x.scheduler)) := by
  by_cases ht : u = t
  · subst ht
    have hstate := state_of_settling hx (u := u) hmem (by simp [hstakes, Stakes.add_eq])
    have hstep := Account.Step.settle (a := x.account l u)
      (by simp only [State.account, hshare, hstakes, Stakes.add_eq, if_true]; omega)
    simpa [State.accountAfter, hevents, State.account, hshare, standing_settleCancelled hstate,
      hstakes, Stakes.add_eq, Standing.withOutcome] using hstep
  · exact step_aside hshare (standing_settleCancelled_of_ne ht) (by simp [hstakes, ht])
      (by simp [hevents])

theorem step_enqueue {stage : Enqueue} (hx : x.Orderly l own)
    (hmem : .enqueue stage ∈ x.operations)
    (hshare : stakes t x.operations = stakes t others + (Operation.enqueue stage).stakes t)
    (h : (Operation.enqueue stage).advance x.scheduler = some (s, next)) :
    (x.account l t).Step (x.accountAfter l t others s next
      ((Operation.enqueue stage).events x.scheduler)) := by
  obtain ⟨loop, hloop⟩ := hx.exists_loop
  have hon := hx.operations _ hmem
  cases stage with
  | create l' kind delay job =>
    obtain rfl : l' = l := hon
    change some ((x.scheduler.createTask l' kind job).2, some (Operation.enqueue
      (.accept l' x.scheduler.tasks.size delay))) = some (s, next) at h
    obtain ⟨rfl, rfl⟩ := Prod.mk.inj (Option.some.inj h)
    by_cases ht : t = x.scheduler.tasks.size
    · subst ht
      obtain ⟨number, hnumber⟩ :=
        standing_createTask (s := x.scheduler) (l := l') kind job
      have hstep := Account.Step.create (a := x.account l' x.scheduler.tasks.size)
        kind.isPeriodic number (standing_size l')
      simpa [State.accountAfter, hnumber, Operation.events, State.account, hshare, Operation.stakes,
        stakes, Stakes.add_eq, Stakes.zero_eq] using hstep
    · exact step_aside hshare (standing_createTask_of_ne ht)
        (by simp [stakes, Operation.stakes, Ne.symm ht]) (by simp [Operation.events])
  | accept l' u delay =>
    obtain rfl : l' = l := hon
    rcases accept_cases (t := u) hloop delay with
      ⟨haccept, -⟩ | ⟨haccept, hrunning⟩ | ⟨deadline, hrunning, haccept⟩
    · simp only [Operation.advance, Enqueue.advance, haccept, afterStep] at h
      obtain ⟨rfl, rfl⟩ := Prod.mk.inj (Option.some.inj h)
      exact step_aside hshare rfl (by simp [stakes, Operation.stakes])
        (by simp [Operation.events, haccept])
    · simp only [Operation.advance, Enqueue.advance, haccept, afterStep] at h
      obtain ⟨rfl, rfl⟩ := Prod.mk.inj (Option.some.inj h)
      by_cases ht : u = t
      · subst ht
        have hstep := Account.Step.lose (a := x.account l' u)
          (by simp [State.account, hshare, Operation.stakes, Stakes.add_eq])
        simpa [State.accountAfter, haccept, Operation.events, State.account, hshare,
          Operation.stakes, stakes, Stakes.add_eq, Stakes.zero_eq, tally] using hstep
      · exact step_aside hshare rfl (by simp [stakes, Operation.stakes, ht])
          (by simp [Operation.events, haccept, Event.task, ht])
    · simp only [Operation.advance, Enqueue.advance, haccept, afterStep] at h
      obtain ⟨rfl, rfl⟩ := Prod.mk.inj (Option.some.inj h)
      have hstanding := standing_push (s := x.scheduler.increment loop.counter) (t := u) (u := t)
        hloop deadline
      rw [standing_increment] at hstanding
      by_cases ht : u = t
      · subst ht
        have hstep := Account.Step.accept (a := x.account l' u)
          (by simp [State.account, hshare, Operation.stakes, Stakes.add_eq])
          ((standing_running hloop).trans hrunning)
        simpa [State.accountAfter, haccept, Operation.events, State.account, hshare, hstanding,
          Operation.stakes, stakes, Stakes.add_eq, Stakes.zero_eq, tally, Standing.withQueued]
          using hstep
      · exact step_aside hshare (by rw [hstanding, if_neg ht]; rfl)
          (by simp [stakes, Operation.stakes, ht])
          (by simp [Operation.events, haccept, Event.task, ht])
  | announce l' u =>
    cases h
    exact step_aside hshare (standing_notify l') (by simp [stakes, Operation.stakes])
      (by simp [Operation.events])
  | refuse u =>
    have hstate := state_of_refuse hx hmem
    have htransition := transition_eq hstate .pending .cancelled
    rw [if_pos rfl] at htransition
    simp only [Operation.advance, Enqueue.advance, htransition, afterStep] at h
    obtain ⟨rfl, rfl⟩ := Prod.mk.inj (Option.some.inj h)
    by_cases ht : u = t
    · subst ht
      have hstep := Account.Step.refuse (a := x.account l u)
        (by simp [State.account, hshare, Operation.stakes, Stakes.add_eq])
      simpa [State.accountAfter, Operation.events, State.account, hshare,
        standing_setState hstate, Operation.stakes, stakes, Stakes.add_eq, Stakes.zero_eq, tally,
        Standing.inState] using hstep
    · exact step_aside hshare (standing_setState_of_ne ht _) (by simp [stakes, Operation.stakes, ht])
        (by simp [Operation.events])
  | refuseRunning u => exact hon.elim
  | refuseSettle u =>
    cases h
    exact step_settle hx hmem hshare (fun _ => by simp [stakes, Operation.stakes]) rfl

theorem step_cancel {u : TaskId} {stage : Cancel} (hx : x.Orderly l own)
    (hmem : .cancel u stage ∈ x.operations)
    (hshare : stakes t x.operations = stakes t others + (Operation.cancel u stage).stakes t)
    (h : (Operation.cancel u stage).advance x.scheduler = some (s, next)) :
    (x.account l t).Step (x.accountAfter l t others s next
      ((Operation.cancel u stage).events x.scheduler)) := by
  obtain ⟨loop, hloop⟩ := hx.exists_loop
  have hon := hx.operations _ hmem
  cases stage with
  | swapPending u' c =>
    obtain ⟨rfl, ⟨hknown, hoffers⟩, -⟩ := hon
    obtain ⟨state, hstate⟩ := Option.ne_none_iff_exists'.1 hknown
    have htransition := transition_eq hstate .pending .cancelled
    by_cases hpending : state = .pending
    · rw [if_pos hpending] at htransition
      simp only [Operation.advance, Cancel.advance, htransition, afterStep] at h
      obtain ⟨rfl, rfl⟩ := Prod.mk.inj (Option.some.inj h)
      by_cases ht : u' = t
      · subst ht
        have hstep := Account.Step.cancel (a := x.account l u') hoffers (hstate.trans (by rw [hpending]))
        simpa [State.accountAfter, Operation.events, State.account, hshare,
          standing_setState hstate, Operation.stakes, stakes, Stakes.add_eq, Stakes.zero_eq,
          Standing.inState] using hstep
      · exact step_aside hshare (standing_setState_of_ne ht _)
          (by simp [stakes, Operation.stakes, ht]) (by simp [Operation.events])
    · rw [if_neg hpending] at htransition
      simp only [Operation.advance, Cancel.advance, htransition] at h
      split at h
      · obtain ⟨rfl, rfl⟩ := Prod.mk.inj (Option.some.inj h)
        exact step_aside hshare rfl (by simp [stakes, Operation.stakes]) (by simp [Operation.events])
      · obtain ⟨rfl, rfl⟩ := Prod.mk.inj (Option.some.inj h)
        exact step_aside hshare rfl (by simp [stakes, Operation.stakes]) (by simp [Operation.events])
  | swapRunning u' c =>
    obtain ⟨rfl, ⟨hknown, -⟩, hperiodic, -⟩ := hon
    obtain ⟨state, hstate⟩ := Option.ne_none_iff_exists'.1 hknown
    have htransition := transition_eq hstate .running .cancelled
    by_cases hrunning : state = .running
    · rw [if_pos hrunning] at htransition
      simp only [Operation.advance, Cancel.advance, htransition, afterStep] at h
      obtain ⟨rfl, rfl⟩ := Prod.mk.inj (Option.some.inj h)
      by_cases ht : u' = t
      · subst ht
        have hstep := Account.Step.cancelRunning (a := x.account l u') hperiodic
          (hstate.trans (by rw [hrunning]))
        simpa [State.accountAfter, Operation.events, State.account, hshare,
          standing_setState hstate, Operation.stakes, stakes, Stakes.add_eq, Stakes.zero_eq,
          Standing.inState] using hstep
      · exact step_aside hshare (standing_setState_of_ne ht _)
          (by simp [stakes, Operation.stakes, ht]) (by simp [Operation.events])
    · rw [if_neg hrunning] at htransition
      simp only [Operation.advance, Cancel.advance, htransition, afterStep] at h
      obtain ⟨rfl, rfl⟩ := Prod.mk.inj (Option.some.inj h)
      exact step_aside hshare rfl (by simp [stakes, Operation.stakes]) (by simp [Operation.events])
  | settle u' c =>
    obtain ⟨rfl, -⟩ := hon
    cases h
    refine step_settle hx hmem hshare (fun t' => ?_) rfl
    by_cases ht : u' = t' <;> simp [stakes, Operation.stakes, ht, Stakes.add_eq, Stakes.zero_eq]
  | unqueue u' c =>
    obtain ⟨rfl, -⟩ := hon
    have hstate := state_of_claims hx (u := u') hmem (by simp [Operation.stakes])
    obtain ⟨removed, hunqueue⟩ := unqueue_cases (t := u') hloop
    have hnext : s = x.scheduler.modifyLoop l (fun loop' =>
          { loop' with queue := (loop.queue.retain fun other => other != u').2 }) ∧
        (next = some (.cancel u' (.wake u' c)) ∨ next = some (.cancel u' (.release c))) := by
      simp only [Operation.advance, Cancel.advance, ownerOf_eq hstate, hunqueue] at h
      cases removed <;> cases h <;> simp
    obtain ⟨rfl, hnext⟩ := hnext
    have hafter : stakes t next.toList = if u' = t then { claims := 1 } else 0 := by
      rcases hnext with rfl | rfl <;> simp [stakes, Operation.stakes]
    have hstanding := standing_unqueue (t := u') (u := t) hloop
    by_cases ht : u' = t
    · subst ht
      have hstep := Account.Step.unqueue (a := x.account l u')
        (by simp [State.account, hshare, Operation.stakes, Stakes.add_eq])
        (by simp [State.account, hshare, Operation.stakes, Stakes.add_eq])
      simpa [State.accountAfter, Operation.events, State.account, hshare, hstanding, hafter,
        Operation.stakes, Stakes.add_eq, Standing.withQueued] using hstep
    · exact step_aside hshare (by rw [hstanding, if_neg ht]; rfl)
        (by rw [hafter]; simp [Operation.stakes, ht]) (by simp [Operation.events])
  | wake u' c =>
    cases h
    exact step_aside hshare (standing_notify _) (by simp [stakes, Operation.stakes])
      (by simp [Operation.events])
  | release c =>
    cases h
    by_cases ht : u = t
    · subst ht
      have hlinked : (stakes u others).linked ≤ (stakes u others).claims :=
        linked_le_claims u others
      have hstep := Account.Step.release (a := x.account l u)
        (by simp only [State.account, hshare, Operation.stakes, Stakes.add_eq, if_true]; omega)
      simpa [State.accountAfter, Operation.events, State.account, hshare, Operation.stakes, stakes,
        Stakes.add_eq, Stakes.zero_eq, tally] using hstep
    · exact step_aside hshare rfl (by simp [stakes, Operation.stakes, ht])
        (by simp [Operation.events, Event.task, ht])

theorem step_shutdown {stage : Shutdown} (hx : x.Orderly l own)
    (hmem : .shutdown stage ∈ x.operations)
    (hshare : stakes t x.operations = stakes t others + (Operation.shutdown stage).stakes t)
    (h : (Operation.shutdown stage).advance x.scheduler = some (s, next)) :
    (x.account l t).Step (x.accountAfter l t others s next
      ((Operation.shutdown stage).events x.scheduler)) := by
  obtain ⟨loop, hloop⟩ := hx.exists_loop
  have hon := hx.operations _ hmem
  cases stage with
  | stop l' =>
    obtain rfl : l' = l := hon
    simp only [Operation.advance, Shutdown.advance, stop_eq hloop, afterStep] at h
    obtain ⟨rfl, rfl⟩ := Prod.mk.inj (Option.some.inj h)
    have hstep := Account.Step.drain (a := x.account l' t)
    simpa [State.accountAfter, Operation.events, State.account, hshare, standing_stop hloop,
      count_drain hloop, Operation.stakes, stakes, Stakes.add_eq, Stakes.zero_eq] using hstep
  | wake l' rest =>
    cases h
    exact step_aside hshare (standing_notify l') (by simp [stakes, Operation.stakes])
      (by simp [Operation.events])
  | discard rest dropped =>
    cases rest with
    | nil =>
      cases h
      exact step_aside hshare rfl (by simp [stakes, Operation.stakes, Stakes.zero_eq])
        (by simp [Operation.events])
    | cons u rest =>
      rcases state_of_drained hx (u := u) hmem (by simp [Operation.stakes]) with hstate | hstate
      · have htransition := transition_eq hstate .pending .cancelled
        rw [if_pos rfl] at htransition
        simp only [Operation.advance, Shutdown.advance, htransition, afterStep] at h
        obtain ⟨rfl, rfl⟩ := Prod.mk.inj (Option.some.inj h)
        by_cases ht : u = t
        · subst ht
          have hstep := Account.Step.discard (a := x.account l u)
            (by
              simp only [State.account, hshare, Operation.stakes, Stakes.add_eq, List.count_cons_self]
              omega) hstate
          simpa [State.accountAfter, Operation.events, State.account, hshare, htransition,
            standing_setState hstate, Operation.stakes, stakes, Stakes.add_eq, Stakes.zero_eq, tally,
            Standing.inState] using hstep
        · exact step_aside hshare (standing_setState_of_ne ht _)
            (by simp [stakes, Operation.stakes, ht])
            (by simp [Operation.events, htransition, Event.task, ht])
      · have htransition := transition_eq hstate .pending .cancelled
        rw [if_neg (by simp)] at htransition
        simp only [Operation.advance, Shutdown.advance, htransition, afterStep] at h
        obtain ⟨rfl, rfl⟩ := Prod.mk.inj (Option.some.inj h)
        by_cases ht : u = t
        · subst ht
          have hstep := Account.Step.miss (a := x.account l u)
            (by
              simp only [State.account, hshare, Operation.stakes, Stakes.add_eq, List.count_cons_self]
              omega)
            (by rw [show (x.account l u).state = some .cancelled from hstate]; simp)
          simpa [State.accountAfter, Operation.events, State.account, hshare, htransition,
            Operation.stakes, stakes, Stakes.add_eq, Stakes.zero_eq] using hstep
        · exact step_aside hshare rfl (by simp [stakes, Operation.stakes, ht])
            (by simp [Operation.events, htransition])
  | discardRunning u rest dropped =>
    have hstate := state_of_passing hx (u := u) hmem (by simp [Operation.stakes])
    have htransition := transition_eq hstate .running .cancelled
    rw [if_neg (by simp)] at htransition
    simp only [Operation.advance, Shutdown.advance, htransition, afterStep] at h
    obtain ⟨rfl, rfl⟩ := Prod.mk.inj (Option.some.inj h)
    by_cases ht : u = t
    · subst ht
      have hstep := Account.Step.pass (a := x.account l u)
        (by simp [State.account, hshare, Operation.stakes, Stakes.add_eq])
      simpa [State.accountAfter, Operation.events, State.account, hshare, htransition,
        Operation.stakes, stakes, Stakes.add_eq, Stakes.zero_eq] using hstep
    · exact step_aside hshare rfl (by simp [stakes, Operation.stakes, ht])
        (by simp [Operation.events, htransition])
  | settle u rest dropped =>
    cases h
    refine step_settle hx hmem hshare (fun t' => ?_) rfl
    by_cases ht : u = t' <;> simp [stakes, Operation.stakes, ht, Stakes.add_eq, Stakes.zero_eq]

end

/-! ## The loop's thread -/

section

variable {s : Scheduler} {service : Service} {result : Outcome (Answer Value)}

def State.accountServed (x : State) (l : LoopId) (t : TaskId) (s : Scheduler) (service : Service)
    (result : Outcome (Answer Value)) : Account :=
  { x.account l t with
    toStanding := s.standing l t
    toTally := tally t (x.history ++ x.service.events x.scheduler)
    hand := service.hand t
    results := resultsOf t (x.results ++ x.service.results result) }

theorem serve_aside (hstanding : s.standing l t = x.scheduler.standing l t)
    (hhand : service.hand t = x.service.hand t)
    (hevents : ∀ e ∈ x.service.events x.scheduler, e.task ≠ t)
    (hresults : resultsOf t (x.service.results result) = []) :
    (x.account l t).Step (x.accountServed l t s service result) := by
  unfold State.accountServed
  rw [hstanding, hhand, tally_append_of_ne hevents, resultsOf_append, hresults, List.append_nil]
  exact .quiet

theorem serve_leave {u : TaskId} (hhand : ∀ t, x.service.hand t = if u = t then .ending else .empty)
    (hstate : (x.scheduler.standing l u).state = some .cancelled) (hend : service.hand t = .empty)
    (hevents : x.service.events x.scheduler = []) (hresults : x.service.results result = []) :
    (x.account l t).Step (x.accountServed l t x.scheduler service result) := by
  by_cases ht : u = t
  · subst ht
    have hstep := Account.Step.leave (a := x.account l u) (by simp [State.account, hhand])
      (by rw [show (x.account l u).state = some .cancelled from hstate]; simp)
    simpa [State.accountServed, State.account, hevents, hend, hresults] using hstep
  · exact serve_aside rfl (by rw [hend, hhand, if_neg ht]) (by simp [hevents])
      (by simp [hresults, resultsOf])

theorem step_serving {stage : Serve} (hx : x.Orderly l own) (hservice : x.service = .serving stage)
    (h : (Service.serving stage).advance l result x.scheduler = some (s, service)) :
    (x.account l t).Step (x.accountServed l t s service result) := by
  obtain ⟨loop, hloop⟩ := hx.exists_loop
  have hon := hx.service
  rw [hservice] at hon
  have haside (hstanding : s.standing l t = x.scheduler.standing l t)
      (hhand : service.hand t = .empty) :
      (x.account l t).Step (x.accountServed l t s service result) :=
    serve_aside hstanding (by rw [hhand, hservice]; rfl)
      (by simp [hservice, Service.events]) (by simp [hservice, Service.results, resultsOf])
  cases stage with
  | poll l' =>
    obtain rfl : l' = l := hon
    rcases poll_cases hloop with ⟨hpoll, -⟩ | ⟨u, queue, -, hpop, hpoll⟩ | hpoll
    · simp only [Service.advance, Serve.advance, hpoll] at h
      obtain ⟨rfl, rfl⟩ := Prod.mk.inj (Option.some.inj h)
      exact haside rfl rfl
    · simp only [Service.advance, Serve.advance, hpoll] at h
      obtain ⟨rfl, rfl⟩ := Prod.mk.inj (Option.some.inj h)
      have hstanding := standing_pop (u := t) hloop hpop
      by_cases ht : u = t
      · subst ht
        have hqueued : 0 < (x.account l' u).queued := by
          change 0 < (x.scheduler.standing l' u).queued
          rw [standing_queued hloop, (DelayQueue.perm_popReady hpop).count_eq]
          simp
        have hstep := Account.Step.take (a := x.account l' u) hqueued
          (by simp [State.account, hservice, Service.hand])
        simpa [State.accountServed, State.account, hservice, hstanding, Service.hand,
          Service.events, Service.results, Standing.withQueued] using hstep
      · exact haside (by rw [hstanding, if_neg ht]; rfl) (by simp [Service.hand, ht])
    · simp only [Service.advance, Serve.advance, hpoll] at h
      obtain ⟨rfl, rfl⟩ := Prod.mk.inj (Option.some.inj h)
      exact haside (standing_sleep hloop) rfl
  | parked l' =>
    by_cases hawake : x.scheduler.awake l' = true
    · simp only [Service.advance, Serve.advance, hawake, if_true] at h
      obtain ⟨rfl, rfl⟩ := Prod.mk.inj (Option.some.inj h)
      exact haside (standing_notify l') rfl
    · simp [Service.advance, Serve.advance, hawake] at h

theorem step_starting {stage : Start} (hx : x.Orderly l own) (hservice : x.service = .starting stage)
    (h : (Service.starting stage).advance l result x.scheduler = some (s, service)) :
    (x.account l t).Step (x.accountServed l t s service result) := by
  cases stage with
  | swap u =>
    have hhand : (x.account l u).hand = .taken := by simp [State.account, hservice, Service.hand]
    rcases (hx.sound u).state_of_taken hhand with hstate | hstate
    · have htransition := transition_eq (l := l) hstate .pending .running
      rw [if_pos rfl] at htransition
      simp only [Service.advance, Start.advance, htransition] at h
      obtain ⟨rfl, rfl⟩ := Prod.mk.inj (Option.some.inj h)
      by_cases ht : u = t
      · subst ht
        have hstep := Account.Step.start hhand hstate
        simpa [State.accountServed, State.account, hservice, htransition, Service.hand,
          standing_setState hstate, Service.events, Service.results, resultsOf, tally,
          Standing.inState] using hstep
      · exact serve_aside (standing_setState_of_ne ht _) (by simp [hservice, Service.hand, ht])
          (by simp [hservice, Service.events, htransition, Event.task, ht])
          (by simp [hservice, Service.results, resultsOf])
    · have htransition := transition_eq (l := l) hstate .pending .running
      rw [if_neg (by simp)] at htransition
      simp only [Service.advance, Start.advance, htransition] at h
      obtain ⟨rfl, rfl⟩ := Prod.mk.inj (Option.some.inj h)
      by_cases ht : u = t
      · subst ht
        have hstep := Account.Step.skip hhand
          (by rw [show (x.account l u).state = some .cancelled from hstate]; simp)
        simpa [State.accountServed, State.account, hservice, htransition, Service.hand,
          Service.events, Service.results, resultsOf] using hstep
      · exact serve_aside rfl (by simp [hservice, Service.hand, ht])
          (by simp [hservice, Service.events, htransition])
          (by simp [hservice, Service.results, resultsOf])
  | count u =>
    have hhand : (x.account l u).hand = .firing := by simp [State.account, hservice, Service.hand]
    obtain ⟨state, hstate⟩ := (hx.sound u).known_of_hand (by rw [hhand]; rfl)
    have hcounted : ((x.scheduler.countFiring u).standing l u).state = some state := by
      rw [standing_countFiring]
      exact hstate
    obtain ⟨task, htask⟩ := Option.isSome_iff_exists.1 (isSome_task? hcounted)
    simp only [Service.advance, Start.advance, htask, Option.map_some] at h
    obtain ⟨rfl, rfl⟩ := Prod.mk.inj (Option.some.inj h)
    exact serve_aside standing_countFiring (by rw [hservice]; rfl) (by simp [hservice, Service.events])
      (by simp [hservice, Service.results, resultsOf])

theorem hand_conclusion (sch : Scheduler) (u : TaskId) (result : Outcome (Answer Value)) :
    (Service.concluding (EventLoop.conclusion sch u result)).hand t =
      if u = t then
        (if (sch.kindOf u).isPeriodic then .ending
        else .releasing (EventLoop.outcomeOf (sch.numberOf u) result))
      else .empty := by
  unfold EventLoop.conclusion
  cases sch.kindOf u with
  | oneShot => rfl
  | periodic interval =>
    cases EventLoop.outcomeOf (sch.numberOf u) result <;> cases sch.policyOf u <;> rfl

theorem step_firing {u : TaskId} (hx : x.Orderly l own) (hservice : x.service = .firing u)
    (h : (Service.firing u).advance l result x.scheduler = some (s, service)) :
    (x.account l t).Step (x.accountServed l t s service result) := by
  have hhand : (x.account l u).hand = .firing := by simp [State.account, hservice, Service.hand]
  obtain ⟨state, hstate⟩ := (hx.sound u).known_of_hand (by rw [hhand]; rfl)
  have hperiodic := isPeriodic_kindOf hstate
  obtain ⟨rfl, rfl⟩ := Prod.mk.inj (Option.some.inj h)
  by_cases ht : u = t
  · subst ht
    cases hkind : (x.scheduler.kindOf u).isPeriodic with
    | false =>
      have hstep := Account.Step.finish result hhand (hperiodic.symm.trans hkind)
      simpa [State.accountServed, State.account, hservice, hand_conclusion, hkind, numberOf_eq hstate,
        Service.events, Service.results, resultsOf] using hstep
    | true =>
      have hstep := Account.Step.fire result hhand (hperiodic.symm.trans hkind)
      simpa [State.accountServed, State.account, hservice, hand_conclusion, hkind, Service.events,
        Service.results, resultsOf] using hstep
  · exact serve_aside rfl (by rw [hand_conclusion, if_neg ht, hservice, Service.hand, if_neg ht])
      (by simp [hservice, Service.events]) (by simp [hservice, Service.results, resultsOf, ht])

theorem events_rearm {u : TaskId} (interval : Duration) {state : TaskState} {loop : EventLoop}
    (hloop : x.scheduler.loops.get? l = some loop)
    (hstate : (x.scheduler.standing l u).state = some state) (hpending : state ≠ .pending) :
    (Service.concluding (.rearm u interval)).events x.scheduler =
      if (x.scheduler.rearm u interval).1 = .overflow then [.overflowed u]
      else if loop.running = false ∧ state = .running then [.discarded u] else [] := by
  have hrunning : x.scheduler.isRunning l = loop.running := standing_running (u := u) hloop
  simp only [Service.events, ownerOf_eq hstate, hrunning, transition_eq hstate, hpending, if_false]
  by_cases hstopped : loop.running = false <;> by_cases hstate : state = .running <;>
    simp [hstopped, hstate]

theorem step_rearming {u : TaskId} {interval : Duration} (hx : x.Orderly l own)
    (hservice : x.service = .concluding (.rearm u interval))
    (h : (Service.concluding (.rearm u interval)).advance l result x.scheduler = some (s, service)) :
    (x.account l t).Step (x.accountServed l t s service result) := by
  obtain ⟨loop, hloop⟩ := hx.exists_loop
  have hhand : (x.account l u).hand = .ending := by simp [State.account, hservice, Service.hand]
  rcases (hx.sound u).state_of_ending hhand with hstate | hstate
  · have hevents := events_rearm interval hloop hstate (by simp)
    rcases rearm_cases hloop hstate interval with
      ⟨hrearm, hstopped⟩ | ⟨-, -, hnot⟩ | ⟨hrearm, hruns, -⟩ | ⟨deadline, hruns, -, hrearm⟩
    · rw [discardNow_eq hstate, if_pos (.inr rfl)] at hrearm
      have hset := standing_setState hstate .cancelled
      simp only [Service.advance, Conclude.advance, hrearm] at h
      obtain ⟨rfl, rfl⟩ := Prod.mk.inj (Option.some.inj h)
      simp only [hrearm, hstopped, and_self, if_true, reduceCtorEq, if_false] at hevents
      by_cases ht : u = t
      · subst ht
        have hstep := Account.Step.drop hhand hstate
        have hsettle := standing_settleCancelled (s := x.scheduler.setState u .cancelled) (l := l)
          (t := u) (show _ = some .cancelled by rw [hset]; rfl)
        simpa [State.accountServed, State.account, hservice, hevents, hsettle, hset, Service.hand,
          Service.results, tally, Standing.inState, Standing.withOutcome] using hstep
      · refine serve_aside ?_ (by simp [hservice, Service.hand, ht])
          (by simp [hservice, hevents, Event.task, ht]) (by simp [hservice, Service.results, resultsOf])
        rw [standing_settleCancelled_of_ne ht, standing_setState_of_ne ht]
    · exact absurd rfl hnot
    · simp only [Service.advance, Conclude.advance, hrearm] at h
      obtain ⟨rfl, rfl⟩ := Prod.mk.inj (Option.some.inj h)
      simp only [hrearm, if_true] at hevents
      by_cases ht : u = t
      · subst ht
        have hstep := Account.Step.loseRunning hhand hstate ((standing_running hloop).trans hruns)
        simpa [State.accountServed, State.account, hservice, hevents, standing_setState hstate,
          Service.hand, Service.results, tally, Standing.inState] using hstep
      · exact serve_aside (standing_setState_of_ne ht _) (by simp [hservice, Service.hand, ht])
          (by simp [hservice, hevents, Event.task, ht]) (by simp [hservice, Service.results, resultsOf])
    · simp only [Service.advance, Conclude.advance, hrearm] at h
      obtain ⟨rfl, rfl⟩ := Prod.mk.inj (Option.some.inj h)
      simp only [hrearm, hruns, reduceCtorEq, false_and, if_false] at hevents
      have hstanding := standing_push (s := x.scheduler.setState u .pending) (t := u) (u := t) hloop
        deadline
      by_cases ht : u = t
      · subst ht
        have hstep := Account.Step.rearm hhand hstate ((standing_running hloop).trans hruns)
        simpa [State.accountServed, State.account, hservice, hevents, hstanding,
          standing_setState hstate, Service.hand, Service.results, Standing.inState,
          Standing.withQueued] using hstep
      · refine serve_aside ?_ (by simp [hservice, Service.hand, ht]) (by simp [hservice, hevents])
          (by simp [hservice, Service.results, resultsOf])
        rw [hstanding, if_neg ht, standing_setState_of_ne ht]
        rfl
  · have hevents := events_rearm interval hloop hstate (by simp)
    rcases rearm_cases hloop hstate interval with
      ⟨hrearm, -⟩ | ⟨hrearm, -⟩ | ⟨-, -, hnot⟩ | ⟨-, -, hnot, -⟩
    · rw [discardNow_eq hstate, if_neg (by simp)] at hrearm
      simp only [Service.advance, Conclude.advance, hrearm] at h
      obtain ⟨rfl, rfl⟩ := Prod.mk.inj (Option.some.inj h)
      exact serve_leave (u := u) (by simp [hservice, Service.hand]) hstate rfl
        (by rw [hservice, hevents]; simp [hrearm]) (by simp [hservice, Service.results])
    · simp only [Service.advance, Conclude.advance, hrearm] at h
      obtain ⟨rfl, rfl⟩ := Prod.mk.inj (Option.some.inj h)
      exact serve_leave (u := u) (by simp [hservice, Service.hand]) hstate rfl
        (by rw [hservice, hevents]; simp [hrearm]) (by simp [hservice, Service.results])
    · cases hnot
    · cases hnot

theorem step_concluding {stage : Conclude} (hx : x.Orderly l own)
    (hservice : x.service = .concluding stage)
    (h : (Service.concluding stage).advance l result x.scheduler = some (s, service)) :
    (x.account l t).Step (x.accountServed l t s service result) := by
  obtain ⟨loop, hloop⟩ := hx.exists_loop
  cases stage with
  | release u outcome =>
    have hhand : (x.account l u).hand = .releasing outcome := by
      simp [State.account, hservice, Service.hand]
    obtain ⟨rfl, rfl⟩ := Prod.mk.inj (Option.some.inj h)
    by_cases ht : u = t
    · subst ht
      have hstep := Account.Step.releaseOneShot hhand
      simpa [State.accountServed, State.account, hservice, Service.hand, Service.events,
        Service.results, tally] using hstep
    · exact serve_aside (standing_decrement _) (by simp [hservice, Service.hand, ht])
        (by simp [hservice, Service.events, Event.task, ht])
        (by simp [hservice, Service.results, resultsOf])
  | complete u outcome =>
    have hhand : (x.account l u).hand = .completing outcome := by
      simp [State.account, hservice, Service.hand]
    have hstate := (hx.sound u).state_of_completing hhand
    have htransition := transition_eq (l := l) hstate .running .finished
    rw [if_pos rfl] at htransition
    simp only [Service.advance, Conclude.advance, htransition] at h
    obtain ⟨rfl, rfl⟩ := Prod.mk.inj (Option.some.inj h)
    by_cases ht : u = t
    · subst ht
      have hstep := Account.Step.complete hhand
      simpa [State.accountServed, State.account, hservice, standing_setState hstate, Service.hand,
        Service.events, Service.results, Standing.inState] using hstep
    · exact serve_aside (standing_setState_of_ne ht _) (by simp [hservice, Service.hand, ht])
        (by simp [hservice, Service.events]) (by simp [hservice, Service.results, resultsOf])
  | settle u outcome =>
    have hhand : (x.account l u).hand = .settling outcome := by
      simp [State.account, hservice, Service.hand]
    obtain ⟨state, hstate⟩ := (hx.sound u).known_of_hand (by rw [hhand]; rfl)
    obtain ⟨rfl, rfl⟩ := Prod.mk.inj (Option.some.inj h)
    by_cases ht : u = t
    · subst ht
      have hstep := Account.Step.conclude hhand
      simpa [State.accountServed, State.account, hservice, standing_settle hstate, Service.hand,
        Service.events, Service.results, Standing.withOutcome] using hstep
    · exact serve_aside (standing_settle_of_ne ht _) (by simp [hservice, Service.hand, ht])
        (by simp [hservice, Service.events]) (by simp [hservice, Service.results, resultsOf])
  | halt u cause =>
    have hhand : (x.account l u).hand = .ending := by simp [State.account, hservice, Service.hand]
    rcases (hx.sound u).state_of_ending hhand with hstate | hstate
    · have htransition := transition_eq (l := l) hstate .running .failed
      rw [if_pos rfl] at htransition
      simp only [Service.advance, Conclude.advance, htransition] at h
      obtain ⟨rfl, rfl⟩ := Prod.mk.inj (Option.some.inj h)
      by_cases ht : u = t
      · subst ht
        have hstep := Account.Step.halt cause hhand hstate
        simpa [State.accountServed, State.account, hservice, standing_setState hstate, Service.hand,
          Service.events, Service.results, Standing.inState] using hstep
      · exact serve_aside (standing_setState_of_ne ht _) (by simp [hservice, Service.hand, ht])
          (by simp [hservice, Service.events]) (by simp [hservice, Service.results, resultsOf])
    · have htransition := transition_eq (l := l) hstate .running .failed
      rw [if_neg (by simp)] at htransition
      simp only [Service.advance, Conclude.advance, htransition] at h
      obtain ⟨rfl, rfl⟩ := Prod.mk.inj (Option.some.inj h)
      exact serve_leave (u := u) (by simp [hservice, Service.hand]) hstate rfl
        (by simp [hservice, Service.events]) (by simp [hservice, Service.results])
  | haltRelease u cause =>
    have hhand : (x.account l u).hand = .halted cause := by
      simp [State.account, hservice, Service.hand]
    obtain ⟨rfl, rfl⟩ := Prod.mk.inj (Option.some.inj h)
    by_cases ht : u = t
    · subst ht
      have hstep := Account.Step.releaseHalted hhand
      simpa [State.accountServed, State.account, hservice, Service.hand, Service.events,
        Service.results, tally] using hstep
    · exact serve_aside (standing_decrement _) (by simp [hservice, Service.hand, ht])
        (by simp [hservice, Service.events, Event.task, ht])
        (by simp [hservice, Service.results, resultsOf])
  | rearm u interval => exact step_rearming hx hservice h

theorem step_serve (hx : x.Orderly l own)
    (h : x.service.advance l result x.scheduler = some (s, service)) :
    (x.account l t).Step (x.accountServed l t s service result) := by
  cases hservice : x.service with
  | serving stage => exact step_serving hx hservice (hservice ▸ h)
  | starting stage => exact step_starting hx hservice (hservice ▸ h)
  | firing u => exact step_firing hx hservice (hservice ▸ h)
  | concluding stage => exact step_concluding hx hservice (hservice ▸ h)
  | stopped =>
    rw [hservice] at h
    cases h

end

/-! ## Steps -/

/-- Every step is a step of the account of every task. -/
theorem Step.account (hx : x.Orderly l own) (h : Step l own x y) (t : TaskId) :
    (x.account l t).Step (y.account l t) := by
  cases h with
  | elsewhere h =>
    have hstanding : ∀ {s : Scheduler}, x.scheduler.Elsewhere l own s →
        s.standing l t = x.scheduler.standing l t := fun h => by
      simp only [standing, queued, isRunning, h.loop, h.tasks]
    simp only [State.account, hstanding h]
    exact .quiet
  | move m h =>
    cases m with
    | call c =>
      obtain ⟨-, h⟩ := Option.ite_none_right_eq_some.1 h
      cases h
      have hnone : (c.operation l).stakes t = 0 := by cases c <;> rfl
      simp only [State.account, stakes, hnone, Stakes.zero_add]
      exact .quiet
    | proceed place =>
      obtain ⟨op, s, next, others, hmem, hadvance, hshare, haccount, -⟩ := proceed_eq h
      rw [haccount]
      cases op with
      | enqueue stage => exact step_enqueue hx hmem (hshare t) hadvance
      | cancel u stage => exact step_cancel hx hmem (hshare t) hadvance
      | shutdown stage => exact step_shutdown hx hmem (hshare t) hadvance
    | serve result =>
      obtain ⟨⟨s, service⟩, hadvance, rfl⟩ := Option.map_eq_some_iff.1 h
      exact step_serve hx hadvance
    | join u =>
      obtain ⟨answer, -, rfl⟩ := Option.map_eq_some_iff.1 h
      exact .quiet

/-! ## Threads keep to their loop -/

theorem books_operation {op : Operation} {s s' : Scheduler} {next : Option Operation}
    (h : op.advance s = some (s', next)) :
    s.SameBooks s' ∧ (∀ t, .accepted t ∉ op.events s ∧ .overflowed t ∉ op.events s ∧
        .released t ∉ op.events s) ∨
      (∃ l' u delay c, op = .enqueue (.accept l' u delay) ∧ s.counterIn l' = some c ∧
        (s.increment c).SameBooks s' ∧
        (op.events s = [.accepted u] ∨ op.events s = [.overflowed u])) ∨
      ∃ u c, op = .cancel u (.release c) ∧ s' = s.decrement c := by
  cases Operation.acts h with
  | create => exact .inl ⟨sameBooks_createTask _ _ _, by simp [Operation.events]⟩
  | @queue l' u delay _ haccept =>
    rcases sameBooks_accept haccept with ⟨h, -⟩ | ⟨-, c, hc, hbooks⟩
    · cases h
    · exact .inr (.inl ⟨l', u, delay, c, rfl, hc, hbooks, by simp [Operation.events, haccept]⟩)
  | turnDown haccept =>
    rcases sameBooks_accept haccept with ⟨-, rfl⟩ | ⟨hne, -⟩
    · exact .inl ⟨.refl _, by simp [Operation.events, haccept]⟩
    · exact absurd rfl hne
  | @overflow l' u delay _ haccept =>
    rcases sameBooks_accept haccept with ⟨h, -⟩ | ⟨-, c, hc, hbooks⟩
    · cases h
    · exact .inr (.inl ⟨l', u, delay, c, rfl, hc, hbooks, by simp [Operation.events, haccept]⟩)
  | swap hop hswap =>
    refine .inl ⟨sameBooks_transition hswap, ?_⟩
    rcases hop.events s with hevents | hevents <;> simp [hevents]
  | settle hop =>
    exact .inl ⟨sameBooks_settleCancelled _, by cases hop <;> simp [Operation.events]⟩
  | rouse hop => exact .inl ⟨sameBooks_notify _, by cases hop <;> simp [Operation.events]⟩
  | unqueue hunqueue | absent hunqueue =>
    exact .inl ⟨sameBooks_unqueue hunqueue, by simp [Operation.events]⟩
  | @release u c => exact .inr (.inr ⟨u, c, rfl, rfl⟩)
  | stop hstop => exact .inl ⟨sameBooks_stop hstop, by simp [Operation.events]⟩
  | finish => exact .inl ⟨.refl _, by simp [Operation.events]⟩

theorem books_service {result : Outcome (Answer Value)} {service next : Service} {s s' : Scheduler}
    (h : service.advance l result s = some (s', next)) :
    s.SameBooks s' ∧ (∀ t, .accepted t ∉ service.events s ∧ .released t ∉ service.events s) ∨
      ∃ u, (service.hand u).count = 1 ∧ service.decrements s = some (s.counterOf u) ∧
        service.events s = [.released u] ∧ s' = s.decrement (s.counterOf u) := by
  cases Service.acts h with
  | take hpoll | block hpoll | stop hpoll =>
    exact .inl ⟨sameBooks_poll hpoll, by simp [Service.events]⟩
  | wake hawake => exact .inl ⟨sameBooks_notify _, by simp [Service.events]⟩
  | swap hservice hswap hnext =>
    refine .inl ⟨sameBooks_transition hswap, ?_⟩
    cases hservice <;> simp [Service.events, hswap]
  | count hnext => exact .inl ⟨⟨rfl, fun _ => rfl⟩, by simp [Service.events]⟩
  | fire => exact .inl ⟨.refl _, by simp [Service.events]⟩
  | settle => exact .inl ⟨⟨rfl, fun _ => rfl⟩, by simp [Service.events]⟩
  | @release u _ _ hservice =>
    refine .inr ⟨u, ?_⟩
    cases hservice <;> exact ⟨by simp [Service.hand], rfl, rfl, rfl⟩
  | @rearm u interval _ _ hrearm hqueued =>
    refine .inl ⟨sameBooks_rearm hrearm, fun t => ?_⟩
    simp only [Service.events]
    (repeat' split) <;> simp
  | @overflow u interval _ hrearm =>
    exact .inl ⟨sameBooks_rearm hrearm, by simp [Service.events, hrearm]⟩

theorem counterIn_step {c : CounterId} (h : Step l own x y) (hc : x.scheduler.counterIn l = some c) :
    y.scheduler.counterIn l = some c := by
  rw [← hc]
  cases h with
  | elsewhere h => exact congrArg (Option.map EventLoop.counter) h.loop
  | move m h =>
    cases m with
    | call c =>
      obtain ⟨-, h⟩ := Option.ite_none_right_eq_some.1 h
      cases h
      rfl
    | proceed place =>
      obtain ⟨op, -, hadvance⟩ := Option.bind_eq_some_iff.1 h
      obtain ⟨⟨s, next⟩, hstep, rfl⟩ := Option.map_eq_some_iff.1 hadvance
      rcases books_operation hstep with ⟨hbooks, -⟩ | ⟨_, _, _, _, -, -, hbooks, -⟩ | ⟨_, _, -, rfl⟩
      · exact hbooks.counterIn l
      · exact hbooks.counterIn l
      · rfl
    | serve result =>
      obtain ⟨⟨s, service⟩, hadvance, rfl⟩ := Option.map_eq_some_iff.1 h
      rcases books_service hadvance with ⟨hbooks, -⟩ | ⟨_, -, -, -, rfl⟩
      · exact hbooks.counterIn l
      · rfl
    | join u =>
      obtain ⟨answer, -, rfl⟩ := Option.map_eq_some_iff.1 h
      rfl

theorem on_next {op next : Operation} {s : Scheduler} (hx : x.Orderly l own)
    (hmem : op ∈ x.operations) (h : op.advance x.scheduler = some (s, some next)) :
    next.On l own x := by
  have hon := hx.operations _ hmem
  cases op with
  | enqueue stage =>
    cases stage with
    | create l' kind delay job =>
      obtain rfl : l' = l := hon
      cases h
      rfl
    | accept l' u delay =>
      simp only [Operation.advance, Enqueue.advance] at h
      split at h <;> cases h <;> trivial
    | announce l' u => cases h
    | refuse u =>
      have htransition := transition_eq (state_of_refuse hx hmem) .pending .cancelled
      rw [if_pos rfl] at htransition
      simp only [Operation.advance, Enqueue.advance, htransition, afterStep] at h
      cases h
      trivial
    | refuseRunning u => exact hon.elim
    | refuseSettle u => cases h
  | cancel u stage =>
    cases stage with
    | swapPending u' c =>
      obtain ⟨rfl, hhanded, hc⟩ := hon
      obtain ⟨state, hstate⟩ := Option.ne_none_iff_exists'.1 hhanded.1
      have htransition := transition_eq hstate .pending .cancelled
      by_cases hpending : state = .pending
      · rw [if_pos hpending] at htransition
        simp only [Operation.advance, Cancel.advance, htransition, afterStep] at h
        cases h
        exact ⟨rfl, hc⟩
      · rw [if_neg hpending] at htransition
        simp only [Operation.advance, Cancel.advance, htransition, isPeriodic_kindOf hstate] at h
        split at h
        · next hperiodic =>
          cases h
          exact ⟨rfl, hhanded, hperiodic, hc⟩
        · cases h
    | swapRunning u' c =>
      obtain ⟨rfl, -, -, hc⟩ := hon
      simp only [Operation.advance, Cancel.advance] at h
      split at h <;> cases h
      exact ⟨rfl, hc⟩
    | settle u' c => cases h; exact hon
    | unqueue u' c =>
      simp only [Operation.advance, Cancel.advance] at h
      split at h <;> cases h
      · exact hon
      · exact hon.2
    | wake u' c => cases h; exact hon.2
    | release c => cases h
  | shutdown stage =>
    cases stage with
    | stop l' => cases h; trivial
    | wake l' rest => cases h; trivial
    | discard rest dropped =>
      cases rest with
      | nil => cases h
      | cons u rest =>
        simp only [Operation.advance, Shutdown.advance] at h
        split at h <;> cases h <;> trivial
    | discardRunning u rest dropped =>
      simp only [Operation.advance, Shutdown.advance] at h
      split at h <;> cases h <;> trivial
    | settle u rest dropped => cases h; trivial

theorem Service.on_next {service next : Service} {result : Outcome (Answer Value)} {s s' : Scheduler}
    (hon : service.On l) (h : service.advance l result s = some (s', next)) : next.On l := by
  cases Service.acts h with
  | block | wake => exact hon
  | swap hservice _ hnext =>
    subst hnext
    split
    · cases hservice <;> trivial
    · rfl
  | count hnext => rcases hnext with rfl | rfl <;> trivial
  | release hservice => cases hservice <;> trivial
  | take | stop | fire | overflow => trivial
  | settle | rearm => rfl

theorem Operation.On.mono {op : Operation} (hon : op.On l own x)
    (h : ∀ t, x.Handed l t → y.Handed l t ∧ (y.account l t).periodic = (x.account l t).periodic) :
    op.On l own y := by
  cases op with
  | enqueue stage => cases stage <;> exact hon
  | cancel u stage =>
    cases stage with
    | swapPending u' c => exact ⟨hon.1, (h u hon.2.1).1, hon.2.2⟩
    | swapRunning u' c =>
      exact ⟨hon.1, (h u hon.2.1).1, (h u hon.2.1).2.trans hon.2.2.1, hon.2.2.2⟩
    | _ => exact hon
  | shutdown stage => cases stage <;> exact hon

theorem offers_eq_zero {operations : List Operation} (h : ∀ op ∈ operations, op.offer? ≠ some t) :
    (stakes t operations).offers = 0 := by
  induction operations with
  | nil => rfl
  | cons op rest ih =>
    have hrest := ih fun op' hop' => h op' (List.mem_cons_of_mem _ hop')
    have hop : (op.stakes t).offers = 0 := by
      have hoffer := h op List.mem_cons_self
      unfold Operation.stakes
      split <;> (try split) <;> simp_all [Operation.offer?, Stakes.zero_eq]
    simp only [stakes, Stakes.add_eq, hop, hrest]

theorem Call.Allowed.on {c : Call} (h : c.Allowed l own x) : (c.operation l).On l own x := by
  cases c with
  | enqueue kind delay job => rfl
  | cancel t counter =>
    obtain ⟨hknown, hoffer, hcounter⟩ := h
    obtain ⟨task, htask⟩ := Option.isSome_iff_exists.1 hknown
    refine ⟨rfl, ⟨?_, offers_eq_zero hoffer⟩, hcounter⟩
    simp [State.account, standing, htask, Standing.of]
  | shutdown => rfl

/-- No thread leaves its loop, and accounts stay sound. -/
theorem State.Orderly.step (hx : x.Orderly l own) (h : Step l own x y) : y.Orderly l own := by
  have haccount := Step.account hx h
  have hhanded (t : TaskId) (ht : x.Handed l t) :
      y.Handed l t ∧ (y.account l t).periodic = (x.account l t).periodic := by
    obtain ⟨hknown, hoffers, hperiodic⟩ := (haccount t).handed ht.1 ht.2
    exact ⟨⟨hknown, hoffers⟩, hperiodic⟩
  obtain ⟨c, hc, hown⟩ := hx.loop
  refine ⟨⟨c, counterIn_step h hc, hown⟩, ?_, ?_, fun t => (haccount t).sound (hx.sound t)⟩
  · have hfrom : ∀ op ∈ y.operations, op.On l own x := by
      cases h with
      | elsewhere h => exact hx.operations
      | move m h =>
        cases m with
        | call c =>
          obtain ⟨hallowed, h⟩ := Option.ite_none_right_eq_some.1 h
          cases h
          exact List.forall_mem_cons.2 ⟨hallowed.on, hx.operations⟩
        | proceed place =>
          obtain ⟨op, s, next, -, hmem, hadvance, -, -, hops⟩ := proceed_eq h
          intro op' hop'
          rcases hops op' hop' with hold | rfl
          · exact hx.operations op' hold
          · exact on_next hx hmem hadvance
        | serve result =>
          obtain ⟨_, -, rfl⟩ := Option.map_eq_some_iff.1 h
          exact hx.operations
        | join u =>
          obtain ⟨_, -, rfl⟩ := Option.map_eq_some_iff.1 h
          exact hx.operations
    exact fun op hop => (hfrom op hop).mono hhanded
  · cases h with
    | elsewhere h => exact hx.service
    | move m h =>
      cases m with
      | call c =>
        obtain ⟨-, h⟩ := Option.ite_none_right_eq_some.1 h
        cases h
        exact hx.service
      | proceed place =>
        obtain ⟨op, -, hadvance⟩ := Option.bind_eq_some_iff.1 h
        obtain ⟨_, -, rfl⟩ := Option.map_eq_some_iff.1 hadvance
        exact hx.service
      | serve result =>
        obtain ⟨_, hadvance, rfl⟩ := Option.map_eq_some_iff.1 h
        exact Service.on_next hx.service hadvance
      | join u =>
        obtain ⟨_, -, rfl⟩ := Option.map_eq_some_iff.1 h
        exact hx.service

theorem Started.orderly (h : Started l own x) : x.Orderly l own := by
  obtain ⟨loop, hloop, hqueue, -, hcounter⟩ := h.loop
  refine ⟨⟨loop.counter, ?_, hcounter⟩, ?_, ?_, fun t => .unknown ?_ ?_⟩
  · unfold counterIn
    rw [hloop]
    rfl
  · rw [h.operations]
    exact fun _ hmem => nomatch hmem
  · rw [h.service]
    rfl
  · simp [State.account, standing, h.tasks, Standing.of]
  · have hqueued : x.scheduler.queued l t = 0 := by
      unfold queued
      rw [hloop]
      dsimp only
      rw [hqueue]
      rfl
    constructor <;>
      simp [State.account, standing, Standing.of, hqueued, h.tasks, h.operations, h.service, h.history,
        h.results, stakes, Stakes.zero_eq, tally, resultsOf, Service.hand]

theorem Reaches.orderly (h : Reaches l own x) : x.Orderly l own := by
  obtain ⟨start, hstart, hsteps⟩ := h
  induction hsteps with
  | refl => exact hstart.orderly
  | tail _ hstep ih => exact ih.step hstep

end ScriptWorker.Scheduling
