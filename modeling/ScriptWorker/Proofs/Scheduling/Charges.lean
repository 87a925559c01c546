import ScriptWorker.Proofs.Scheduling.Counting
import ScriptWorker.Proofs.Scheduling.Views

/-!
# Whose counter is charged

A worker takes slots of its counter for the tasks that it accepts. A firing that ends gives the slot back
on that counter, but a cancel gives one back on the counter of whoever cancels. So the counter of a
worker tells its open tasks as far as the slots that others gave back for it, and those that it gave back
for others, outweigh each other.
-/

namespace ScriptWorker.Scheduling

open Relation Scheduler

variable {l : LoopId} {c : CounterId} {k : WorkerId} {s : Scheduler} {t : TaskId} {X Y : Workers}
  {u : Undertaking} {e : Entry}

/-! ## What is charged -/

namespace Workers

def Accepted (X : Workers) (k : WorkerId) (t : TaskId) : Prop :=
  ∃ e ∈ X.history, e.worker = some k ∧ e.event = .accepted t

instance (X : Workers) (k : WorkerId) : DecidablePred (X.Accepted k) :=
  fun _ => inferInstanceAs (Decidable (∃ e ∈ X.history, _))

def releases (X : Workers) (p : TaskId → Entry → Bool) : Nat :=
  X.history.countP fun e => e.event.released?.any fun t => p t e

/-- How many slots of tasks that a worker accepted other workers gave back on their own counters. -/
def lost (X : Workers) (k : WorkerId) : Nat :=
  X.releases fun t e => X.Accepted k t ∧ e.worker.any (· ≠ k)

/-- How many slots of its own counter a worker gave back for tasks that it had not accepted. -/
def stray (X : Workers) (k : WorkerId) : Nat :=
  X.releases fun t e => ¬ X.Accepted k t ∧ e.worker = some k

/-- How many slots of a worker's counter were to be given back when it stood at zero. -/
def void (X : Workers) (k : WorkerId) : Nat :=
  X.releases fun t e => e.void ∧ (e.worker = some k ∨ X.Accepted k t ∧ e.worker = none)

def openTasks (X : Workers) (k : WorkerId) : List TaskId :=
  (List.range X.scheduler.tasks.size).filter fun t => X.Accepted k t ∧
    ((X.scheduler.tasks.get? t).map Task.state = some .pending ∨
      (X.scheduler.tasks.get? t).map Task.state = some .running)

def discardedTasks (X : Workers) (k : WorkerId) : List TaskId :=
  (List.range X.scheduler.tasks.size).filter fun t => X.Accepted k t ∧
    ∃ e ∈ X.history, e.event = .discarded t

def chargedCounter (X : Workers) (e : Entry) : Option CounterId :=
  match e.worker with
  | some k => X.counter? k
  | none => X.scheduler.counterIn e.loop

end Workers

/-- What the counter of a worker tells. -/
structure Charged (X : Workers) (k : WorkerId) (c : CounterId) : Prop where
  /-- With nothing midway the counter stands at the open tasks and those that were discarded, apart from
  the slots given back for others and by others. -/
  count_eq : X.Rests → X.scheduler.count c + X.stray k =
    (X.openTasks k).length + (X.discardedTasks k).length + X.lost k + X.void k
  /-- A counter is found at zero only after slots of it were given back for others. -/
  void_le : X.void k ≤ X.stray k
  /-- If nobody cancels the tasks of others, the counter tells the worker's open tasks. -/
  faithful : X.stray k = 0 → X.lost k = 0 → X.Rests →
    X.scheduler.count c = (X.openTasks k).length + (X.discardedTasks k).length

/-! ## Events and their tasks -/

theorem Workers.Orderly.task_of_entry (hX : X.Orderly) (he : e ∈ X.history) :
    ∃ task, X.scheduler.tasks.get? e.event.task = some task ∧ task.owner = e.loop := by
  obtain ⟨results, replies, hview⟩ := hX.exists_view (hX.history e he).loop
  have hmem : e.event ∈ (X.view e.loop results replies).history :=
    List.mem_filterMap.2 ⟨e, he, if_pos rfl⟩
  have hsound := hview.sound e.event.task
  cases hstate : ((X.view e.loop results replies).account e.loop e.event.task).state with
  | none =>
    have htally := (hsound.unknown_of hstate).tally
    have hpos : 0 < (X.view e.loop results replies).history.count e.event := List.count_pos_iff.2 hmem
    simp only [State.account, tally] at htally
    generalize e.event = event at hpos htally
    cases event <;> simp only [Event.task] at htally <;> omega
  | some state =>
    obtain ⟨task, -, hget, howner, -⟩ := get?_of_standing hstate
    exact ⟨task, hget, howner⟩

theorem Workers.Orderly.loop_of_entry (hX : X.Orderly) (he : e ∈ X.history) :
    e.loop = X.scheduler.ownerOf e.event.task := by
  obtain ⟨task, hget, howner⟩ := hX.task_of_entry he
  unfold ownerOf
  rw [hget]
  exact howner.symm

theorem countP_event (hX : X.Orderly) {event : Event} (hevent : event.task = t) :
    X.history.countP (fun e => e.event = event ∧ X.scheduler.counterIn e.loop = some c) =
      if X.scheduler.counterIn (X.scheduler.ownerOf t) = some c then
        (eventsOn (X.scheduler.ownerOf t) X.history).count event else 0 := by
  have hloop (e : Entry) (he : e ∈ X.history) (h : e.event = event) :
      e.loop = X.scheduler.ownerOf t := by
    rw [hX.loop_of_entry he, h, hevent]
  split
  · next hc =>
    rw [eventsOn, List.count_filterMap]
    refine List.countP_congr fun e he => ?_
    simp only [decide_eq_true_eq, beq_iff_eq, Option.ite_none_right_eq_some, Option.some.injEq]
    constructor
    · rintro ⟨h, -⟩
      exact ⟨hloop e he h, h⟩
    · rintro ⟨hl, h⟩
      exact ⟨h, hl ▸ hc⟩
  · next hc =>
    refine List.countP_eq_zero.2 fun e he => ?_
    simp only [decide_eq_true_eq]
    rintro ⟨h, hhome⟩
    exact hc (hloop e he h ▸ hhome)

/-! ## What a step does to counters -/

def Entry.IsFree (e : Entry) : Prop := e.event.accepted? = none ∧ e.event.released? = none

structure Workers.Due (X : Workers) (e : Entry) : Prop where
  loop : (X.scheduler.counterIn e.loop).isSome
  owner : e.loop = X.scheduler.ownerOf e.event.task
  count_lt : (eventsOn e.loop X.history).count (.released e.event.task) <
    (eventsOn e.loop X.history).count (.accepted e.event.task)

/-- What a step that shows some entries does to counters: nothing, or it takes a slot, or gives one
back. -/
inductive Charge (X Y : Workers) : List Entry → Prop
  | free (entries : List Entry) : Y.scheduler.counters = X.scheduler.counters →
    (∀ e ∈ entries, e.IsFree) → Charge X Y entries
  | take (e : Entry) (t : TaskId) (c : CounterId) : e.event = .accepted t → Y.chargedCounter e = some c →
    Y.scheduler.counters = (X.scheduler.increment c).counters → Charge X Y [e]
  | give (e : Entry) (rest : List Entry) (t : TaskId) (c : CounterId) : e.event = .released t →
    (∀ e ∈ rest, e.IsFree) → Y.chargedCounter e = some c → e.void = decide (X.scheduler.count c = 0) →
    Y.scheduler.counters = (X.scheduler.decrement c).counters → X.Due e → Charge X Y (e :: rest)

def Workers.Kept (X : Workers) : Prop := ∀ e ∈ X.history, ∀ t, e.event ≠ .overflowed t

theorem Workers.Kept.account {results : List (TaskId × Outcome (Answer Value))} (h : X.Kept) (l : LoopId)
    (t : TaskId) : ((X.view l results replies).account l t).overflowed = 0 := by
  refine List.count_eq_zero_of_not_mem fun hmem => ?_
  obtain ⟨e, he, hevent⟩ := List.mem_filterMap.1 hmem
  obtain ⟨-, hevent⟩ := Option.ite_none_right_eq_some.1 hevent
  exact h e he t (Option.some.inj hevent)

theorem charged_of_worker (h : e.worker = some k) : X.chargedCounter e = X.counter? k := by
  unfold Workers.chargedCounter
  rw [h]

theorem charge_undertaking {next : Option Undertaking} {first second : List Undertaking}
    (hX : X.Orderly) (hops : X.undertakings = first ++ u :: second)
    (h : u.advance X.scheduler = some (s, next)) (hkept : (X.after first second u s next).Kept) :
    Charge X (X.after first second u s next) (u.entries X.scheduler) := by
  have hmem : u ∈ X.undertakings := by simp [hops]
  have hplaced := hX.undertakings u hmem
  have hslots : SlotsKept X.scheduler (X.after first second u s next).scheduler :=
    slotsKept_advance hX hmem h
  have hfree (hu : u.operation? = none) (hs : s.counters = X.scheduler.counters) :
      Charge X (X.after first second u s next) (u.entries X.scheduler) := by
    rw [entries_of_none hu]
    exact .free _ hs nofun
  cases Undertaking.advance_cases hplaced.located h with
  | lock _ _ hu _ hs => exact hfree hu (hs ▸ rfl)
  | keep hu _ hs => exact hfree hu (hs ▸ rfl)
  | submit _ _ _ _ _ _ _ hu _ _ _ _ hs => exact hfree hu (hs ▸ rfl)
  | terminate _ _ _ hu _ _ _ hs => exact hfree hu (hs ▸ rfl)
  | start _ _ _ hu _ _ hs => exact hfree hu (hs ▸ rfl)
  | work l op after hu hop _ =>
    obtain ⟨hhas, -, hcharged⟩ := hplaced.operation l op hu
    obtain ⟨results, replies, hview⟩ := hX.exists_view hhas
    have hentries : u.entries X.scheduler = (op.events X.scheduler).map fun e =>
        ⟨l, some u.worker, e, op.decrements.any (X.scheduler.count · = 0)⟩ := by
      unfold Undertaking.entries
      rw [hu]
    rw [hentries]
    rcases books_operation hop with ⟨hbooks, hevents⟩ |
      ⟨l', t, delay, c, rfl, hc, hbooks, haccepted | hlost⟩ | ⟨t, c, rfl, rfl⟩
    · refine .free _ hbooks.counters fun e he => ?_
      obtain ⟨event, hevent, rfl⟩ := List.mem_map.1 he
      cases event with
      | accepted t => exact ((hevents t).1 hevent).elim
      | released t => exact ((hevents t).2.2 hevent).elim
      | _ => exact ⟨rfl, rfl⟩
    · obtain rfl : l' = l := hview.operations _ (mem_view hmem hu)
      rw [haccepted]
      refine .take _ t c rfl ?_ hbooks.counters
      rw [charged_of_worker rfl, hslots.counter?, ← hcharged, hc]
    · refine absurd rfl (hkept ⟨l, some u.worker, .overflowed t, false⟩ ?_ t)
      refine List.mem_append_right _ ?_
      rw [hentries, hlost]
      exact List.mem_singleton.2 rfl
    · refine .give _ [⟨l, some u.worker, .cancelled t, _⟩] t c rfl ?_ ?_ rfl rfl ?_
      · simp [Entry.IsFree, Event.accepted?, Event.released?]
      · rw [charged_of_worker rfl, hslots.counter?]
        exact hcharged.symm
      · have hview' : Operation.cancel t (.release c) ∈ (X.view l results replies).operations := mem_view hmem hu
        obtain ⟨others, hshare⟩ := exists_share hview' t
        have hclaims : 0 < ((X.view l results replies).account l t).claims := by
          simp [State.account, hshare, Operation.stakes, Stakes.add_eq]
        have hkept' : X.Kept := fun e he => hkept e (List.mem_append_left _ he)
        exact ⟨hhas, (ownerOf_eq ((hview.sound t).state_of_claims hclaims)).symm,
          (hview.sound t).released_of_claims (hkept'.account l t) hclaims⟩

theorem charge_service {result : Outcome (Answer Value)} {service : Service} (hX : X.Orderly)
    (hl : (X.scheduler.loops.get? l).isSome)
    (h : (X.services l).advance l result X.scheduler = some (s, service))
    (hY : Y.scheduler = s) :
    Charge X Y ((X.services l).entries l X.scheduler) := by
  obtain ⟨results, replies, hview⟩ := hX.views l hl
  rcases books_service h with ⟨hbooks, hevents⟩ | ⟨t, hhand, hdecrements, hevents, hs⟩
  · refine .free _ (hY ▸ hbooks.counters) fun e he => ?_
    obtain ⟨event, hevent, rfl⟩ := List.mem_map.1 he
    cases event with
    | accepted t => exact ((hevents t).1 hevent).elim
    | released t => exact ((hevents t).2 hevent).elim
    | _ => exact ⟨rfl, rfl⟩
  · obtain ⟨state, hstate⟩ := (hview.sound t).known_of_hand hhand
    have hcounter : X.scheduler.counterIn l = some (X.scheduler.counterOf t) := by
      obtain ⟨loop, hloop⟩ := Option.isSome_iff_exists.1 hl
      unfold counterIn counterOf
      rw [ownerOf_eq (s := X.scheduler) hstate, hloop]
      rfl
    unfold Service.entries
    rw [hevents]
    refine .give _ [] t (X.scheduler.counterOf t) rfl nofun ?_ (by rw [hdecrements]; rfl)
      (by rw [hY, hs]) ⟨by rw [hcounter]; rfl, (ownerOf_eq hstate).symm, ?_⟩
    · change Y.scheduler.counterIn l = _
      rw [hY, counterIn_service h, hcounter]
    · obtain ⟨u, ⟨outcome, hrelease⟩ | ⟨cause, hrelease⟩⟩ := Service.eq_release hdecrements
      · rw [hrelease] at hevents
        obtain rfl : u = t := by simpa [Service.events] using hevents
        refine (hview.sound u).released_of_releasing (show _ = Hand.releasing outcome from ?_)
        simp [State.account, Workers.view, hrelease, Service.hand]
      · rw [hrelease] at hevents
        obtain rfl : u = t := by simpa [Service.events] using hevents
        refine (hview.sound u).released_of_halted (show _ = Hand.halted cause from ?_)
        simp [State.account, Workers.view, hrelease, Service.hand]

theorem Workers.Step.charge (h : Workers.Step X Y) (hX : X.Orderly) (hkept : Y.Kept) :
    ∃ entries, Y.history = X.history ++ entries ∧ Charge X Y entries := by
  obtain ⟨m, h⟩ := h
  cases m with
  | use k use =>
    obtain ⟨-, h⟩ := Option.ite_none_right_eq_some.1 h
    cases h
    exact ⟨[], (List.append_nil _).symm, .free _ rfl nofun⟩
  | cancel k t =>
    obtain ⟨_, _, -, -, -, rfl⟩ := cancel_eq h
    exact ⟨[], (List.append_nil _).symm, .free _ rfl nofun⟩
  | proceed place =>
    obtain ⟨first, second, u, s, next, hops, hadvance, rfl⟩ := proceed_cases h
    exact ⟨_, rfl, charge_undertaking hX hops hadvance hkept⟩
  | serve l result =>
    obtain ⟨hhas, h⟩ := Option.ite_none_right_eq_some.1 h
    obtain ⟨⟨s, service⟩, hadvance, rfl⟩ := Option.map_eq_some_iff.1 h
    exact ⟨_, rfl, charge_service hX hhas hadvance rfl⟩
  | pass delay =>
    cases h
    exact ⟨[], (List.append_nil _).symm, .free _ rfl nofun⟩

/-! ## The books of a counter -/

def Workers.charges (X : Workers) (c : CounterId) (p : Entry → Bool) : Nat :=
  X.history.countP fun e => p e && decide (X.chargedCounter e = some c)

def Entry.takes (e : Entry) : Bool := e.event.accepted?.isSome

def Entry.gives (e : Entry) : Bool := e.event.released?.isSome

/-- The counter stands at the slots that were taken and not given back, where those that were to be given
back at zero do not count. -/
def Workers.Balanced (X : Workers) (c : CounterId) : Prop :=
  ∃ n, X.scheduler.counters.get? c = some ⟨n⟩ ∧ n + X.charges c Entry.gives =
    X.charges c Entry.takes + X.charges c fun e => e.gives && e.void

theorem count_eq_of_get? {n : Nat} (h : s.counters.get? c = some ⟨n⟩) : s.count c = n := by
  unfold count
  rw [h]

theorem SlotsKept.charged_eq (h : SlotsKept X.scheduler Y.scheduler) (he : e.Placed X) :
    Y.chargedCounter e = X.chargedCounter e := by
  unfold Workers.chargedCounter
  split
  · exact h.counter? _
  · exact h.counterIn_eq he.loop

theorem charges_append {entries : List Entry} (hX : X.Orderly)
    (hkept : SlotsKept X.scheduler Y.scheduler) (h : Y.history = X.history ++ entries)
    (p : Entry → Bool) : Y.charges c p =
      X.charges c p + entries.countP fun e => p e && decide (Y.chargedCounter e = some c) := by
  unfold Workers.charges
  rw [h, List.countP_append, Nat.add_right_cancel_iff]
  exact List.countP_congr fun e he => by rw [hkept.charged_eq (hX.history e he)]

theorem countP_free {entries : List Entry} {p : Entry → Bool} (h : ∀ e ∈ entries, e.IsFree)
    (hp : ∀ e, p e → e.takes ∨ e.gives) (q : Entry → Bool) :
    entries.countP (fun e => p e && q e) = 0 := by
  refine List.countP_eq_zero.2 fun e he => ?_
  obtain ⟨haccepted, hreleased⟩ := h e he
  have := hp e
  simp_all [Entry.takes, Entry.gives]

theorem Workers.Balanced.step {entries : List Entry} (hb : X.Balanced c) (hX : X.Orderly)
    (hkept : SlotsKept X.scheduler Y.scheduler) (hhistory : Y.history = X.history ++ entries)
    (h : Charge X Y entries) : Y.Balanced c := by
  obtain ⟨n, hn, hsum⟩ := hb
  have happend := charges_append (c := c) hX hkept hhistory
  have htakes (e : Entry) : e.takes → e.takes ∨ e.gives := .inl
  have hgives (e : Entry) : e.gives → e.takes ∨ e.gives := .inr
  have hvoid (e : Entry) : (e.gives && e.void) → e.takes ∨ e.gives :=
    fun h => .inr (Bool.and_eq_true_iff.1 h).1
  cases h with
  | free _ hcounters hfree =>
    refine ⟨n, by rw [hcounters, hn], ?_⟩
    rw [happend, happend, happend, countP_free hfree htakes, countP_free hfree hgives,
      countP_free hfree hvoid]
    exact hsum
  | take e t c' hevent hcharged hcounters =>
    have hshape : e.takes = true ∧ e.gives = false := by
      simp [Entry.takes, Entry.gives, hevent, Event.accepted?, Event.released?]
    by_cases hc : c' = c
    · subst hc
      refine ⟨n + 1, ?_, ?_⟩
      · rw [hcounters, increment, Table.get?_modify, if_pos rfl, hn]
        rfl
      · rw [happend, happend, happend]
        simp only [List.countP_singleton, hshape, hcharged]
        simp only [decide_true, Bool.and_true, Bool.false_and, if_true, Bool.false_eq_true, if_false]
        omega
    · refine ⟨n, ?_, ?_⟩
      · rw [hcounters, increment, Table.get?_modify, if_neg hc, hn]
      · rw [happend, happend, happend]
        simp [hcharged, hc, hsum]
  | give e rest t c' hevent hfree hcharged hv hcounters _ =>
    have hshape : e.takes = false ∧ e.gives = true := by
      simp [Entry.takes, Entry.gives, hevent, Event.accepted?, Event.released?]
    by_cases hc : c' = c
    · subst hc
      refine ⟨n - 1, ?_, ?_⟩
      · rw [hcounters, decrement, Table.get?_modify, if_pos rfl, hn]
        rfl
      · rw [count_eq_of_get? hn] at hv
        rw [happend, happend, happend]
        simp only [List.countP_cons, countP_free hfree htakes, countP_free hfree hgives,
          countP_free hfree hvoid, hshape, hcharged, hv]
        by_cases hzero : n = 0
        · simp [hzero] at hsum ⊢
          omega
        · simp [hzero]
          omega
    · refine ⟨n, ?_, ?_⟩
      · rw [hcounters, decrement, Table.get?_modify, if_neg hc, hn]
      · rw [happend, happend, happend]
        simp only [List.countP_cons, countP_free hfree htakes, countP_free hfree hgives,
          countP_free hfree hvoid, hcharged]
        simp [hc, hsum]

/-! ## The tasks of a counter -/

namespace Workers

def acceptedOn (X : Workers) (c : CounterId) : List TaskId :=
  X.history.filterMap fun e =>
    if X.scheduler.counterIn e.loop = some c then e.event.accepted? else none

def releasedOn (X : Workers) (c : CounterId) : List TaskId :=
  X.history.filterMap fun e =>
    if X.scheduler.counterIn e.loop = some c then e.event.released? else none

end Workers

theorem count_acceptedOn (hX : X.Orderly) (t : TaskId) : (X.acceptedOn c).count t =
    if X.scheduler.counterIn (X.scheduler.ownerOf t) = some c then
      (eventsOn (X.scheduler.ownerOf t) X.history).count (.accepted t) else 0 := by
  rw [← countP_event hX (t := t) rfl, Workers.acceptedOn, List.count_filterMap]
  refine List.countP_congr fun e _ => ?_
  cases e.event <;> simp [Event.accepted?, and_comm]

theorem count_releasedOn (hX : X.Orderly) (t : TaskId) : (X.releasedOn c).count t =
    if X.scheduler.counterIn (X.scheduler.ownerOf t) = some c then
      (eventsOn (X.scheduler.ownerOf t) X.history).count (.released t) else 0 := by
  rw [← countP_event hX (t := t) rfl, Workers.releasedOn, List.count_filterMap]
  refine List.countP_congr fun e _ => ?_
  cases e.event <;> simp [Event.released?, and_comm]

theorem exists_account (hX : X.Orderly) (hkept : X.Kept) (t : TaskId) :
    ∃ a : Account, a.Sound ∧ a.overflowed = 0 ∧
      a.state = (X.scheduler.tasks.get? t).map Task.state ∧
      (X.Rests → a.toStakes = 0 ∧ (a.hand = .empty ∨ a.hand = .firing)) ∧
      a.toTally = tally t (eventsOn (X.scheduler.ownerOf t) X.history) := by
  cases htask : X.scheduler.tasks.get? t with
  | none =>
    -- nothing has shown of a task that there is not
    have hnone (event : Event) (h : event.task = t) :
        (eventsOn (X.scheduler.ownerOf t) X.history).count event = 0 := by
      refine List.count_eq_zero_of_not_mem fun hmem => ?_
      obtain ⟨e, he, hevent⟩ := List.mem_filterMap.1 hmem
      obtain ⟨-, hevent⟩ := Option.ite_none_right_eq_some.1 hevent
      obtain ⟨task, hget, -⟩ := hX.task_of_entry he
      rw [Option.some.inj hevent, h, htask] at hget
      cases hget
    refine ⟨{ state := none, periodic := false, number := 0, outcome := none, queued := 0
              running := false, hand := .empty, results := [] }, .unknown rfl ?_, rfl, rfl,
      fun _ => ⟨rfl, .inl rfl⟩, ?_⟩
    · constructor <;> rfl
    · simp [tally, hnone (.accepted t) rfl, hnone (.overflowed t) rfl, hnone (.started t) rfl,
        hnone (.cancelled t) rfl, hnone (.discarded t) rfl, hnone (.released t) rfl]
  | some task =>
    have howner : X.scheduler.ownerOf t = task.owner := by
      unfold ownerOf
      rw [htask]
    have hhas := hX.isSome_owner htask
    obtain ⟨results, replies, hview⟩ := hX.views _ hhas
    rw [howner]
    refine ⟨(X.view task.owner results replies).account task.owner t, hview.sound t,
      hkept.account task.owner t, ?_, fun hrests => ⟨?_, hand_of_isIdle (hrests.2 _ hhas)⟩, rfl⟩
    · simp [State.account, Workers.view, standing, Standing.of, taskIn, htask]
    · change stakes t (X.undertakings.filterMap _) = 0
      rw [hrests.1]
      rfl

theorem releasedOn_le (hX : X.Orderly) (hkept : X.Kept) :
    (X.releasedOn c).length ≤ (X.acceptedOn c).length ∧
      ∀ e, X.Due e → X.scheduler.counterIn e.loop = some c →
        (X.releasedOn c).length < (X.acceptedOn c).length := by
  have hle : (X.releasedOn c).Subperm (X.acceptedOn c) := by
    refine List.subperm_ext_iff.2 fun u _ => ?_
    obtain ⟨a, hsound, hover, -, -, htally⟩ := exists_account hX hkept u
    rw [count_releasedOn hX, count_acceptedOn hX]
    split
    · have hle := (hsound.released_le hover).1
      rwa [htally] at hle
    · exact Nat.le_refl _
  refine ⟨hle.length_le, fun e hdue hhome => ?_⟩
  refine Nat.lt_of_le_of_ne hle.length_le fun hlength => ?_
  have hcount := (hle.perm_of_length_le (Nat.le_of_eq hlength.symm)).count_eq e.event.task
  rw [count_releasedOn hX, count_acceptedOn hX, ← hdue.owner, if_pos hhome, if_pos hhome] at hcount
  exact Nat.ne_of_lt hdue.count_lt hcount

theorem accepted_iff (hX : X.Orderly) (hc : X.counter? k = some c) : X.Accepted k t ↔
    X.scheduler.counterIn (X.scheduler.ownerOf t) = some c ∧
      0 < (eventsOn (X.scheduler.ownerOf t) X.history).count (.accepted t) := by
  constructor
  · rintro ⟨e, he, hworker, hevent⟩
    obtain ⟨k', hk', hcounter⟩ := (hX.history e he).accepted t hevent
    cases hworker.symm.trans hk'
    have hloop := hX.loop_of_entry he
    rw [hevent] at hloop
    change e.loop = X.scheduler.ownerOf t at hloop
    rw [← hloop]
    exact ⟨hcounter.trans hc, List.count_pos_iff.2 (List.mem_filterMap.2 ⟨e, he, by simp [hevent]⟩)⟩
  · rintro ⟨hcounter, hpos⟩
    obtain ⟨e, he, hsome⟩ := List.mem_filterMap.1 (List.count_pos_iff.1 hpos)
    obtain ⟨hloop, hevent⟩ := Option.ite_none_right_eq_some.1 hsome
    obtain ⟨k', hk', hcounter'⟩ := (hX.history e he).accepted t (Option.some.inj hevent)
    rw [hloop, hcounter] at hcounter'
    rw [hX.apart k' k c hcounter'.symm hc] at hk'
    exact ⟨e, he, hk', Option.some.inj hevent⟩

theorem perm_acceptedOn (hX : X.Orderly) (hkept : X.Kept) (hc : X.counter? k = some c)
    (hrests : X.Rests) :
    (X.acceptedOn c).Perm (X.releasedOn c ++ (X.openTasks k ++ X.discardedTasks k)) := by
  refine List.perm_iff_count.2 fun t => ?_
  obtain ⟨a, hsound, hover, hstate, hrest, htally⟩ := exists_account hX hkept t
  obtain ⟨hstakes, hhand⟩ := hrest hrests
  have heq := hsound.accepted_eq hover hstakes hhand
  have haccepted : a.accepted = (eventsOn (X.scheduler.ownerOf t) X.history).count (.accepted t) :=
    congrArg Tally.accepted htally
  have hreleased : a.released = (eventsOn (X.scheduler.ownerOf t) X.history).count (.released t) :=
    congrArg Tally.released htally
  have hdiscarded :
      a.discarded = (eventsOn (X.scheduler.ownerOf t) X.history).count (.discarded t) :=
    congrArg Tally.discarded htally
  have hopen : (X.openTasks k).count t = if X.Accepted k t ∧
      (a.state = some .pending ∨ a.state = some .running) then 1 else 0 := by
    unfold Workers.openTasks
    rw [count_filter_range]
    · simp only [decide_eq_true_eq, hstate]
    · simp only [decide_eq_true_eq]
      rintro ⟨-, h | h⟩ <;>
      · obtain ⟨task, htask, -⟩ := Option.map_eq_some_iff.1 h
        exact (List.getElem?_eq_some_iff.1 htask).1
  have hdiscard : (∃ e ∈ X.history, e.event = .discarded t) ↔ 0 < a.discarded := by
    rw [hdiscarded, List.count_pos_iff]
    constructor
    · rintro ⟨e, he, hevent⟩
      have hloop := hX.loop_of_entry he
      rw [hevent] at hloop
      exact List.mem_filterMap.2 ⟨e, he, by simp [hevent, hloop, Event.task]⟩
    · intro hmem
      obtain ⟨e, he, hsome⟩ := List.mem_filterMap.1 hmem
      obtain ⟨-, hevent⟩ := Option.ite_none_right_eq_some.1 hsome
      exact ⟨e, he, Option.some.inj hevent⟩
  have hdropped : (X.discardedTasks k).count t =
      if X.Accepted k t ∧ 0 < a.discarded then 1 else 0 := by
    unfold Workers.discardedTasks
    rw [count_filter_range]
    · simp only [decide_eq_true_eq, hdiscard]
    · simp only [decide_eq_true_eq]
      rintro ⟨-, e, he, hevent⟩
      obtain ⟨task, htask, -⟩ := hX.task_of_entry he
      rw [hevent] at htask
      exact (List.getElem?_eq_some_iff.1 htask).1
  rw [List.count_append, List.count_append, count_acceptedOn hX, count_releasedOn hX, hopen, hdropped]
  simp only [accepted_iff hX hc, ← haccepted, ← hreleased]
  by_cases hhome : X.scheduler.counterIn (X.scheduler.ownerOf t) = some c
  · simp only [hhome, if_true, true_and]
    -- only an accepted task can have been discarded
    have hdropped : (0 < a.accepted ∧ 0 < a.discarded) = (0 < a.discarded) := by
      refine propext ⟨And.right, fun h => ⟨?_, h⟩⟩
      rw [if_pos h] at heq
      omega
    simp only [hdropped]
    exact heq
  · simp [hhome]

/-! ## Slots given back for others -/

def Workers.isForeign (X : Workers) (c : CounterId) (e : Entry) : Bool :=
  X.scheduler.counterIn e.loop ≠ some c

def Workers.strays (X : Workers) (c : CounterId) : Nat :=
  X.history.countP fun e => e.gives && (X.isForeign c e && decide (X.chargedCounter e = some c))

def Workers.losses (X : Workers) (c : CounterId) : Nat :=
  X.history.countP fun e => e.gives && (!X.isForeign c e && decide (X.chargedCounter e ≠ some c))

theorem length_acceptedOn (hX : X.Orderly) : (X.acceptedOn c).length = X.charges c Entry.takes := by
  rw [Workers.acceptedOn, List.length_filterMap_eq_countP]
  refine List.countP_congr fun e he => ?_
  cases hevent : e.event with
  | accepted t =>
    obtain ⟨k, hworker, hcounter⟩ := (hX.history e he).accepted t hevent
    rw [charged_of_worker hworker, ← hcounter]
    simp [Entry.takes, hevent, Event.accepted?, apply_ite]
  | _ => simp [Entry.takes, hevent, Event.accepted?]

theorem releasedOn_add_strays : (X.releasedOn c).length + X.strays c =
    X.charges c Entry.gives + X.losses c := by
  rw [Workers.releasedOn, List.length_filterMap_eq_countP]
  unfold Workers.strays Workers.charges Workers.losses
  induction X.history with
  | nil => rfl
  | cons e rest ih =>
    simp only [List.countP_cons]
    have hone : (if (if X.scheduler.counterIn e.loop = some c then e.event.released? else none).isSome
          then 1 else 0) +
        (if e.gives && (X.isForeign c e && decide (X.chargedCounter e = some c)) then 1 else 0) =
        (if e.gives && decide (X.chargedCounter e = some c) then 1 else 0) +
          (if e.gives && (!X.isForeign c e && decide (X.chargedCounter e ≠ some c)) then 1 else 0) := by
      unfold Workers.isForeign
      cases hgives : e.gives <;> by_cases hhome : X.scheduler.counterIn e.loop = some c <;>
        by_cases hcharged : X.chargedCounter e = some c <;>
        simp_all [Entry.gives]
    omega

/-- A counter is found at zero no more often than slots of it were given back for others. -/
def Workers.Outweighed (X : Workers) (c : CounterId) : Prop :=
  (X.charges c fun e => e.gives && e.void) ≤ X.strays c

theorem strays_append {entries : List Entry} (hX : X.Orderly)
    (hslots : SlotsKept X.scheduler Y.scheduler) (h : Y.history = X.history ++ entries) :
    Y.strays c = X.strays c + entries.countP fun e =>
      e.gives && (Y.isForeign c e && decide (Y.chargedCounter e = some c)) := by
  unfold Workers.strays
  rw [h, List.countP_append, Nat.add_right_cancel_iff]
  refine List.countP_congr fun e he => ?_
  unfold Workers.isForeign
  rw [hslots.charged_eq (hX.history e he), hslots.counterIn_eq (hX.history e he).loop]

theorem Workers.Outweighed.step {entries : List Entry} (ho : X.Outweighed c) (hb : X.Balanced c)
    (hX : X.Orderly) (hkept : X.Kept) (hslots : SlotsKept X.scheduler Y.scheduler)
    (hhistory : Y.history = X.history ++ entries) (h : Charge X Y entries) : Y.Outweighed c := by
  unfold Workers.Outweighed at ho ⊢
  rw [charges_append hX hslots hhistory, strays_append hX hslots hhistory]
  have hvoid (e : Entry) : (e.gives && e.void) → e.takes ∨ e.gives :=
    fun h => .inr (Bool.and_eq_true_iff.1 h).1
  cases h with
  | free _ _ hfree =>
    rw [countP_free hfree hvoid]
    exact Nat.le_add_right_of_le ho
  | take e t c' hevent _ _ =>
    have hshape : e.gives = false := by simp [Entry.gives, hevent, Event.released?]
    simp only [List.countP_singleton, hshape, Bool.false_and, Bool.false_eq_true, if_false]
    exact ho
  | give e rest t c' hevent hfree hcharged hv _ hdue =>
    have hshape : e.gives = true := by simp [Entry.gives, hevent, Event.released?]
    rw [List.countP_cons, List.countP_cons, countP_free hfree hvoid]
    simp only [hshape, hcharged, Bool.true_and, Option.some.injEq]
    by_cases hc : c' = c
    · subst hc
      cases hforeign : Y.isForeign c' e with
      | true =>
        simp only [decide_true, Bool.and_true, if_true]
        split <;> omega
      | false =>
        -- a slot of the counter's own task is due, so the counter stands at zero only if it was given
        -- back for others
        have hhome : X.scheduler.counterIn e.loop = some c' := by
          rw [← hslots.counterIn_eq hdue.loop]
          simpa [Workers.isForeign] using hforeign
        have hlt := (releasedOn_le hX hkept).2 e hdue hhome
        obtain ⟨n, hn, hsum⟩ := hb
        rw [count_eq_of_get? hn] at hv
        have hsplit := releasedOn_add_strays (X := X) (c := c')
        rw [length_acceptedOn hX] at hlt
        simp only [decide_true, Bool.and_true, Bool.false_eq_true, if_false, hv]
        split
        · next hzero =>
          simp only [decide_eq_true_eq] at hzero
          omega
        · omega
    · simp only [hc, decide_false, Bool.and_false, Bool.false_eq_true, if_false]
      omega

/-! ## What the counter of a worker tells -/

theorem Workers.Step.history_append (h : Workers.Step X Y) :
    ∃ entries, Y.history = X.history ++ entries := by
  obtain ⟨m, h⟩ := h
  cases m with
  | use k use =>
    obtain ⟨-, h⟩ := Option.ite_none_right_eq_some.1 h
    cases h
    exact ⟨[], (List.append_nil _).symm⟩
  | cancel k t =>
    obtain ⟨_, _, -, -, -, rfl⟩ := cancel_eq h
    exact ⟨[], (List.append_nil _).symm⟩
  | proceed place =>
    obtain ⟨first, second, u, s, next, -, -, rfl⟩ := proceed_cases h
    exact ⟨_, rfl⟩
  | serve l result =>
    obtain ⟨-, h⟩ := Option.ite_none_right_eq_some.1 h
    obtain ⟨_, -, rfl⟩ := Option.map_eq_some_iff.1 h
    exact ⟨_, rfl⟩
  | pass delay =>
    cases h
    exact ⟨[], (List.append_nil _).symm⟩

theorem Workers.Step.kept (h : Workers.Step X Y) (hY : Y.Kept) : X.Kept := by
  obtain ⟨entries, hhistory⟩ := h.history_append
  exact fun e he => hY e (hhistory ▸ List.mem_append_left _ he)

theorem Workers.Reaches.balanced (h : X.Reaches) (hkept : X.Kept) (hc : X.counter? k = some c) :
    X.Balanced c ∧ X.Outweighed c := by
  obtain ⟨start, hstart, hsteps⟩ := h
  induction hsteps with
  | refl =>
    obtain ⟨slot, hslot, rfl⟩ := Option.map_eq_some_iff.1 hc
    refine ⟨⟨0, (hstart.slot k slot hslot).2, ?_⟩, ?_⟩
    · simp [Workers.charges, hstart.history]
    · simp [Workers.Outweighed, Workers.charges, Workers.strays, hstart.history]
  | @tail X Y hsteps hstep ih =>
    have hX : X.Orderly := Workers.Reaches.orderly ⟨start, hstart, hsteps⟩
    have hslots := hstep.slotsKept hX
    have hkeptX := hstep.kept hkept
    obtain ⟨hb, ho⟩ := ih hkeptX ((hslots.counter? k).symm.trans hc)
    obtain ⟨entries, hhistory, hcharge⟩ := hstep.charge hX hkept
    exact ⟨hb.step hX hslots hhistory hcharge, ho.step hb hX hkeptX hslots hhistory hcharge⟩

theorem accepted_iff_of_released (hX : X.Orderly) (hkept : X.Kept) (hc : X.counter? k = some c)
    (he : e ∈ X.history) (hevent : e.event = .released t) :
    X.Accepted k t ↔ X.scheduler.counterIn e.loop = some c := by
  have hloop := hX.loop_of_entry he
  rw [hevent] at hloop
  change e.loop = X.scheduler.ownerOf t at hloop
  obtain ⟨a, hsound, hover, -, -, htally⟩ := exists_account hX hkept t
  have hle := (hsound.released_le hover).1
  rw [htally] at hle
  have hpos : 0 < (eventsOn (X.scheduler.ownerOf t) X.history).count (.released t) :=
    List.count_pos_iff.2 (List.mem_filterMap.2 ⟨e, he, by simp [hevent, hloop]⟩)
  rw [accepted_iff hX hc, ← hloop]
  rw [← hloop] at hpos hle
  exact ⟨And.left, fun h => ⟨h, Nat.lt_of_lt_of_le hpos hle⟩⟩

theorem releases_eq (hX : X.Orderly) (hkept : X.Kept) (hc : X.counter? k = some c)
    {p : TaskId → Entry → Bool} {q : Entry → Bool}
    (h : ∀ e ∈ X.history, ∀ t, e.event = .released t →
      (X.Accepted k t ↔ X.scheduler.counterIn e.loop = some c) →
      (∀ j, e.worker = some j → (j = k ↔ X.counter? j = some c)) → p t e = q e) :
    X.releases p = X.history.countP fun e => e.gives && q e := by
  refine List.countP_congr fun e he => ?_
  unfold Entry.gives
  cases hevent : e.event with
  | released t =>
    have hworker (j : WorkerId) (_ : e.worker = some j) : j = k ↔ X.counter? j = some c :=
      ⟨fun heq => heq ▸ hc, fun hj => hX.apart j k c hj hc⟩
    have heq := h e he t hevent (accepted_iff_of_released hX hkept hc he hevent) hworker
    simp [Event.released?, heq]
  | _ => simp [Event.released?]

/-- The counter of a worker tells its open tasks, apart from what was given back for others and by
others. -/
theorem Workers.Reaches.charged (h : X.Reaches) (hkept : X.Kept) (hc : X.counter? k = some c) :
    Charged X k c := by
  have hX := h.orderly
  obtain ⟨⟨n, hn, hsum⟩, houtweighed⟩ := h.balanced hkept hc
  have hcount := count_eq_of_get? hn
  have hstray : X.stray k = X.strays c := by
    refine releases_eq hX hkept hc fun e _ t _ haccepted hworker => ?_
    unfold Workers.isForeign Workers.chargedCounter
    cases hby : e.worker with
    | none => simp [haccepted]
    | some j => simp [haccepted, hworker j hby]
  have hlost : X.lost k = X.losses c := by
    refine releases_eq hX hkept hc fun e _ t _ haccepted hworker => ?_
    unfold Workers.isForeign Workers.chargedCounter
    cases hby : e.worker with
    | none => simp [haccepted]
    | some j => simp [haccepted, hworker j hby]
  have hvoid : X.void k = X.charges c fun e => e.gives && e.void := by
    unfold Workers.charges
    simp only [Bool.and_assoc]
    refine releases_eq hX hkept hc fun e _ t _ haccepted hworker => ?_
    unfold Workers.chargedCounter
    cases hby : e.worker with
    | none => simp [haccepted]
    | some j => simp [hworker j hby]
  have hle : X.void k ≤ X.stray k := by
    rw [hvoid, hstray]
    exact houtweighed
  have hrest (hrests : X.Rests) : X.scheduler.count c + X.stray k =
      (X.openTasks k).length + (X.discardedTasks k).length + X.lost k + X.void k := by
    have hlength := (perm_acceptedOn hX hkept hc hrests).length_eq
    have hsplit := releasedOn_add_strays (X := X) (c := c)
    rw [length_acceptedOn hX, List.length_append, List.length_append] at hlength
    rw [hcount, hstray, hlost, hvoid]
    omega
  refine ⟨hrest, hle, fun hstray hlost hrests => ?_⟩
  have := hrest hrests
  omega

def twoWorkers : Workers where
  scheduler := { Scheduler.create 100 with
    counters := ⟨[.create, .create]⟩
    slots := ⟨[⟨none, false, "", 0, .continue⟩, ⟨none, false, "", 1, .continue⟩]⟩ }
  undertakings := []
  services := fun l => .serving (.poll l)
  history := []

theorem opened_twoWorkers : twoWorkers.Opened where
  slot k slot h := by
    rcases k with _ | _ | k
    · cases h; exact ⟨rfl, rfl⟩
    · cases h; exact ⟨rfl, rfl⟩
    · cases h
  apart j k c hj hk := by
    rcases j with _ | _ | j <;> rcases k with _ | _ | k <;> cases hj <;> cases hk <;> rfl
  loops _ := rfl
  tasks _ := rfl
  undertakings := rfl
  services _ := rfl
  history := rfl

theorem Workers.reaches_of_moves? {X Y : Workers} {moves : List Workers.Move} (h : X.Reaches)
    (hmoves : X.moves? moves = some Y) : Y.Reaches := by
  induction moves generalizing X with
  | nil =>
    cases hmoves
    exact h
  | cons m rest ih =>
    obtain ⟨Z, hmove, hrest⟩ := Option.bind_eq_some_iff.1 hmoves
    obtain ⟨start, hstart, hsteps⟩ := h
    exact ih ⟨start, hstart, hsteps.tail ⟨m, hmove⟩⟩ hrest

def cancelAcross : List Workers.Move :=
  Workers.Move.use 0 (.enqueue .oneShot 50 0) :: List.replicate 6 (Workers.Move.proceed 0) ++
    Workers.Move.use 1 (.enqueue .oneShot 50 0) :: List.replicate 6 (Workers.Move.proceed 0) ++
    Workers.Move.cancel 1 0 :: List.replicate 5 (Workers.Move.proceed 0)

/-- A slot of the first worker stays taken without a task that holds it, and the second worker's counter
stands at zero with a task pending. -/
theorem cancelAcross_charged : ∃ X : Workers, X.Reaches ∧ X.Kept ∧ X.Rests ∧
    X.scheduler.count 0 = 1 ∧ X.openTasks 0 = [] ∧ X.scheduler.count 1 = 0 ∧ X.openTasks 1 = [1] ∧
    Charged X 0 0 ∧ Charged X 1 1 := by
  have hend : (twoWorkers.moves? cancelAcross).map (fun X =>
      (X.history.map Entry.event, X.undertakings.length, X.scheduler.loops.size,
        (X.services 0).isIdle, (X.services 1).isIdle)) =
      some ([.accepted 0, .accepted 1, .released 0, .cancelled 0], 0, 2, true, true) := by
    decide +kernel
  have hcounts : (twoWorkers.moves? cancelAcross).map (fun X =>
      (X.scheduler.count 0, X.openTasks 0, X.scheduler.count 1, X.openTasks 1)) =
      some (1, [], 0, [1]) := by
    decide +kernel
  have hcounters : (twoWorkers.moves? cancelAcross).map (fun X => (X.counter? 0, X.counter? 1)) =
      some (some 0, some 1) := by
    decide +kernel
  obtain ⟨X, hmoves, hX⟩ := Option.map_eq_some_iff.1 hend
  rw [hmoves] at hcounts hcounters
  simp only [Option.map_some, Option.some.injEq, Prod.mk.injEq] at hX hcounts hcounters
  obtain ⟨hhistory, hundertakings, hloops, hfirst, hsecond⟩ := hX
  obtain ⟨hzero, hopen, hone, hopen'⟩ := hcounts
  obtain ⟨hc, hc'⟩ := hcounters
  have hreaches : X.Reaches := Workers.reaches_of_moves? ⟨_, opened_twoWorkers, .refl⟩ hmoves
  have hkept : X.Kept := fun e he t hevent => by
    have hmem : Event.overflowed t ∈ X.history.map Entry.event := hevent ▸ List.mem_map_of_mem he
    simp [hhistory] at hmem
  have hrests : X.Rests := by
    refine ⟨List.length_eq_zero_iff.1 hundertakings, fun l hl => ?_⟩
    obtain ⟨loop, hloop⟩ := Option.isSome_iff_exists.1 hl
    have hlt : l < X.scheduler.loops.size := (List.getElem?_eq_some_iff.1 hloop).1
    rw [hloops] at hlt
    rcases l with _ | _ | l
    · exact hfirst
    · exact hsecond
    · omega
  exact ⟨X, hreaches, hkept, hrests, hzero, hopen, hone, hopen', hreaches.charged hkept hc,
    hreaches.charged hkept hc'⟩

end ScriptWorker.Scheduling
