import Mathlib.Data.List.Perm.Subperm
import ScriptWorker.Proofs.Scheduling.Waiting

/-!
# The counter of a loop

A loop that has a counter of its own takes a slot of it for each task that it accepts. Whoever ends a
task gives its slot back, once and on no other occasion; only the tasks that are dropped with their
loop keep theirs.
-/

namespace ScriptWorker.Scheduling

open Relation Scheduler

variable {l : LoopId} {c : CounterId} {x y : State} {t : TaskId}

/-! ## Slots that were taken and given back -/

def Event.accepted? : Event → Option TaskId
  | accepted t => some t
  | _ => none

def Event.released? : Event → Option TaskId
  | released t => some t
  | _ => none

def acceptedTasks (history : List Event) : List TaskId := history.filterMap Event.accepted?

def releasedTasks (history : List Event) : List TaskId := history.filterMap Event.released?

theorem count_acceptedTasks (history : List Event) (t : TaskId) :
    (acceptedTasks history).count t = history.count (.accepted t) := by
  rw [acceptedTasks, List.count_filterMap]
  exact List.countP_congr fun e _ => by cases e <;> simp [Event.accepted?]

theorem count_releasedTasks (history : List Event) (t : TaskId) :
    (releasedTasks history).count t = history.count (.released t) := by
  rw [releasedTasks, List.count_filterMap]
  exact List.countP_congr fun e _ => by cases e <;> simp [Event.released?]

theorem acceptedTasks_eq_nil {history : List Event} (h : ∀ t, .accepted t ∉ history) :
    acceptedTasks history = [] := by
  refine List.filterMap_eq_nil_iff.2 fun e he => ?_
  cases e with
  | accepted t => exact (h t he).elim
  | _ => rfl

theorem releasedTasks_eq_nil {history : List Event} (h : ∀ t, .released t ∉ history) :
    releasedTasks history = [] := by
  refine List.filterMap_eq_nil_iff.2 fun e he => ?_
  cases e with
  | released t => exact (h t he).elim
  | _ => rfl

namespace Account

variable {a : Account}

theorem Sound.released_le (ha : a.Sound) (hkept : a.overflowed = 0) :
    a.released ≤ a.accepted ∧ a.accepted ≤ 1 := by
  cases ha with
  | unknown _ h => have := h.tally; omega
  | pending _ h => have := h.tally; have := h.accepted; omega
  | running _ h =>
    have hreleased : a.released ≤ 1 := by
      rcases h.hand with ⟨-, h, -⟩ | ⟨-, h, -⟩ | ⟨-, -, _, -, ⟨-, h⟩ | ⟨-, h⟩⟩ <;> omega
    have := h.accepted
    omega
  | finished _ h => have := h.accepted; have := h.oneShot; omega
  | failed _ h =>
    have hreleased : a.released ≤ 1 := by
      rcases h.cause with ⟨_, -, h, -⟩ | ⟨_, -, h, -⟩ | ⟨-, h, -⟩ <;> omega
    have := h.accepted
    omega
  | cancelled _ h => have := h.accepted hkept; omega

theorem Sound.released_of_claims (ha : a.Sound) (hkept : a.overflowed = 0) (h : 0 < a.claims) :
    a.released < a.accepted := by
  have := (ha.cancelled_of (ha.state_of_claims h)).accepted hkept
  omega

theorem Sound.released_of_releasing (ha : a.Sound) {outcome : Answer Value}
    (h : a.hand = .releasing outcome) : a.released < a.accepted := by
  have hrunning := ha.running_of (ha.state_of_releasing h)
  have hreleased : a.released = 0 := by
    rcases hrunning.hand with ⟨hhand, -⟩ | ⟨hhand, -⟩ | ⟨-, -, _, -, ⟨-, hzero⟩ | ⟨hhand, -⟩⟩
    · rw [h] at hhand; cases hhand
    · rw [h] at hhand; cases hhand
    · exact hzero
    · rw [h] at hhand; cases hhand
  rw [hreleased, hrunning.accepted.1]
  exact Nat.one_pos

theorem Sound.released_of_halted (ha : a.Sound) {cause : Failure} (h : a.hand = .halted cause) :
    a.released < a.accepted := by
  have hfailed := ha.failed_of (ha.state_of_halted h)
  have hreleased : a.released = 0 := by
    rcases hfailed.cause with ⟨_, -, hzero, -⟩ | ⟨_, hhand, -⟩ | ⟨hhand, -⟩
    · exact hzero
    · rw [h] at hhand; cases hhand
    · rw [h] at hhand; cases hhand
  rw [hreleased, hfailed.accepted.1]
  exact Nat.one_pos

theorem Sound.accepted_eq (ha : a.Sound) (hkept : a.overflowed = 0) (hstakes : a.toStakes = 0)
    (hhand : a.hand = .empty ∨ a.hand = .firing) :
    a.accepted = a.released +
      ((if 0 < a.accepted ∧ (a.state = some .pending ∨ a.state = some .running) then 1 else 0) +
        if 0 < a.discarded then 1 else 0) := by
  have hoffers : a.offers = 0 := congrArg Stakes.offers hstakes
  have hclaims : a.claims = 0 := congrArg Stakes.claims hstakes
  cases ha with
  | unknown hstate h =>
    have := h.tally
    simp [hstate]
    split <;> omega
  | pending hstate h =>
    have := h.tally
    have := h.accepted
    simp [hstate]
    split <;> split <;> omega
  | running hstate h =>
    have := h.tally
    have := h.accepted
    have hreleased : a.released = 0 := by
      rcases h.hand with ⟨-, hzero, -⟩ | ⟨hend, -⟩ | ⟨-, -, _, -, ⟨hend, -⟩ | ⟨hend, -⟩⟩
      · exact hzero
      · simp [hend] at hhand
      · simp [hend] at hhand
      · simp [hend] at hhand
    simp [hstate]
    split <;> split <;> omega
  | finished hstate h =>
    have := h.tally
    have := h.accepted
    have := h.oneShot
    simp [hstate]
    split <;> omega
  | failed hstate h =>
    have := h.tally
    have := h.accepted
    have hreleased : a.released = 1 := by
      rcases h.cause with ⟨_, hhalted, -⟩ | ⟨_, -, hone, -⟩ | ⟨-, hone, -⟩
      · simp [hhalted] at hhand
      · exact hone
      · exact hone
    simp [hstate]
    split <;> omega
  | cancelled hstate h =>
    have := h.accepted hkept
    simp [hstate]
    split <;> omega

end Account

/-! ## The books of a loop -/

/-- The counter stands at the number of slots that were taken and not given back. -/
def State.Balanced (x : State) (c : CounterId) : Prop :=
  ∃ n, x.scheduler.counters.get? c = some ⟨n⟩ ∧
    n + (releasedTasks x.history).length = (acceptedTasks x.history).length

theorem Operation.eq_release {op : Operation} (h : op.decrements = some c) :
    ∃ u, op = .cancel u (.release c) := by
  unfold Operation.decrements at h
  split at h <;> cases h
  exact ⟨_, rfl⟩

theorem Service.eq_release {service : Service} {s : Scheduler} (h : service.decrements s = some c) :
    ∃ u, (∃ outcome, service = .concluding (.release u outcome)) ∨
      ∃ cause, service = .concluding (.haltRelease u cause) := by
  unfold Service.decrements at h
  split at h
  · exact ⟨_, .inl ⟨_, rfl⟩⟩
  · exact ⟨_, .inr ⟨_, rfl⟩⟩
  · cases h

theorem released_lt_accepted (hx : x.Orderly l (some c)) (hkept : ∀ t, .overflowed t ∉ x.history)
    (h : x.Decrements c) :
    (releasedTasks x.history).length < (acceptedTasks x.history).length := by
  have hover (t : TaskId) : (x.account l t).overflowed = 0 :=
    List.count_eq_zero_of_not_mem (hkept t)
  obtain ⟨t, ht⟩ : ∃ t, (x.account l t).released < (x.account l t).accepted := by
    rcases h with ⟨op, hmem, hop⟩ | hservice
    · obtain ⟨u, rfl⟩ := Operation.eq_release hop
      obtain ⟨others, hshare⟩ := exists_share hmem u
      refine ⟨u, (hx.sound u).released_of_claims (hover u) ?_⟩
      simp [State.account, hshare, Operation.stakes, Stakes.add_eq]
    · obtain ⟨u, ⟨outcome, hrelease⟩ | ⟨cause, hrelease⟩⟩ := Service.eq_release hservice
      · have hhand : (x.account l u).hand = .releasing outcome := by
          simp [State.account, hrelease, Service.hand]
        exact ⟨u, (hx.sound u).released_of_releasing hhand⟩
      · have hhand : (x.account l u).hand = .halted cause := by
          simp [State.account, hrelease, Service.hand]
        exact ⟨u, (hx.sound u).released_of_halted hhand⟩
  have hle : (releasedTasks x.history).Subperm (acceptedTasks x.history) := by
    refine List.subperm_ext_iff.2 fun u _ => ?_
    rw [count_releasedTasks, count_acceptedTasks]
    exact ((hx.sound u).released_le (hover u)).1
  refine Nat.lt_of_le_of_ne hle.length_le fun hlength => ?_
  have hcount := (hle.perm_of_length_le (Nat.le_of_eq hlength.symm)).count_eq t
  rw [count_releasedTasks, count_acceptedTasks] at hcount
  exact Nat.ne_of_lt ht hcount

theorem Started.balanced (h : Started l (some c) x) : x.Balanced c := by
  refine ⟨0, h.counter c rfl, ?_⟩
  rw [h.history]
  rfl

theorem State.Balanced.keep {events : List Event} (hb : x.Balanced c)
    (hcounter : y.scheduler.counters.get? c = x.scheduler.counters.get? c)
    (hhistory : y.history = x.history ++ events)
    (hevents : ∀ t, .accepted t ∉ events ∧ .released t ∉ events) : y.Balanced c := by
  obtain ⟨n, hn, hsum⟩ := hb
  refine ⟨n, hcounter.trans hn, ?_⟩
  have haccepted := acceptedTasks_eq_nil fun t => (hevents t).1
  have hreleased := releasedTasks_eq_nil fun t => (hevents t).2
  unfold acceptedTasks releasedTasks at *
  simpa [hhistory, haccepted, hreleased] using hsum

theorem State.Balanced.take (hb : x.Balanced c)
    (hcounter : y.scheduler.counters = (x.scheduler.increment c).counters)
    (hhistory : y.history = x.history ++ [.accepted t]) : y.Balanced c := by
  obtain ⟨n, hn, hsum⟩ := hb
  refine ⟨n + 1, ?_, ?_⟩
  · rw [hcounter, increment, Table.get?_modify, if_pos rfl, hn]
    rfl
  · have hreleased : releasedTasks [.accepted t] = [] := rfl
    have haccepted : acceptedTasks [.accepted t] = [t] := rfl
    unfold acceptedTasks releasedTasks at *
    simp only [hhistory, List.filterMap_append, List.length_append, hreleased, haccepted,
      List.length_nil, List.length_singleton]
    omega

theorem State.Balanced.give {events : List Event} (hb : x.Balanced c)
    (hlt : (releasedTasks x.history).length < (acceptedTasks x.history).length)
    (hcounter : y.scheduler = x.scheduler.decrement c) (hhistory : y.history = x.history ++ events)
    (hevents : (releasedTasks events).length = 1 ∧ acceptedTasks events = []) : y.Balanced c := by
  obtain ⟨n, hn, hsum⟩ := hb
  refine ⟨n - 1, ?_, ?_⟩
  · rw [hcounter, decrement, Table.get?_modify, if_pos rfl, hn]
    rfl
  · unfold acceptedTasks releasedTasks at *
    simp only [hhistory, List.filterMap_append, List.length_append, hevents, List.length_nil]
    omega

theorem State.Orderly.counter_eq (hx : x.Orderly l (some c)) : x.scheduler.counterIn l = some c := by
  obtain ⟨c', hc', hown⟩ := hx.loop
  rwa [← hown c rfl]

theorem counterOf_eq (hx : x.Orderly l (some c)) (h : (x.account l t).hand.count = 1) :
    x.scheduler.counterOf t = c := by
  obtain ⟨state, hstate⟩ := (hx.sound t).known_of_hand h
  have hcounter := hx.counter_eq
  unfold counterIn at hcounter
  obtain ⟨loop, hloop, hc⟩ := Option.map_eq_some_iff.1 hcounter
  unfold counterOf
  rw [ownerOf_eq hstate, hloop]
  exact hc

theorem State.Balanced.step (hb : x.Balanced c) (hx : x.Orderly l (some c))
    (h : Step l (some c) x y) (hkept : ∀ t, .overflowed t ∉ y.history) : y.Balanced c := by
  cases h with
  | elsewhere h =>
    exact hb.keep (h.counter c rfl) (List.append_nil _).symm (by simp)
  | move m h =>
    cases m with
    | call call =>
      obtain ⟨-, h⟩ := Option.ite_none_right_eq_some.1 h
      cases h
      exact hb.keep rfl (List.append_nil _).symm (by simp)
    | proceed place =>
      obtain ⟨op, hop, hadvance⟩ := Option.bind_eq_some_iff.1 h
      obtain ⟨⟨s, next⟩, hstep, rfl⟩ := Option.map_eq_some_iff.1 hadvance
      have hmem := List.mem_of_getElem? hop
      have hon := hx.operations op hmem
      rcases books_operation hstep with ⟨hbooks, hevents⟩ |
        ⟨l', u, delay, c', rfl, hc', hbooks, haccepted | hlost⟩ | ⟨u, c', rfl, rfl⟩
      · exact hb.keep (congrArg (Table.get? · c) hbooks.counters) rfl
          fun t => ⟨(hevents t).1, (hevents t).2.2⟩
      · obtain rfl : l' = l := hon
        obtain rfl : c' = c := Option.some.inj (hc'.symm.trans hx.counter_eq)
        exact hb.take hbooks.counters (by rw [haccepted])
      · exact (hkept u (by simp [hlost])).elim
      · obtain rfl : c' = c := hon c rfl
        refine hb.give (released_lt_accepted hx (fun t ht => hkept t ?_) (.inl ⟨_, hmem, rfl⟩)) rfl rfl
          ⟨rfl, rfl⟩
        exact List.mem_append_left _ ht
    | serve result =>
      obtain ⟨⟨s, service⟩, hadvance, rfl⟩ := Option.map_eq_some_iff.1 h
      rcases books_service hadvance with ⟨hbooks, hevents⟩ | ⟨u, hhand, hdecrements, hevents, rfl⟩
      · exact hb.keep (congrArg (Table.get? · c) hbooks.counters) rfl hevents
      · have hc := counterOf_eq hx hhand
        rw [hc] at hdecrements
        refine hb.give (released_lt_accepted hx (fun t ht => hkept t ?_) (.inr hdecrements)) ?_ rfl ?_
        · exact List.mem_append_left _ ht
        · rw [hc]
        · rw [hevents]
          exact ⟨rfl, rfl⟩
    | join u =>
      obtain ⟨answer, -, rfl⟩ := Option.map_eq_some_iff.1 h
      exact hb.keep rfl (List.append_nil _).symm (by simp)

theorem Step.history_append {own : Option CounterId} (h : Step l own x y) :
    ∃ events, y.history = x.history ++ events := by
  cases h with
  | elsewhere => exact ⟨[], (List.append_nil _).symm⟩
  | move m h =>
    cases m with
    | call call =>
      obtain ⟨-, h⟩ := Option.ite_none_right_eq_some.1 h
      cases h
      exact ⟨[], (List.append_nil _).symm⟩
    | proceed place =>
      obtain ⟨op, -, h⟩ := Option.bind_eq_some_iff.1 h
      obtain ⟨_, -, rfl⟩ := Option.map_eq_some_iff.1 h
      exact ⟨_, rfl⟩
    | serve result =>
      obtain ⟨_, -, rfl⟩ := Option.map_eq_some_iff.1 h
      exact ⟨_, rfl⟩
    | join u =>
      obtain ⟨_, -, rfl⟩ := Option.map_eq_some_iff.1 h
      exact ⟨[], (List.append_nil _).symm⟩

/-- As long as no deadline overflows, the books of the loop balance. -/
theorem Reaches.balanced (h : Reaches l (some c) x) (hkept : ∀ t, .overflowed t ∉ x.history) :
    x.Balanced c := by
  obtain ⟨start, hstart, hsteps⟩ := h
  induction hsteps with
  | refl => exact hstart.balanced
  | @tail x y hsteps hstep ih =>
    obtain ⟨events, hevents⟩ := hstep.history_append
    have hbefore : ∀ t, .overflowed t ∉ x.history := fun t ht =>
      hkept t (hevents ▸ List.mem_append_left _ ht)
    exact (ih hbefore).step (hstart.orderly.steps hsteps) hstep hkept

/-! ## Who holds the slots -/

def State.openTasks (x : State) (l : LoopId) : List TaskId :=
  (List.range x.scheduler.tasks.size).filter fun t =>
    .accepted t ∈ x.history ∧ (x.scheduler.isIn l .pending t ∨ x.scheduler.isIn l .running t)

def State.discardedTasks (x : State) (l : LoopId) : List TaskId :=
  (List.range x.scheduler.tasks.size).filter fun t =>
    .discarded t ∈ x.history ∧ x.scheduler.isIn l .cancelled t

/-- What a loop's own counter tells. -/
structure Counted (l : LoopId) (c : CounterId) (x : State) : Prop where
  /-- The slot of a task is given back once at most. -/
  once : ∀ t, x.history.count (.released t) ≤ 1
  /-- Whoever is about to decrement the counter finds it above zero. -/
  positive : x.Decrements c → 0 < x.scheduler.count c
  /-- With nothing midway the counter stands at the accepted tasks that are pending or run, and those
  that were discarded. -/
  count_eq : x.Rests →
    x.scheduler.count c = (x.openTasks l).length + (x.discardedTasks l).length

theorem Account.Sound.state_of_discarded {a : Account} (ha : a.Sound) (h : 0 < a.discarded) :
    a.state = some .cancelled := by
  cases ha with
  | cancelled hstate => exact hstate
  | unknown _ h => have := h.tally; omega
  | pending _ h => have := h.tally; omega
  | running _ h => have := h.tally; omega
  | finished _ h => have := h.tally; omega
  | failed _ h => have := h.tally; omega

theorem count_filter_range {n : Nat} {p : Nat → Bool} (h : p t → t < n) :
    ((List.range n).filter p).count t = if p t then 1 else 0 := by
  rw [(List.nodup_range.filter p).count]
  simp only [List.mem_filter, List.mem_range]
  by_cases hp : p t
  · simp [hp, h hp]
  · simp [hp]

theorem count_openTasks : (x.openTasks l).count t =
    if 0 < (x.account l t).accepted ∧ ((x.account l t).state = some .pending ∨
      (x.account l t).state = some .running) then 1 else 0 := by
  unfold State.openTasks
  rw [count_filter_range]
  · simp only [decide_eq_true_eq, isIn_iff, State.account, tally, List.count_pos_iff]
  · simp only [decide_eq_true_eq, isIn_iff]
    rintro ⟨-, hstate | hstate⟩
    · exact lt_size hstate
    · exact lt_size hstate

theorem count_discardedTasks (hx : (x.account l t).Sound) : (x.discardedTasks l).count t =
    if 0 < (x.account l t).discarded then 1 else 0 := by
  have hcancelled (h : .discarded t ∈ x.history) :
      (x.scheduler.standing l t).state = some .cancelled :=
    hx.state_of_discarded (List.count_pos_iff.2 h)
  unfold State.discardedTasks
  rw [count_filter_range]
  · simp only [decide_eq_true_eq, isIn_iff, State.account, tally, List.count_pos_iff]
    exact if_congr ⟨And.left, fun h => ⟨h, hcancelled h⟩⟩ rfl rfl
  · simp only [decide_eq_true_eq, isIn_iff]
    exact fun h => lt_size h.2

/-- The counter of a loop keeps its books, however threads and the loop's thread interleave. -/
theorem Reaches.counted (h : Reaches l (some c) x) (hkept : ∀ t, .overflowed t ∉ x.history) :
    Counted l c x := by
  have hx := h.orderly
  have hover (t : TaskId) : (x.account l t).overflowed = 0 :=
    List.count_eq_zero_of_not_mem (hkept t)
  obtain ⟨n, hn, hsum⟩ := h.balanced hkept
  have hcount : x.scheduler.count c = n := by
    unfold count
    rw [hn]
  constructor
  case once =>
    intro t
    obtain ⟨hle, hone⟩ := (hx.sound t).released_le (hover t)
    exact Nat.le_trans hle hone
  case positive =>
    intro hdecrements
    have := released_lt_accepted hx hkept hdecrements
    omega
  case count_eq =>
    intro ⟨hoperations, hidle⟩
    have hperm : (acceptedTasks x.history).Perm
        (releasedTasks x.history ++ (x.openTasks l ++ x.discardedTasks l)) := by
      refine List.perm_iff_count.2 fun t => ?_
      rw [List.count_append, List.count_append, count_acceptedTasks, count_releasedTasks,
        count_openTasks, count_discardedTasks (hx.sound t)]
      exact (hx.sound t).accepted_eq (hover t) (congrArg (stakes t) hoperations)
        (hand_of_isIdle hidle)
    have hlength := hperm.length_eq
    simp only [List.length_append] at hlength
    omega

/-- A periodic task is cancelled while its job runs, and the loop is then stopped with another task in
its queue; the firing ends after that. -/
def cancelAndShut : List Move := [
  .call (.enqueue (.periodic 5) 0 0), .proceed 0, .proceed 0, .proceed 0,
  .call (.enqueue .oneShot 3 0), .proceed 0, .proceed 0, .proceed 0,
  .serve (.panic none), .serve (.panic none), .serve (.panic none),
  .call (.cancel 0 0), .proceed 0, .proceed 0, .proceed 0, .proceed 0, .proceed 0,
  .call .shutdown, .proceed 0, .proceed 0, .proceed 0, .proceed 0, .proceed 0,
  .serve (.panic none), .serve (.panic none)]

theorem cancelAndShut_counted : ∃ x, Reaches 0 (some 0) x ∧ (∀ t, .overflowed t ∉ x.history) ∧
    x.Rests ∧ x.scheduler.count 0 = 1 ∧ Counted 0 0 x := by
  have hend : ((newLoop .halt).moves? 0 (some 0) cancelAndShut).map (fun x =>
      (x.history, x.operations.length, x.service.isIdle, x.scheduler.count 0)) =
      some ([.accepted 0, .accepted 1, .started 0, .released 0, .cancelled 0, .discarded 1], 0, true,
        1) := by
    decide +kernel
  obtain ⟨x, hmoves, hx⟩ := Option.map_eq_some_iff.1 hend
  obtain ⟨hhistory, hrest⟩ := Prod.mk.inj hx
  obtain ⟨hoperations, hrest⟩ := Prod.mk.inj hrest
  obtain ⟨hidle, hcount⟩ := Prod.mk.inj hrest
  have hreaches := reaches_of_moves? hmoves
  have hkept : ∀ t, .overflowed t ∉ x.history := by simp [hhistory]
  exact ⟨x, hreaches, hkept, ⟨List.length_eq_zero_iff.1 hoperations, hidle⟩, hcount,
    hreaches.counted hkept⟩

end ScriptWorker.Scheduling
