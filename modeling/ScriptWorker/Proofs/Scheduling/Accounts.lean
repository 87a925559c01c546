import ScriptWorker.Proofs.Scheduling.Tasks

/-!
# The account of a task

All that threads know of one task of a loop: what the scheduler holds of it, who is about to do what
with it, and what has shown of it. A step of any thread changes the account of a task in one of a few
ways, or not at all, and keeps it sound: a task waits in one place at most, one thread at most gets to
write its outcome, and its slot is held by the task as long as that may run, after that by whoever is
about to release it.
-/

namespace ScriptWorker.Scheduling

/-- What operations are about to do with a task. -/
structure Stakes where
  /-- Threads that are about to have it queued, or refused. -/
  offers : Nat := 0
  /-- Shutdowns that are about to discard it. -/
  drained : Nat := 0
  /-- Shutdowns whose attempt to discard it as a pending task has failed. -/
  passing : Nat := 0
  /-- Threads that have cancelled it and are about to release its slot. -/
  claims : Nat := 0
  /-- Those of them that have not yet taken it out of the queue. -/
  linked : Nat := 0
  /-- Threads that are about to write its outcome. -/
  settling : Nat := 0

namespace Stakes

instance : Zero Stakes := ⟨{}⟩

instance : Add Stakes where
  add a b := {
    offers := a.offers + b.offers, drained := a.drained + b.drained
    passing := a.passing + b.passing, claims := a.claims + b.claims
    linked := a.linked + b.linked, settling := a.settling + b.settling }

theorem add_eq (a b : Stakes) : a + b = {
    offers := a.offers + b.offers, drained := a.drained + b.drained
    passing := a.passing + b.passing, claims := a.claims + b.claims
    linked := a.linked + b.linked, settling := a.settling + b.settling } := rfl

theorem zero_eq : (0 : Stakes) = {} := rfl

@[simp] theorem zero_add (a : Stakes) : 0 + a = a := by simp [add_eq, zero_eq]

@[simp] theorem add_zero (a : Stakes) : a + 0 = a := rfl

theorem add_assoc (a b c : Stakes) : a + b + c = a + (b + c) := by simp [add_eq, Nat.add_assoc]

theorem add_comm (a b : Stakes) : a + b = b + a := by simp [add_eq, Nat.add_comm]

end Stakes

def Operation.stakes (t : TaskId) : Operation → Stakes
  | enqueue (.accept _ u _) => if u = t then { offers := 1 } else 0
  | enqueue (.refuse u) => if u = t then { offers := 1 } else 0
  | enqueue (.refuseSettle u) => if u = t then { settling := 1 } else 0
  | cancel u (.settle ..) => if u = t then { claims := 1, linked := 1, settling := 1 } else 0
  | cancel u (.unqueue ..) => if u = t then { claims := 1, linked := 1 } else 0
  | cancel u (.wake ..) => if u = t then { claims := 1 } else 0
  | cancel u (.release _) => if u = t then { claims := 1 } else 0
  | shutdown (.wake _ rest) => { drained := rest.count t }
  | shutdown (.discard rest _) => { drained := rest.count t }
  | shutdown (.discardRunning u rest _) =>
    { drained := rest.count t, passing := if u = t then 1 else 0 }
  | shutdown (.settle u rest _) => { drained := rest.count t, settling := if u = t then 1 else 0 }
  | _ => 0

def stakes (t : TaskId) : List Operation → Stakes
  | [] => 0
  | op :: rest => op.stakes t + stakes t rest

theorem stakes_append (t : TaskId) (first second : List Operation) :
    stakes t (first ++ second) = stakes t first + stakes t second := by
  induction first with
  | nil => simp [stakes]
  | cons op rest ih => rw [List.cons_append, stakes, stakes, ih, Stakes.add_assoc]

/-- What the thread of a loop is about to do with a task that it has taken. -/
inductive Hand where
  | empty
  | taken
  | firing
  /-- It has fired, and is to be halted or queued again. -/
  | ending
  /-- It has run, and its slot is to be released. -/
  | releasing (outcome : Answer Value)
  | completing (outcome : Answer Value)
  /-- It was halted, and its slot is to be released. -/
  | halted (cause : Failure)
  | settling (outcome : Answer Value)

@[simp] def Hand.count : Hand → Nat
  | empty => 0
  | _ => 1

def Service.hand (t : TaskId) : Service → Hand
  | starting (.swap u) => if u = t then .taken else .empty
  | starting (.count u) => if u = t then .firing else .empty
  | firing u => if u = t then .firing else .empty
  | concluding (.release u outcome) => if u = t then .releasing outcome else .empty
  | concluding (.complete u outcome) => if u = t then .completing outcome else .empty
  | concluding (.settle u outcome) => if u = t then .settling outcome else .empty
  | concluding (.halt u _) => if u = t then .ending else .empty
  | concluding (.haltRelease u cause) => if u = t then .halted cause else .empty
  | concluding (.rearm u _) => if u = t then .ending else .empty
  | _ => .empty

/-- How often each kind of event has shown of a task. -/
structure Tally where
  accepted : Nat := 0
  overflowed : Nat := 0
  started : Nat := 0
  cancelled : Nat := 0
  discarded : Nat := 0
  released : Nat := 0

def Event.task : Event → TaskId
  | accepted t | overflowed t | started t | cancelled t | discarded t | released t => t

def tally (t : TaskId) (history : List Event) : Tally where
  accepted := history.count (.accepted t)
  overflowed := history.count (.overflowed t)
  started := history.count (.started t)
  cancelled := history.count (.cancelled t)
  discarded := history.count (.discarded t)
  released := history.count (.released t)

theorem tally_append_of_ne {t : TaskId} {events : List Event} (h : ∀ e ∈ events, e.task ≠ t)
    (history : List Event) : tally t (history ++ events) = tally t history := by
  have hcount (e : Event) (he : e.task = t) : events.count e = 0 :=
    List.count_eq_zero_of_not_mem fun hmem => h e hmem he
  simp [tally, hcount (.accepted t) rfl, hcount (.overflowed t) rfl, hcount (.started t) rfl,
    hcount (.cancelled t) rfl, hcount (.discarded t) rfl, hcount (.released t) rfl]

def resultsOf (t : TaskId) (results : List (TaskId × Outcome (Answer Value))) :
    List (Outcome (Answer Value)) :=
  (results.filter (·.1 = t)).map Prod.snd

theorem resultsOf_append (t : TaskId) (results more : List (TaskId × Outcome (Answer Value))) :
    resultsOf t (results ++ more) = resultsOf t results ++ resultsOf t more := by
  simp [resultsOf]

structure Account extends Standing, Stakes, Tally where
  hand : Hand
  results : List (Outcome (Answer Value))

/-- The account of a task of a loop. -/
def State.account (x : State) (l : LoopId) (t : TaskId) : Account :=
  { x.scheduler.standing l t, stakes t x.operations, tally t x.history with
    hand := x.service.hand t
    results := resultsOf t x.results }

namespace Account

/-- What a step of some thread can make of the account of a task. -/
inductive Step : Account → Account → Prop
  | quiet {a} : Step a a
  | create {a} (periodic : Bool) (number : Nat) : a.state = none →
    Step a { a with
      state := some .pending, periodic := periodic, number := number, outcome := none
      offers := a.offers + 1 }
  | accept {a} : 0 < a.offers → a.running = true →
    Step a { a with offers := a.offers - 1, queued := a.queued + 1, accepted := a.accepted + 1 }
  | lose {a} : 0 < a.offers →
    Step a { a with offers := a.offers - 1, overflowed := a.overflowed + 1 }
  | refuse {a} : 0 < a.offers →
    Step a { a with
      state := some .cancelled, offers := a.offers - 1, settling := a.settling + 1 }
  | cancel {a} : a.offers = 0 → a.state = some .pending →
    Step a { a with
      state := some .cancelled, claims := a.claims + 1, linked := a.linked + 1
      settling := a.settling + 1 }
  | cancelRunning {a} : a.periodic = true → a.state = some .running →
    Step a { a with
      state := some .cancelled, claims := a.claims + 1, linked := a.linked + 1
      settling := a.settling + 1 }
  | unqueue {a} : 0 < a.claims → 0 < a.linked →
    Step a { a with queued := 0, linked := a.linked - 1 }
  | release {a} : a.linked < a.claims →
    Step a { a with
      claims := a.claims - 1, released := a.released + 1, cancelled := a.cancelled + 1 }
  | settle {a} : 0 < a.settling →
    Step a { a with
      outcome := some (.error (.cancelled a.number)), settling := a.settling - 1 }
  | drain {a} : Step a { a with drained := a.drained + a.queued, queued := 0, running := false }
  | discard {a} : 0 < a.drained → a.state = some .pending →
    Step a { a with
      state := some .cancelled, drained := a.drained - 1, settling := a.settling + 1
      discarded := a.discarded + 1 }
  | miss {a} : 0 < a.drained → a.state ≠ some .pending →
    Step a { a with drained := a.drained - 1, passing := a.passing + 1 }
  | pass {a} : 0 < a.passing → Step a { a with passing := a.passing - 1 }
  | take {a} : 0 < a.queued → a.hand = .empty →
    Step a { a with queued := a.queued - 1, hand := .taken }
  | start {a} : a.hand = .taken → a.state = some .pending →
    Step a { a with state := some .running, hand := .firing, started := a.started + 1 }
  | skip {a} : a.hand = .taken → a.state ≠ some .pending → Step a { a with hand := .empty }
  | finish {a} (result : Outcome (Answer Value)) : a.hand = .firing → a.periodic = false →
    Step a { a with
      hand := .releasing (EventLoop.outcomeOf a.number result), results := a.results ++ [result] }
  | fire {a} (result : Outcome (Answer Value)) : a.hand = .firing → a.periodic = true →
    Step a { a with hand := .ending, results := a.results ++ [result] }
  | releaseOneShot {a outcome} : a.hand = .releasing outcome →
    Step a { a with hand := .completing outcome, released := a.released + 1 }
  | complete {a outcome} : a.hand = .completing outcome →
    Step a { a with state := some .finished, hand := .settling outcome }
  | halt {a} (cause : Failure) : a.hand = .ending → a.state = some .running →
    Step a { a with state := some .failed, hand := .halted cause }
  | leave {a} : a.hand = .ending → a.state ≠ some .running → Step a { a with hand := .empty }
  | releaseHalted {a cause} : a.hand = .halted cause →
    Step a { a with hand := .settling (.error cause), released := a.released + 1 }
  | conclude {a outcome} : a.hand = .settling outcome →
    Step a { a with outcome := some outcome, hand := .empty }
  | rearm {a} : a.hand = .ending → a.state = some .running → a.running = true →
    Step a { a with state := some .pending, queued := a.queued + 1, hand := .empty }
  | loseRunning {a} : a.hand = .ending → a.state = some .running → a.running = true →
    Step a { a with state := some .pending, hand := .empty, overflowed := a.overflowed + 1 }
  | drop {a} : a.hand = .ending → a.state = some .running →
    Step a { a with
      state := some .cancelled, outcome := some (.error (.cancelled a.number)), hand := .empty
      discarded := a.discarded + 1 }

/-! ## What holds of a task in each state -/

structure Unknown (a : Account) : Prop where
  place : a.queued + a.drained + a.offers + a.hand.count = 0
  idle : a.passing + a.claims + a.linked + a.settling = 0
  tally : a.accepted + a.overflowed + a.started + a.cancelled + a.discarded + a.released = 0
  results : a.results = []
  outcome : a.outcome = none

/-- A pending task is in one place, unless it was lost. -/
structure Pending (a : Account) : Prop where
  place : a.queued + a.drained + a.offers + a.hand.count + min a.overflowed 1 = 1
  hand : a.hand = .empty ∨ a.hand = .taken
  drained : 0 < a.drained → a.running = false
  idle : a.passing + a.claims + a.linked + a.settling = 0
  accepted : a.accepted + a.offers ≤ 1 ∧ 1 ≤ a.accepted + a.offers + a.overflowed
  tally : a.cancelled + a.discarded + a.released = 0
  outcome : a.outcome = none
  oneShot : a.periodic = false → a.started = 0 ∧ a.results = []

structure Running (a : Account) : Prop where
  place : a.queued + a.drained + a.offers = 0
  idle : a.passing + a.claims + a.linked + a.settling = 0
  accepted : a.accepted = 1 ∧ a.overflowed = 0
  tally : a.cancelled + a.discarded = 0
  outcome : a.outcome = none
  hand : a.hand = .firing ∧ a.released = 0 ∧ (a.periodic = false → a.started = 1 ∧ a.results = []) ∨
    a.hand = .ending ∧ a.released = 0 ∧ a.periodic = true ∨
    a.periodic = false ∧ a.started = 1 ∧ ∃ result, a.results = [result] ∧
      (a.hand = .releasing (EventLoop.outcomeOf a.number result) ∧ a.released = 0 ∨
        a.hand = .completing (EventLoop.outcomeOf a.number result) ∧ a.released = 1)

structure Finished (a : Account) : Prop where
  place : a.queued + a.drained + a.offers = 0
  idle : a.passing + a.claims + a.linked + a.settling = 0
  accepted : a.accepted = 1 ∧ a.overflowed = 0
  tally : a.cancelled + a.discarded = 0
  oneShot : a.periodic = false ∧ a.started = 1 ∧ a.released = 1
  result : ∃ result, a.results = [result] ∧
    (a.hand = .settling (EventLoop.outcomeOf a.number result) ∧ a.outcome = none ∨
      a.hand = .empty ∧ a.outcome = some (EventLoop.outcomeOf a.number result))

structure Failed (a : Account) : Prop where
  place : a.queued + a.drained + a.offers = 0
  idle : a.passing + a.claims + a.linked + a.settling = 0
  accepted : a.accepted = 1 ∧ a.overflowed = 0
  tally : a.cancelled + a.discarded = 0
  periodic : a.periodic = true
  cause : (∃ cause, a.hand = .halted cause ∧ a.released = 0 ∧ a.outcome = none) ∨
    (∃ cause, a.hand = .settling (.error cause) ∧ a.released = 1 ∧ a.outcome = none) ∨
    a.hand = .empty ∧ a.released = 1 ∧ a.outcome.isSome

/-- A cancelled task may still be where it was, and its outcome may still be to be written. -/
structure Cancelled (a : Account) : Prop where
  place : a.queued + a.drained + a.hand.count ≤ 1
  offers : a.offers = 0
  hand : a.hand = .empty ∨ a.hand = .taken ∨ (a.hand = .firing ∨ a.hand = .ending) ∧ a.periodic = true
  drained : 0 < a.drained → a.running = false
  claims : a.claims + a.cancelled ≤ 1 ∧ a.linked ≤ a.claims
  queued : a.queued ≤ a.linked
  outcome : a.outcome = none ∧ a.settling = 1 ∨ a.outcome.isSome ∧ a.settling = 0
  released : a.released = a.cancelled
  accepted : a.overflowed = 0 → a.accepted ≤ 1 ∧ a.claims + a.discarded + a.released = a.accepted
  oneShot : a.periodic = false → a.started = 0 ∧ a.results = []

inductive Sound (a : Account) : Prop
  | unknown (state : a.state = none) (account : a.Unknown)
  | pending (state : a.state = some .pending) (account : a.Pending)
  | running (state : a.state = some .running) (account : a.Running)
  | finished (state : a.state = some .finished) (account : a.Finished)
  | failed (state : a.state = some .failed) (account : a.Failed)
  | cancelled (state : a.state = some .cancelled) (account : a.Cancelled)

namespace Sound

variable {a : Account}

theorem unknown_of (h : a.Sound) (hstate : a.state = none) : a.Unknown := by
  cases h <;> simp_all

theorem pending_of (h : a.Sound) (hstate : a.state = some .pending) : a.Pending := by
  cases h <;> simp_all

theorem running_of (h : a.Sound) (hstate : a.state = some .running) : a.Running := by
  cases h <;> simp_all

theorem failed_of (h : a.Sound) (hstate : a.state = some .failed) : a.Failed := by
  cases h <;> simp_all

theorem cancelled_of (h : a.Sound) (hstate : a.state = some .cancelled) : a.Cancelled := by
  cases h <;> simp_all

/-! Whoever has to do with a task tells its state. -/

theorem state_of_offers (h : a.Sound) (hoffers : 0 < a.offers) : a.state = some .pending := by
  cases h with
  | pending hstate => exact hstate
  | cancelled _ h => exact absurd h.offers (by omega)
  | _ _ h => exact absurd h.place (by omega)

theorem state_of_claims (h : a.Sound) (hclaims : 0 < a.claims) : a.state = some .cancelled := by
  cases h with
  | cancelled hstate => exact hstate
  | _ _ h => exact absurd h.idle (by omega)

theorem state_of_settling (h : a.Sound) (hsettling : 0 < a.settling) :
    a.state = some .cancelled := by
  cases h with
  | cancelled hstate => exact hstate
  | _ _ h => exact absurd h.idle (by omega)

theorem state_of_passing (h : a.Sound) (hpassing : 0 < a.passing) : a.state = some .cancelled := by
  cases h with
  | cancelled hstate => exact hstate
  | _ _ h => exact absurd h.idle (by omega)

theorem state_of_drained (h : a.Sound) (hdrained : 0 < a.drained) :
    a.state = some .pending ∨ a.state = some .cancelled := by
  cases h with
  | pending hstate => exact .inl hstate
  | cancelled hstate => exact .inr hstate
  | _ _ h => exact absurd h.place (by omega)

theorem state_of_queued (h : a.Sound) (hqueued : 0 < a.queued) :
    a.state = some .pending ∨ a.state = some .cancelled := by
  cases h with
  | pending hstate => exact .inl hstate
  | cancelled hstate => exact .inr hstate
  | _ _ h => exact absurd h.place (by omega)

theorem known_of_hand (h : a.Sound) (hhand : a.hand.count = 1) : ∃ state, a.state = some state := by
  cases hstate : a.state with
  | some state => exact ⟨state, rfl⟩
  | none => exact absurd (h.unknown_of hstate).place (by omega)

theorem state_of_taken (h : a.Sound) (hhand : a.hand = .taken) :
    a.state = some .pending ∨ a.state = some .cancelled := by
  cases h with
  | pending hstate => exact .inl hstate
  | cancelled hstate => exact .inr hstate
  | unknown _ h => simpa [hhand] using h.place
  | running _ h => simpa [hhand] using h.hand
  | finished _ h => simpa [hhand] using h.result
  | failed _ h => simpa [hhand] using h.cause

theorem state_of_firing (h : a.Sound) (hhand : a.hand = .firing) :
    a.state = some .running ∨ a.state = some .cancelled := by
  cases h with
  | running hstate => exact .inl hstate
  | cancelled hstate => exact .inr hstate
  | unknown _ h => simpa [hhand] using h.place
  | pending _ h => simpa [hhand] using h.hand
  | finished _ h => simpa [hhand] using h.result
  | failed _ h => simpa [hhand] using h.cause

theorem state_of_ending (h : a.Sound) (hhand : a.hand = .ending) :
    a.state = some .running ∨ a.state = some .cancelled := by
  cases h with
  | running hstate => exact .inl hstate
  | cancelled hstate => exact .inr hstate
  | unknown _ h => simpa [hhand] using h.place
  | pending _ h => simpa [hhand] using h.hand
  | finished _ h => simpa [hhand] using h.result
  | failed _ h => simpa [hhand] using h.cause

theorem state_of_releasing (h : a.Sound) {outcome : Answer Value}
    (hhand : a.hand = .releasing outcome) : a.state = some .running := by
  cases h with
  | running hstate => exact hstate
  | unknown _ h => simpa [hhand] using h.place
  | pending _ h => simpa [hhand] using h.hand
  | finished _ h => simpa [hhand] using h.result
  | failed _ h => simpa [hhand] using h.cause
  | cancelled _ h => simpa [hhand] using h.hand

theorem state_of_completing (h : a.Sound) {outcome : Answer Value}
    (hhand : a.hand = .completing outcome) : a.state = some .running := by
  cases h with
  | running hstate => exact hstate
  | unknown _ h => simpa [hhand] using h.place
  | pending _ h => simpa [hhand] using h.hand
  | finished _ h => simpa [hhand] using h.result
  | failed _ h => simpa [hhand] using h.cause
  | cancelled _ h => simpa [hhand] using h.hand

theorem state_of_halted (h : a.Sound) {cause : Failure} (hhand : a.hand = .halted cause) :
    a.state = some .failed := by
  cases h with
  | failed hstate => exact hstate
  | unknown _ h => simpa [hhand] using h.place
  | pending _ h => simpa [hhand] using h.hand
  | running _ h => simpa [hhand] using h.hand
  | finished _ h => simpa [hhand] using h.result
  | cancelled _ h => simpa [hhand] using h.hand

end Sound

section

variable {a : Account}

/-! ## How a task gets from one state to another -/

/-- A pending task is cancelled by whoever claims it, discards it or refuses it; of all it waited in,
only the queue still shows it, to the one who claims it. -/
theorem Pending.cancelled (h : a.Pending) (offers drained claims linked discarded : Nat)
    (hoffers : offers = 0) (hdrained : drained ≤ a.drained) (hlinked : linked = claims)
    (hqueued : a.queued ≤ claims) (hclaims : claims ≤ 1)
    (hone : a.overflowed = 0 → claims + discarded = a.accepted) :
    Cancelled { a with
      state := some .cancelled, offers := offers, drained := drained, claims := claims
      linked := linked, settling := a.settling + 1, discarded := discarded } := by
  obtain ⟨hplace, hhand, hstopped, hidle, haccepted, htally, houtcome, honeShot⟩ := h
  exact {
    place := by dsimp only; omega
    offers := hoffers
    hand := by dsimp only; tauto
    drained := fun hpos => hstopped (Nat.lt_of_lt_of_le hpos hdrained)
    claims := by dsimp only; omega
    queued := by dsimp only; omega
    outcome := .inl ⟨houtcome, by dsimp only; omega⟩
    released := by dsimp only; omega
    accepted := fun hlost => by have := hone hlost; dsimp only at *; omega
    oneShot := honeShot }

theorem Running.ending (h : a.Running) (hhand : a.hand = .ending) :
    a.released = 0 ∧ a.periodic = true := by
  simpa [hhand] using h.hand

theorem Running.rearmed (h : a.Running) (hhand : a.hand = .ending) (queued overflowed : Nat)
    (hone : queued + min overflowed 1 = 1) :
    Pending { a with
      state := some .pending, queued := queued, overflowed := overflowed, hand := .empty } := by
  obtain ⟨hreleased, hperiodic⟩ := h.ending hhand
  obtain ⟨hplace, hidle, haccepted, htally, houtcome, -⟩ := h
  exact {
    place := by simp only [Hand.count]; omega
    hand := .inl rfl
    drained := by dsimp only; omega
    idle := hidle
    accepted := by dsimp only; omega
    tally := by dsimp only; omega
    outcome := houtcome
    oneShot := by simp [hperiodic] }

theorem Cancelled.handed (h : a.Cancelled) (queued : Nat) (hand : Hand)
    (hplace : queued + hand.count ≤ a.queued + a.hand.count) (hqueued : queued ≤ a.queued)
    (hhand : hand = .empty ∨ hand = .taken ∨
      (hand = .firing ∨ hand = .ending) ∧ a.periodic = true) :
    Cancelled { a with queued := queued, hand := hand } :=
  { h with
    place := by have := h.place; dsimp only; omega
    hand := hhand
    queued := Nat.le_trans hqueued h.queued }

theorem Sound.emptied (h : a.Sound) :
    Sound { a with drained := a.drained + a.queued, queued := 0, running := false } := by
  cases h with
  | unknown hstate h =>
    exact .unknown hstate { h with place := by have := h.place; dsimp only; omega }
  | pending hstate h =>
    exact .pending hstate { h with
      place := by have := h.place; dsimp only; omega
      drained := fun _ => rfl }
  | running hstate h =>
    exact .running hstate { h with place := by have := h.place; dsimp only; omega }
  | finished hstate h =>
    exact .finished hstate { h with place := by have := h.place; dsimp only; omega }
  | failed hstate h =>
    exact .failed hstate { h with place := by have := h.place; dsimp only; omega }
  | cancelled hstate h =>
    exact .cancelled hstate { h with
      place := by have := h.place; dsimp only; omega
      drained := fun _ => rfl
      queued := Nat.zero_le _ }

theorem Sound.concluded (h : a.Sound) {outcome : Answer Value} (hhand : a.hand = .settling outcome) :
    Sound { a with outcome := some outcome, hand := .empty } := by
  cases h with
  | finished hstate h =>
    obtain ⟨result, hresult, rfl, -⟩ : ∃ result, a.results = [result] ∧
        _ = EventLoop.outcomeOf a.number result ∧ a.outcome = none := by
      simpa [hhand] using h.result
    exact .finished hstate { h with result := ⟨result, hresult, .inr ⟨rfl, rfl⟩⟩ }
  | failed hstate h =>
    have hreleased : a.released = 1 := by
      rcases h.cause with ⟨cause, hcause, -⟩ | ⟨cause, -, hreleased, -⟩ | ⟨hempty, -⟩
      · simp [hhand] at hcause
      · exact hreleased
      · simp [hhand] at hempty
    exact .failed hstate { h with cause := .inr (.inr ⟨rfl, hreleased, rfl⟩) }
  | unknown _ h => simpa [hhand] using h.place
  | pending _ h => simpa [hhand] using h.hand
  | running _ h => simpa [hhand] using h.hand
  | cancelled _ h => simpa [hhand] using h.hand

end

/-- Every step keeps accounts sound. -/
theorem Step.sound {a b : Account} (h : Step a b) (ha : a.Sound) : b.Sound := by
  cases h with
  | quiet => exact ha
  | create _ _ hstate =>
    obtain ⟨hplace, hidle, htally, hresults, -⟩ := ha.unknown_of hstate
    refine .pending rfl ⟨?_, ?_, ?_, hidle, ?_, ?_, rfl, ?_⟩ <;> dsimp only
    · omega
    · cases hhand : a.hand <;> simp_all
    · omega
    · omega
    · omega
    · exact fun _ => ⟨by omega, hresults⟩
  | accept hoffers hrunning =>
    have hstate := ha.state_of_offers hoffers
    have hp := ha.pending_of hstate
    have hplace := hp.place
    have haccepted := hp.accepted
    exact .pending hstate { hp with
      place := by dsimp only; omega
      accepted := by dsimp only; omega }
  | lose hoffers =>
    have hstate := ha.state_of_offers hoffers
    have hp := ha.pending_of hstate
    have hplace := hp.place
    have haccepted := hp.accepted
    exact .pending hstate { hp with
      place := by dsimp only; omega
      accepted := by dsimp only; omega }
  | refuse hoffers =>
    have hp := ha.pending_of (ha.state_of_offers hoffers)
    have ⟨hplace, _, _, hidle, haccepted, htally, _, _⟩ := hp
    exact .cancelled rfl (hp.cancelled (a.offers - 1) a.drained a.claims a.linked a.discarded
      (by omega) (Nat.le_refl _) (by omega) (by omega) (by omega) fun _ => by omega)
  | cancel hoffers hstate =>
    have hp := ha.pending_of hstate
    have ⟨hplace, _, _, hidle, haccepted, htally, _, _⟩ := hp
    exact .cancelled rfl (hp.cancelled a.offers a.drained (a.claims + 1) (a.linked + 1) a.discarded
      hoffers (Nat.le_refl _) (by omega) (by omega) (by omega) fun _ => by omega)
  | cancelRunning hperiodic hstate =>
    obtain ⟨hplace, hidle, haccepted, htally, houtcome, hhand⟩ := ha.running_of hstate
    have hhand' : a.released = 0 ∧ (a.hand = .firing ∨ a.hand = .ending) := by grind
    exact .cancelled rfl {
      place := by rcases hhand' with ⟨-, hhand | hhand⟩ <;> simp [hhand] <;> omega
      offers := by dsimp only; omega
      hand := .inr (.inr ⟨hhand'.2, hperiodic⟩)
      drained := by dsimp only; omega
      claims := by dsimp only; omega
      queued := by dsimp only; omega
      outcome := .inl ⟨houtcome, by dsimp only; omega⟩
      released := by dsimp only; omega
      accepted := fun _ => by dsimp only; omega
      oneShot := by simp [hperiodic] }
  | unqueue hclaims hlinked =>
    have hstate := ha.state_of_claims hclaims
    have hc := ha.cancelled_of hstate
    have hplace := hc.place
    have hclaim := hc.claims
    exact .cancelled hstate { hc with
      place := by dsimp only; omega
      claims := by dsimp only; omega
      queued := by dsimp only; omega }
  | release hclaims =>
    have hstate := ha.state_of_claims (by omega)
    have hc := ha.cancelled_of hstate
    have hclaim := hc.claims
    exact .cancelled hstate { hc with
      claims := by dsimp only; omega
      released := by simp only [hc.released]
      accepted := fun hlost => by have := hc.accepted hlost; dsimp only; omega }
  | settle hsettling =>
    have hstate := ha.state_of_settling hsettling
    have hc := ha.cancelled_of hstate
    have hone : a.settling = 1 := by rcases hc.outcome with h | h <;> omega
    exact .cancelled hstate { hc with
      outcome := .inr ⟨rfl, by dsimp only; omega⟩ }
  | drain => exact ha.emptied
  | discard hdrained hstate =>
    have hp := ha.pending_of hstate
    have ⟨hplace, _, _, hidle, haccepted, htally, _, _⟩ := hp
    exact .cancelled rfl (hp.cancelled a.offers (a.drained - 1) a.claims a.linked (a.discarded + 1)
      (by omega) (Nat.sub_le ..) (by omega) (by omega) (by omega) fun _ => by omega)
  | miss hdrained hpending =>
    have hstate := (ha.state_of_drained hdrained).resolve_left hpending
    have hc := ha.cancelled_of hstate
    exact .cancelled hstate { hc with
      place := by have := hc.place; dsimp only; omega
      drained := fun _ => hc.drained hdrained }
  | pass hpassing =>
    have hstate := ha.state_of_passing hpassing
    exact .cancelled hstate { ha.cancelled_of hstate with }
  | take hqueued hhand =>
    rcases ha.state_of_queued hqueued with hstate | hstate
    · have hp := ha.pending_of hstate
      exact .pending hstate { hp with
        place := by have := hp.place; simp only [hhand, Hand.count] at *; omega
        hand := .inr rfl }
    · exact .cancelled hstate ((ha.cancelled_of hstate).handed (a.queued - 1) .taken
        (by simp only [hhand, Hand.count]; omega) (Nat.sub_le ..) (.inr (.inl rfl)))
  | start hhand hstate =>
    obtain ⟨hplace, -, hstopped, hidle, haccepted, htally, houtcome, honeShot⟩ :=
      ha.pending_of hstate
    simp only [hhand, Hand.count] at hplace
    exact .running rfl {
      place := by dsimp only; omega
      idle := hidle
      accepted := by dsimp only; omega
      tally := by dsimp only; omega
      outcome := houtcome
      hand := .inl ⟨rfl, by dsimp only; omega, fun h => ⟨by simp [(honeShot h).1], (honeShot h).2⟩⟩ }
  | skip hhand hpending =>
    have hstate := (ha.state_of_taken hhand).resolve_left hpending
    exact .cancelled hstate
      ((ha.cancelled_of hstate).handed a.queued .empty (by simp) (Nat.le_refl _) (.inl rfl))
  | finish _ hhand hperiodic =>
    rcases ha.state_of_firing hhand with hstate | hstate
    · have hr := ha.running_of hstate
      obtain ⟨hreleased, hfirst⟩ : a.released = 0 ∧ (a.started = 1 ∧ a.results = []) := by
        simpa [hhand, hperiodic] using hr.hand
      exact .running hstate { hr with
        hand := .inr (.inr ⟨hperiodic, hfirst.1, _, by rw [hfirst.2]; rfl, .inl ⟨rfl, hreleased⟩⟩) }
    · simpa [hhand, hperiodic] using (ha.cancelled_of hstate).hand
  | fire _ hhand hperiodic =>
    rcases ha.state_of_firing hhand with hstate | hstate
    · have hr := ha.running_of hstate
      have hreleased : a.released = 0 := by simpa [hhand, hperiodic] using hr.hand
      exact .running hstate { hr with hand := .inr (.inl ⟨rfl, hreleased, hperiodic⟩) }
    · have hhanded := (ha.cancelled_of hstate).handed a.queued .ending
        (by simp [hhand]) (Nat.le_refl _) (.inr (.inr ⟨.inr rfl, hperiodic⟩))
      exact .cancelled hstate { hhanded with oneShot := by simp [hperiodic] }
  | releaseOneShot hhand =>
    have hstate := ha.state_of_releasing hhand
    have hr := ha.running_of hstate
    obtain ⟨hperiodic, hstarted, result, hresult, rfl, hreleased⟩ :
        a.periodic = false ∧ a.started = 1 ∧ ∃ result, a.results = [result] ∧
          _ = EventLoop.outcomeOf a.number result ∧ a.released = 0 := by
      simpa [hhand] using hr.hand
    exact .running hstate { hr with
      hand := .inr (.inr ⟨hperiodic, hstarted, result, hresult, .inr ⟨rfl, by simp [hreleased]⟩⟩) }
  | complete hhand =>
    obtain ⟨hplace, hidle, haccepted, htally, houtcome, hrunning⟩ :=
      ha.running_of (ha.state_of_completing hhand)
    obtain ⟨hperiodic, hstarted, result, hresult, rfl, hreleased⟩ :
        a.periodic = false ∧ a.started = 1 ∧ ∃ result, a.results = [result] ∧
          _ = EventLoop.outcomeOf a.number result ∧ a.released = 1 := by
      simpa [hhand] using hrunning
    exact .finished rfl {
      place := hplace
      idle := hidle
      accepted := haccepted
      tally := htally
      oneShot := ⟨hperiodic, hstarted, hreleased⟩
      result := ⟨result, hresult, .inl ⟨rfl, houtcome⟩⟩ }
  | halt cause hhand hstate =>
    have hr := ha.running_of hstate
    obtain ⟨hreleased, hperiodic⟩ := hr.ending hhand
    exact .failed rfl { hr with
      periodic := hperiodic
      cause := .inl ⟨cause, rfl, hreleased, hr.outcome⟩ }
  | leave hhand hrunning =>
    have hstate := (ha.state_of_ending hhand).resolve_left hrunning
    exact .cancelled hstate
      ((ha.cancelled_of hstate).handed a.queued .empty (by simp) (Nat.le_refl _) (.inl rfl))
  | @releaseHalted cause hhand =>
    have hstate := ha.state_of_halted hhand
    have hf := ha.failed_of hstate
    obtain ⟨hreleased, houtcome⟩ : a.released = 0 ∧ a.outcome = none := by
      simpa [hhand] using hf.cause
    exact .failed hstate { hf with
      cause := .inr (.inl ⟨cause, rfl, by simp [hreleased], houtcome⟩) }
  | conclude hhand => exact ha.concluded hhand
  | rearm hhand hstate hrunning =>
    have hr := ha.running_of hstate
    have hplace := hr.place
    have haccepted := hr.accepted
    exact .pending rfl (hr.rearmed hhand (a.queued + 1) a.overflowed (by omega))
  | loseRunning hhand hstate =>
    have hr := ha.running_of hstate
    have hplace := hr.place
    have haccepted := hr.accepted
    exact .pending rfl (hr.rearmed hhand a.queued (a.overflowed + 1) (by omega))
  | drop hhand hstate =>
    have hr := ha.running_of hstate
    obtain ⟨hreleased, hperiodic⟩ := hr.ending hhand
    obtain ⟨hplace, hidle, haccepted, htally, -, -⟩ := hr
    exact .cancelled rfl {
      place := by simp only [Hand.count]; omega
      offers := by dsimp only; omega
      hand := .inl rfl
      drained := by dsimp only; omega
      claims := by dsimp only; omega
      queued := by dsimp only; omega
      outcome := .inr ⟨rfl, by dsimp only; omega⟩
      released := by dsimp only; omega
      accepted := fun _ => by dsimp only; omega
      oneShot := by simp [hperiodic] }

theorem Step.handed {a b : Account} (h : Step a b) (hknown : a.state ≠ none) (hoffers : a.offers = 0) :
    b.state ≠ none ∧ b.offers = 0 ∧ b.periodic = a.periodic := by
  cases h <;> simp_all

end Account

end ScriptWorker.Scheduling
