import ScriptWorker.Proofs.Scheduling.Workers

/-!
# What shows of workers on one loop

Each step of a worker, of a cancel or of a loop's thread is a step of threads on one loop, and on every
other loop it is nothing. So whatever holds of threads on a loop holds of the view of each loop that the
workers have started.
-/

namespace ScriptWorker.Scheduling

open Relation Scheduler

variable {l : LoopId} {s s' : Scheduler} {X Y : Workers} {u v : Undertaking} {op : Operation}
  {next : Option Undertaking} {results : List (TaskId × Outcome (Answer Value))}
  {replies : List Reply}

/-! ## Views -/

theorem filterMap_toList {l' : LoopId} {a : Option Operation}
    (h : next.bind Undertaking.operation? = a.map (l', ·)) :
    next.toList.filterMap (Undertaking.on? l) = if l' = l then a.toList else [] := by
  cases next with
  | none =>
    cases a with
    | none => simp
    | some op => cases h
  | some v =>
    cases a with
    | none => simp [Undertaking.on?_of_none (l := l) h]
    | some op =>
      have hop : v.operation? = some (l', op) := h
      by_cases hl : l' = l <;> simp [Undertaking.on?_of_operation (l := l) hop, hl]

theorem filterMap_toList_none (h : next.bind Undertaking.operation? = none) :
    next.toList.filterMap (Undertaking.on? l) = [] := by
  cases next with
  | none => rfl
  | some v => simp [Undertaking.on?_of_none (l := l) h]

def eventsOn (l : LoopId) (history : List Entry) : List Event :=
  history.filterMap fun e => if e.loop = l then some e.event else none

theorem eventsOn_append (first second : List Entry) :
    eventsOn l (first ++ second) = eventsOn l first ++ eventsOn l second := List.filterMap_append

theorem eventsOn_map {l' : LoopId} (worker : Option WorkerId) (void : Bool) (events : List Event) :
    eventsOn l (events.map fun e => ⟨l', worker, e, void⟩) = if l' = l then events else [] := by
  induction events with
  | nil => exact (ite_self _).symm
  | cons e rest ih =>
    rw [List.map_cons, eventsOn, List.filterMap_cons, ← eventsOn, ih]
    by_cases hl : l' = l
    · simp only [if_pos hl]
    · simp only [if_neg hl]

theorem eventsOn_entries {l' : LoopId} (h : u.operation? = some (l', op)) :
    eventsOn l (u.entries s) = if l' = l then op.events s else [] := by
  unfold Undertaking.entries
  rw [h]
  exact eventsOn_map _ _ _

theorem entries_of_none (h : u.operation? = none) : u.entries s = [] := by
  unfold Undertaking.entries
  rw [h]

theorem eventsOn_service (l' : LoopId) (service : Service) :
    eventsOn l (service.entries l' s) = if l' = l then service.events s else [] :=
  eventsOn_map _ _ _

theorem step_work {own : Option CounterId} {x : State} {first second : List Operation}
    {after : Option Operation} (hops : x.operations = first ++ op :: second)
    (h : op.advance x.scheduler = some (s, after)) :
    Step l own x { x with
      scheduler := s
      operations := first ++ (after.toList ++ second)
      history := x.history ++ op.events x.scheduler
      replies := x.replies ++ (op.reply? x.scheduler).toList } := by
  refine .move (.proceed first.length) ?_
  have hget : x.operations[first.length]? = some op := by simp [hops]
  have htake : x.operations.take first.length = first := by simp [hops]
  have hdrop : x.operations.drop (first.length + 1) = second := by
    rw [hops, List.drop_append, List.drop_eq_nil_of_le (by omega)]
    simp
  simp only [State.move?, hget, Option.bind_some, h, Option.map_some, htake, hdrop]

theorem stakes_perm {first second : List Operation} (h : first.Perm second) (t : TaskId) :
    stakes t first = stakes t second := by
  induction h with
  | nil => rfl
  | cons op _ ih => exact congrArg (op.stakes t + ·) ih
  | swap a b rest =>
    simp only [stakes]
    rw [← Stakes.add_assoc, Stakes.add_comm (b.stakes t), Stakes.add_assoc]
  | trans _ _ ih ih' => exact ih.trans ih'

theorem State.Orderly.perm {own : Option CounterId} {x : State} {operations : List Operation}
    (hx : x.Orderly l own) (h : x.operations.Perm operations) :
    { x with operations := operations }.Orderly l own := by
  have haccount (t : TaskId) : { x with operations := operations }.account l t = x.account l t := by
    simp only [State.account, stakes_perm h]
  refine ⟨hx.loop, fun op hop => ?_, hx.service, fun t => haccount t ▸ hx.sound t⟩
  refine (hx.operations op (h.mem_iff.2 hop)).mono fun t ht => ?_
  simp only [State.Handed, haccount]
  exact ⟨ht, trivial⟩

theorem State.Orderly.call {own : Option CounterId} {x : State} {c : Call}
    {first second : List Operation} (hx : x.Orderly l own) (hops : x.operations = first ++ second)
    (h : c.Allowed l own x) :
    { x with operations := first ++ c.operation l :: second }.Orderly l own := by
  have hbegun : { x with operations := c.operation l :: x.operations }.Orderly l own :=
    hx.step (.move (.call c) (if_pos h))
  refine State.Orderly.perm (x := { x with operations := c.operation l :: x.operations }) hbegun ?_
  rw [hops]
  exact List.perm_middle.symm

/-! ## Workers keep to their loops -/

def Operation.ChargedTo (counter : Option CounterId) (l : LoopId) (s : Scheduler) : Operation → Prop
  | enqueue _ => s.counterIn l = counter
  | cancel _ stage => some stage.counter = counter
  | shutdown _ => True

/-- Whether what a thread is midway in is done for one of the workers, on a loop that there is. -/
structure Undertaking.Placed (X : Workers) (u : Undertaking) : Prop where
  located : u.Located
  worker : (X.counter? u.worker).isSome
  operation : ∀ l op, u.operation? = some (l, op) → (X.scheduler.counterIn l).isSome ∧ op.Wakes l ∧
    op.ChargedTo (X.counter? u.worker) l X.scheduler

structure Workers.Unused (X : Workers) (l : LoopId) : Prop where
  tasks : ∀ t, X.scheduler.taskIn l t = none
  operations : X.undertakings.filterMap (Undertaking.on? l) = []
  service : X.services l = .serving (.poll l)
  history : eventsOn l X.history = []

/-- An event that showed of a worker or of a loop, and a slot that was taken for a worker's task on the
worker's counter. -/
structure Entry.Placed (X : Workers) (e : Entry) : Prop where
  loop : (X.scheduler.counterIn e.loop).isSome
  worker : ∀ k ∈ e.worker, (X.counter? k).isSome
  accepted : ∀ t, e.event = .accepted t → ∃ k, e.worker = some k ∧
    X.scheduler.counterIn e.loop = X.counter? k

/-- All that goes on is on the loops of the workers. -/
structure Workers.Orderly (X : Workers) : Prop where
  apart : ∀ j k c, X.counter? j = some c → X.counter? k = some c → j = k
  slots : X.scheduler.Slotted
  undertakings : ∀ u ∈ X.undertakings, u.Placed X
  views : ∀ l, (X.scheduler.loops.get? l).isSome → ∃ results replies, (X.view l results replies).Orderly l none
  unused : ∀ l, X.scheduler.loops.get? l = none → X.Unused l
  history : ∀ e ∈ X.history, e.Placed X

theorem Workers.Orderly.exists_view (hX : X.Orderly) (h : (X.scheduler.counterIn l).isSome) :
    ∃ results replies, (X.view l results replies).Orderly l none := by
  refine hX.views l ?_
  unfold counterIn at h
  simpa using h

theorem Workers.Orderly.isSome_owner {t : TaskId} {task : Task} (hX : X.Orderly)
    (h : X.scheduler.tasks.get? t = some task) : (X.scheduler.loops.get? task.owner).isSome := by
  refine Option.isSome_iff_ne_none.2 fun hnone => ?_
  have hin := (hX.unused _ hnone).tasks t
  unfold taskIn at hin
  rw [h, Option.filter_some_pos (by simp)] at hin
  cases hin

theorem Workers.Orderly.counterIn_of_slot {k : WorkerId} {slot : LoopSlot} (hX : X.Orderly)
    (hslot : X.scheduler.slots.get? k = some slot) (hloop : slot.loop = some l) :
    X.scheduler.counterIn l = some slot.counter := by
  refine hX.slots k slot.counter l ?_
  unfold holding
  rw [hslot, Option.map_some, hloop]

/-- A step that shows nothing on a loop. -/
structure Quiet (l : LoopId) (X Y : Workers) : Prop where
  scheduler : X.scheduler.Elsewhere l none Y.scheduler
  operations : Y.undertakings.filterMap (Undertaking.on? l) =
    X.undertakings.filterMap (Undertaking.on? l)
  service : Y.services l = X.services l
  history : eventsOn l Y.history = eventsOn l X.history

namespace Quiet

theorem view (h : Quiet l X Y) (hX : (X.view l results replies).Orderly l none) :
    (Y.view l results replies).Orderly l none := by
  have hview : Y.view l results replies = { X.view l results replies with scheduler := Y.scheduler } := by
    unfold Workers.view
    rw [h.operations, h.service]
    exact congrArg (State.mk _ _ _ · _ _ _) h.history
  rw [hview]
  exact hX.step (.elsewhere h.scheduler)

theorem unused (h : Quiet l X Y) (hX : X.Unused l) : Y.Unused l where
  tasks t := (h.scheduler.tasks t).trans (hX.tasks t)
  operations := h.operations.trans hX.operations
  service := h.service.trans hX.service
  history := h.history.trans hX.history

end Quiet

/-! ## Steps as seen from a loop -/

def Workers.after (X : Workers) (first second : List Undertaking) (u : Undertaking) (s : Scheduler)
    (next : Option Undertaking) : Workers :=
  { X with
    scheduler := s
    undertakings := first ++ (next.toList ++ second)
    history := X.history ++ u.entries X.scheduler }

section

variable {first second : List Undertaking}

theorem proceed_cases {place : Nat} (h : X.move? (.proceed place) = some Y) :
    ∃ first second u s next, X.undertakings = first ++ u :: second ∧
      u.advance X.scheduler = some (s, next) ∧ Y = X.after first second u s next := by
  obtain ⟨u, hu, hadvance⟩ := Option.bind_eq_some_iff.1 h
  obtain ⟨⟨s, next⟩, hstep, rfl⟩ := Option.map_eq_some_iff.1 hadvance
  obtain ⟨hlt, hget⟩ := List.getElem?_eq_some_iff.1 hu
  refine ⟨X.undertakings.take place, X.undertakings.drop (place + 1), u, s, next, ?_, hstep, rfl⟩
  rw [← hget, ← List.drop_eq_getElem_cons hlt, List.take_append_drop]

theorem operations_after (s : Scheduler) : (X.after first second u s next).undertakings.filterMap
    (Undertaking.on? l) = first.filterMap (Undertaking.on? l) ++
      (next.toList.filterMap (Undertaking.on? l) ++ second.filterMap (Undertaking.on? l)) := by
  simp only [Workers.after, List.filterMap_append]

theorem operations_before (hops : X.undertakings = first ++ u :: second) :
    X.undertakings.filterMap (Undertaking.on? l) = first.filterMap (Undertaking.on? l) ++
      ((u.on? l).toList ++ second.filterMap (Undertaking.on? l)) := by
  rw [hops, List.filterMap_append, List.filterMap_cons]
  cases u.on? l <;> rfl

theorem eventsOn_after (s : Scheduler) : eventsOn l (X.after first second u s next).history =
    eventsOn l X.history ++ eventsOn l (u.entries X.scheduler) := eventsOn_append _ _

theorem quiet_after (hops : X.undertakings = first ++ u :: second)
    (hs : X.scheduler.Elsewhere l none s) (hu : u.on? l = none)
    (hnext : next.toList.filterMap (Undertaking.on? l) = [])
    (hevents : eventsOn l (u.entries X.scheduler) = []) :
    Quiet l X (X.after first second u s next) where
  scheduler := hs
  operations := by rw [operations_after, operations_before hops, hu, hnext]; rfl
  service := rfl
  history := by rw [eventsOn_after, hevents, List.append_nil]

theorem mem_view {l : LoopId} (hmem : u ∈ X.undertakings) (hu : u.operation? = some (l, op)) :
    op ∈ (X.view l results replies).operations :=
  List.mem_filterMap.2 ⟨u, hmem, by rw [Undertaking.on?_of_operation hu, if_pos rfl]⟩

theorem work_after {after : Option Operation} {l' : LoopId} (hX : X.Orderly)
    (hops : X.undertakings = first ++ u :: second) (hu : u.operation? = some (l', op))
    (h : op.advance X.scheduler = some (s, after))
    (hnext : next.bind Undertaking.operation? = after.map (l', ·)) (l : LoopId) :
    Quiet l X (X.after first second u s next) ∨
      ∃ results replies, ((X.after first second u s next).view l results replies).Orderly l none := by
  have hmem : u ∈ X.undertakings := by simp [hops]
  obtain ⟨hhas, hwakes, -⟩ := (hX.undertakings u hmem).operation l' op hu
  obtain ⟨results, replies, hview⟩ := hX.exists_view hhas
  have hon := Undertaking.on?_of_operation (l := l) hu
  have htoList := filterMap_toList (l := l) hnext
  have hevents := eventsOn_entries (s := X.scheduler) (l := l) hu
  by_cases hl : l' = l
  · subst hl
    rw [if_pos rfl] at hon htoList hevents
    have hbefore := operations_before (l := l') hops
    rw [hon] at hbefore
    have hstep := hview.step (step_work hbefore h)
    refine .inr ⟨results, replies ++ (op.reply? X.scheduler).toList, ?_⟩
    convert hstep using 1
    unfold Workers.view
    rw [operations_after, htoList]
    exact congrArg (State.mk _ _ _ · _ _ _) ((eventsOn_after s).trans (by rw [hevents]; rfl))
  · rw [if_neg hl] at hon htoList hevents
    exact .inl (quiet_after hops ((within_operation hview (mem_view hmem hu) hwakes h).elsewhere l
      (Ne.symm hl)) hon htoList hevents)

theorem begin_after {l' : LoopId} {c : Call} (hX : X.Orderly)
    (hops : X.undertakings = first ++ u :: second) (hu : u.operation? = none)
    (hnext : next.bind Undertaking.operation? = some (l', c.operation l'))
    (hhas : (X.scheduler.counterIn l').isSome)
    (hallowed : ∀ results replies, c.Allowed l' none (X.view l' results replies))
    (hs : ∀ l, X.scheduler.Elsewhere l none s) (l : LoopId) :
    Quiet l X (X.after first second u s next) ∨
      ∃ results replies, ((X.after first second u s next).view l results replies).Orderly l none := by
  obtain ⟨results, replies, hview⟩ := hX.exists_view hhas
  have hon := Undertaking.on?_of_none (l := l) hu
  have htoList := filterMap_toList (l := l) (a := some (c.operation l')) hnext
  have hevents : eventsOn l (u.entries X.scheduler) = [] := by rw [entries_of_none hu]; rfl
  by_cases hl : l' = l
  · subst hl
    rw [if_pos rfl] at htoList
    have hbefore := operations_before (l := l') hops
    rw [hon] at hbefore
    have hstep := (hview.call hbefore (hallowed results replies)).step (.elsewhere (hs l'))
    refine .inr ⟨results, replies, ?_⟩
    convert hstep using 1
    unfold Workers.view
    rw [operations_after, htoList]
    exact congrArg (State.mk _ _ _ · _ _ _) ((eventsOn_after s).trans (by rw [hevents, List.append_nil]; rfl))
  · rw [if_neg hl] at htoList
    exact .inl (quiet_after hops (hs l) hon htoList hevents)

theorem start_after {k : WorkerId} {slot : LoopSlot} (hX : X.Orderly)
    (hops : X.undertakings = first ++ u :: second) (hu : u.operation? = none)
    (hnext : next.bind Undertaking.operation? = none ∨ ∃ kind delay job, kind.lacksInterval = false ∧
      next.bind Undertaking.operation? = some (X.scheduler.loops.size,
        (Call.enqueue kind delay job).operation X.scheduler.loops.size))
    (hs : s = (X.scheduler.addLoop slot.threadName slot.counter slot.policy).2.setLoop k
      (some X.scheduler.loops.size)) (l : LoopId) :
    Quiet l X (X.after first second u s next) ∨
      ∃ results replies, ((X.after first second u s next).view l results replies).Orderly l none := by
  have hon := Undertaking.on?_of_none (l := l) hu
  have hevents : eventsOn l (u.entries X.scheduler) = [] := by rw [entries_of_none hu]; rfl
  have hloops : s.loops.get? l =
      if l = X.scheduler.loops.size then
        some ⟨slot.threadName, DelayQueue.empty, true, none, slot.counter, slot.policy, 1⟩
      else X.scheduler.loops.get? l := by
    rw [hs]
    exact Table.get?_push _ _ _
  have htasks (t : TaskId) : s.taskIn l t = X.scheduler.taskIn l t := by
    rw [hs]
    rfl
  by_cases hl : l = X.scheduler.loops.size
  · rw [if_pos hl] at hloops
    have hunused : X.Unused l := by
      refine hX.unused l ?_
      rw [hl]
      exact List.getElem?_eq_none (Nat.le_refl _)
    obtain ⟨hfirst, hsecond⟩ := List.append_eq_nil_iff.1 ((operations_before hops).symm.trans
      hunused.operations)
    rw [hon] at hsecond
    have hbegun : State.Orderly ⟨s, [], .serving (.poll l), [], [], [], []⟩ l none := by
      exact Started.orderly ⟨⟨_, hloops, rfl, rfl, nofun⟩, nofun,
        fun t => (htasks t).trans (hunused.tasks t), rfl, rfl, rfl, rfl, rfl, rfl⟩
    have hview (operations : List Operation)
        (h : next.toList.filterMap (Undertaking.on? l) = operations) :
        (X.after first second u s next).view l [] [] =
          ⟨s, operations, .serving (.poll l), [], [], [], []⟩ := by
      unfold Workers.view
      rw [operations_after, hfirst, show second.filterMap (Undertaking.on? l) = [] from hsecond, h]
      rw [List.nil_append, List.append_nil]
      rw [show (X.after first second u s next).services l = .serving (.poll l) from hunused.service]
      refine congrArg (State.mk _ _ _ · _ _ _) ((eventsOn_after s).trans ?_)
      rw [hevents, hunused.history]
      rfl
    refine .inr ⟨[], [], ?_⟩
    rcases hnext with hnone | ⟨kind, delay, job, hkind, hsome⟩
    · rw [hview [] (filterMap_toList_none hnone)]
      exact hbegun
    · have htoList := filterMap_toList (l := l) (a := some _) hsome
      rw [if_pos hl.symm] at htoList
      rw [hview _ htoList, ← hl]
      exact hbegun.call (show [] = [] ++ [] from rfl) hkind
  · rw [if_neg hl] at hloops
    have htoList : next.toList.filterMap (Undertaking.on? l) = [] := by
      rcases hnext with hnone | ⟨kind, delay, job, -, hsome⟩
      · exact filterMap_toList_none hnone
      · exact (filterMap_toList (a := some _) hsome).trans (if_neg (Ne.symm hl))
    exact .inl (quiet_after hops ⟨hloops, htasks, fun _ h => nomatch h⟩ hon htoList hevents)

end

theorem proceed_shows {first second : List Undertaking} (hX : X.Orderly)
    (hops : X.undertakings = first ++ u :: second) (h : u.advance X.scheduler = some (s, next))
    (l : LoopId) : Quiet l X (X.after first second u s next) ∨
      ∃ results replies, ((X.after first second u s next).view l results replies).Orderly l none := by
  have hplaced := hX.undertakings u (by simp [hops])
  have hquiet (hu : u.operation? = none) (hnext : next.bind Undertaking.operation? = none)
      (hs : X.scheduler.Elsewhere l none s) : Quiet l X (X.after first second u s next) :=
    quiet_after hops hs (Undertaking.on?_of_none hu) (filterMap_toList_none hnext)
      (by rw [entries_of_none hu]; rfl)
  cases Undertaking.advance_cases hplaced.located h with
  | work l' op after hu hop hnext => exact work_after hX hops hu hop hnext l
  | lock k locked hu hnext hs =>
    subst hs
    exact .inl (hquiet hu hnext (elsewhere_of_same rfl rfl))
  | keep hu hnext hs =>
    subst hs
    exact .inl (hquiet hu hnext (elsewhere_of_same rfl rfl))
  | submit k slot l' kind delay job _ hu hslot hloop hkind hnext hs =>
    subst hs
    exact begin_after hX hops hu hnext (hX.counterIn_of_slot hslot hloop ▸ rfl)
      (fun _ _ => hkind) (fun _ => elsewhere_of_same rfl rfl) l
  | terminate k slot l' hu hslot hloop hnext hs =>
    subst hs
    exact begin_after hX hops hu hnext (hX.counterIn_of_slot hslot hloop ▸ rfl)
      (fun _ _ => trivial) (s := X.scheduler.setLoop k none)
      (fun _ => elsewhere_of_same rfl rfl) l
  | start k slot _ hu _ hnext hs => exact start_after hX hops hu hnext hs l

theorem serve_shows {l' : LoopId} {result : Outcome (Answer Value)} (hX : X.Orderly)
    (h : X.move? (.serve l' result) = some Y) (l : LoopId) :
    Quiet l X Y ∨ ∃ results replies, (Y.view l results replies).Orderly l none := by
  obtain ⟨hhas, h⟩ := Option.ite_none_right_eq_some.1 h
  obtain ⟨⟨s, service⟩, hadvance, rfl⟩ := Option.map_eq_some_iff.1 h
  obtain ⟨results, replies, hview⟩ := hX.views l' hhas
  have hevents := eventsOn_service (l := l) (s := X.scheduler) l' (X.services l')
  by_cases hl : l = l'
  · subst hl
    rw [if_pos rfl] at hevents
    have hmove : (X.view l results replies).move? l none (.serve result) = some { X.view l results replies with
        scheduler := s
        service := service
        history := eventsOn l X.history ++ (X.services l).events X.scheduler
        results := results ++ (X.services l).results result } := by
      change ((X.services l).advance l result X.scheduler).map _ = _
      rw [hadvance]
      rfl
    refine .inr ⟨results ++ (X.services l).results result, replies, ?_⟩
    convert hview.step (.move _ hmove) using 1
    unfold Workers.view
    dsimp only
    rw [if_pos rfl]
    refine congrArg (State.mk _ _ _ · _ _ _) ((eventsOn_append _ _).trans ?_)
    rw [hevents]
  · rw [if_neg (Ne.symm hl)] at hevents
    refine .inl ⟨(within_service hview hadvance).elsewhere l hl, rfl, if_neg hl, ?_⟩
    rw [eventsOn_append, hevents, List.append_nil]

theorem use_shows {k : WorkerId} {use : SlotUse} (h : X.move? (.use k use) = some Y) (l : LoopId) :
    Quiet l X Y := by
  obtain ⟨-, h⟩ := Option.ite_none_right_eq_some.1 h
  cases h
  exact ⟨elsewhere_of_same rfl rfl, List.filterMap_cons_none rfl, rfl, rfl⟩

theorem pass_shows {delay : Duration} (h : X.move? (.pass delay) = some Y) (l : LoopId) :
    Quiet l X Y := by
  cases h
  exact ⟨elsewhere_of_same rfl rfl, rfl, rfl, rfl⟩

theorem cancel_eq {k : WorkerId} {t : TaskId} (h : X.move? (.cancel k t) = some Y) :
    ∃ c task, X.counter? k = some c ∧ X.scheduler.tasks.get? t = some task ∧
      (∀ u ∈ X.undertakings, u.offer? ≠ some t) ∧
      Y = { X with undertakings := .cancel k task.owner t (.swapPending t c) :: X.undertakings } := by
  obtain ⟨c, hc, h⟩ := Option.bind_eq_some_iff.1 h
  obtain ⟨⟨hknown, hoffer⟩, h⟩ := Option.ite_none_right_eq_some.1 h
  obtain ⟨task, htask⟩ := Option.isSome_iff_exists.1 hknown
  cases h
  refine ⟨c, task, hc, htask, hoffer, ?_⟩
  unfold ownerOf
  rw [htask]

theorem cancel_shows {k : WorkerId} {t : TaskId} (hX : X.Orderly)
    (h : X.move? (.cancel k t) = some Y) (l : LoopId) :
    Quiet l X Y ∨ ∃ results replies, (Y.view l results replies).Orderly l none := by
  obtain ⟨c, task, -, htask, hoffer, rfl⟩ := cancel_eq h
  by_cases hl : task.owner = l
  · subst hl
    obtain ⟨results, replies, hview⟩ := hX.views _ (hX.isSome_owner htask)
    have hallowed : (Call.cancel t c).Allowed task.owner none (X.view task.owner results replies) := by
      refine ⟨?_, fun op hop => ?_, nofun⟩
      · unfold taskIn
        rw [show (X.view task.owner results replies).scheduler = X.scheduler from rfl, htask,
          Option.filter_some_pos (by simp)]
        rfl
      · obtain ⟨u, hmem, hu⟩ := List.mem_filterMap.1 hop
        have hoffer := hoffer u hmem
        unfold Undertaking.offer? at hoffer
        rwa [Undertaking.operation?_of_on? hu] at hoffer
    refine .inr ⟨results, replies, ?_⟩
    have hcalled := hview.call (show _ = [] ++ _ from rfl) hallowed
    convert hcalled using 1
    unfold Workers.view
    rw [List.filterMap_cons_some (b := Operation.cancel t (.swapPending t c))]
    · rfl
    · simp [Undertaking.on?, Undertaking.operation?]
  · exact .inl ⟨elsewhere_of_same rfl rfl, by simp [Undertaking.on?, Undertaking.operation?, hl], rfl,
      rfl⟩

/-- Every step shows on at most one loop, and there threads stay on it. -/
theorem Workers.Step.shows (h : Workers.Step X Y) (hX : X.Orderly) (l : LoopId) :
    Quiet l X Y ∨ ∃ results replies, (Y.view l results replies).Orderly l none := by
  obtain ⟨m, h⟩ := h
  cases m with
  | use k use => exact .inl (use_shows h l)
  | cancel k t => exact cancel_shows hX h l
  | proceed place =>
    obtain ⟨first, second, u, s, next, hops, hadvance, rfl⟩ := proceed_cases h
    exact proceed_shows hX hops hadvance l
  | serve l' result => exact serve_shows hX h l
  | pass delay => exact .inl (pass_shows h l)

/-! ## Workers keep to their loops at every step -/

theorem counterIn_operation {after : Option Operation} (h : op.advance s = some (s', after)) :
    s'.counterIn l = s.counterIn l := by
  rcases books_operation h with ⟨hbooks, -⟩ | ⟨_, _, _, _, -, -, hbooks, -⟩ | ⟨_, _, -, rfl⟩
  · exact hbooks.counterIn l
  · exact hbooks.counterIn l
  · rfl

theorem counterIn_service {l' : LoopId} {service after : Service} {result : Outcome (Answer Value)}
    (h : service.advance l' result s = some (s', after)) : s'.counterIn l = s.counterIn l := by
  rcases books_service h with ⟨hbooks, -⟩ | ⟨_, -, -, -, rfl⟩
  · exact hbooks.counterIn l
  · rfl

theorem counterIn_addLoop (name : String) (c : CounterId) (policy : FailurePolicy) :
    (s.addLoop name c policy).2.counterIn l =
      if l = s.loops.size then some c else s.counterIn l := by
  unfold counterIn addLoop
  dsimp only
  rw [Table.get?_push]
  split <;> rfl

/-! ### Slots -/

theorem counterIn_size : s.counterIn s.loops.size = none := by
  unfold counterIn
  rw [show s.loops.get? s.loops.size = none from List.getElem?_eq_none (Nat.le_refl _)]
  rfl

structure SlotsKept (s s' : Scheduler) : Prop where
  counter : ∀ k, (s'.holding k).map Prod.fst = (s.holding k).map Prod.fst
  counterIn : ∀ l c, s.counterIn l = some c → s'.counterIn l = some c
  slotted : s.Slotted → s'.Slotted

theorem slotsKept_of_same (hslots : ∀ k, s'.holding k = s.holding k)
    (hcounterIn : ∀ l, s'.counterIn l = s.counterIn l) : SlotsKept s s' where
  counter k := congrArg _ (hslots k)
  counterIn l _ hc := (hcounterIn l).trans hc
  slotted h k c l hk := (hcounterIn l).trans (h k c l ((hslots k).symm.trans hk))

theorem holding_of_slots (h : s'.slots = s.slots) (k : WorkerId) : s'.holding k = s.holding k := by
  unfold holding
  rw [h]

theorem holding_setLocked (k j : WorkerId) (locked : Bool) :
    (s.setLocked k locked).holding j = s.holding j := by
  unfold holding setLocked
  rw [Table.get?_modify]
  split
  · rw [Option.map_map]
    rfl
  · rfl

theorem holding_setLoop (k j : WorkerId) (loop : Option LoopId) :
    (s.setLoop k loop).holding j =
      if k = j then (s.holding j).map fun held => (held.1, loop) else s.holding j := by
  unfold holding setLoop
  rw [Table.get?_modify]
  split
  · rw [Option.map_map, Option.map_map]
    rfl
  · rfl

theorem slotsKept_setLoop_none (k : WorkerId) : SlotsKept s (s.setLoop k none) := by
  refine ⟨fun j => ?_, fun _ _ hc => hc, fun h j c l hj => ?_⟩
  · rw [holding_setLoop]
    split
    · rw [Option.map_map]
      rfl
    · rfl
  · rw [holding_setLoop] at hj
    split at hj
    · obtain ⟨held, -, heq⟩ := Option.map_eq_some_iff.1 hj
      cases heq
    · exact h j c l hj

theorem slotsKept_start {k : WorkerId} {slot : LoopSlot} (hslot : s.slots.get? k = some slot) :
    SlotsKept s ((s.addLoop slot.threadName slot.counter slot.policy).2.setLoop k
      (some s.loops.size)) := by
  have hholding (j : WorkerId) : (s.addLoop slot.threadName slot.counter slot.policy).2.holding j =
      s.holding j := rfl
  have hin (l : LoopId) : ((s.addLoop slot.threadName slot.counter slot.policy).2.setLoop k
      (some s.loops.size)).counterIn l = if l = s.loops.size then some slot.counter
        else s.counterIn l := counterIn_addLoop _ _ _
  have hold (l : LoopId) (c : CounterId) (hc : s.counterIn l = some c) : l ≠ s.loops.size := by
    rintro rfl
    rw [counterIn_size] at hc
    cases hc
  refine ⟨fun j => ?_, fun l c hc => ?_, fun h j c l hj => ?_⟩
  · rw [holding_setLoop, hholding]
    split
    · rw [Option.map_map]
      rfl
    · rfl
  · rw [hin, if_neg (hold l c hc), hc]
  · rw [holding_setLoop, hholding] at hj
    rw [hin]
    split at hj
    · next hkj =>
      subst hkj
      unfold holding at hj
      rw [hslot] at hj
      cases hj
      exact if_pos rfl
    · have hc := h j c l hj
      rw [if_neg (hold l c hc), hc]

theorem slotsKept_advance {X : Workers} (hX : X.Orderly) (hmem : u ∈ X.undertakings)
    (h : u.advance X.scheduler = some (s, next)) : SlotsKept X.scheduler s := by
  have hplaced := hX.undertakings u hmem
  cases Undertaking.advance_cases hplaced.located h with
  | work l op after hu hop _ =>
    obtain ⟨hhas, hwakes, -⟩ := hplaced.operation l op hu
    obtain ⟨results, replies, hview⟩ := hX.exists_view hhas
    have hwithin := within_operation hview (mem_view hmem hu) hwakes hop
    exact slotsKept_of_same (holding_of_slots hwithin.slots) fun _ => counterIn_operation hop
  | lock k locked _ _ hs =>
    subst hs
    exact slotsKept_of_same (holding_setLocked k · locked) fun _ => rfl
  | keep _ _ hs =>
    subst hs
    exact slotsKept_of_same (fun _ => rfl) fun _ => rfl
  | submit _ _ _ _ _ _ _ _ _ _ _ _ hs =>
    subst hs
    exact slotsKept_of_same (fun _ => rfl) fun _ => rfl
  | terminate k _ _ _ _ _ _ hs =>
    subst hs
    exact slotsKept_setLoop_none k
  | start k slot _ _ hslot _ hs =>
    subst hs
    exact slotsKept_start hslot

theorem Workers.Step.slotsKept (h : Workers.Step X Y) (hX : X.Orderly) :
    SlotsKept X.scheduler Y.scheduler := by
  have hsame (h : Y.scheduler.slots = X.scheduler.slots)
      (h' : Y.scheduler.loops = X.scheduler.loops) : SlotsKept X.scheduler Y.scheduler :=
    slotsKept_of_same (holding_of_slots h) fun _ => by unfold counterIn; rw [h']
  obtain ⟨m, h⟩ := h
  cases m with
  | use k use =>
    obtain ⟨-, h⟩ := Option.ite_none_right_eq_some.1 h
    cases h
    exact hsame rfl rfl
  | cancel k t =>
    obtain ⟨_, _, -, -, -, rfl⟩ := cancel_eq h
    exact hsame rfl rfl
  | proceed place =>
    obtain ⟨first, second, u, s, next, hops, hadvance, rfl⟩ := proceed_cases h
    exact slotsKept_advance hX (by simp [hops]) hadvance
  | serve l result =>
    obtain ⟨hhas, h⟩ := Option.ite_none_right_eq_some.1 h
    obtain ⟨⟨s, service⟩, hadvance, rfl⟩ := Option.map_eq_some_iff.1 h
    obtain ⟨results, replies, hview⟩ := hX.views l hhas
    exact slotsKept_of_same (holding_of_slots (within_service hview hadvance).slots)
      fun _ => counterIn_service hadvance
  | pass delay =>
    cases h
    exact hsame rfl rfl

/-! ### Threads -/

namespace SlotsKept

theorem counter? (h : SlotsKept X.scheduler Y.scheduler) (k : WorkerId) :
    Y.counter? k = X.counter? k := by
  rw [Workers.counter?_eq, Workers.counter?_eq]
  exact h.counter k

theorem isSome (h : SlotsKept s s') (hl : (s.counterIn l).isSome) : (s'.counterIn l).isSome := by
  obtain ⟨c, hc⟩ := Option.isSome_iff_exists.1 hl
  rw [h.counterIn l c hc]
  rfl

theorem counterIn_eq (h : SlotsKept s s') (hl : (s.counterIn l).isSome) :
    s'.counterIn l = s.counterIn l := by
  obtain ⟨c, hc⟩ := Option.isSome_iff_exists.1 hl
  rw [h.counterIn l c hc, hc]

theorem chargedTo {counter : Option CounterId} (h : SlotsKept s s') (hl : (s.counterIn l).isSome)
    (hop : op.ChargedTo counter l s) : op.ChargedTo counter l s' := by
  cases op with
  | enqueue stage => exact (h.counterIn_eq hl).trans hop
  | cancel => exact hop
  | shutdown => trivial

theorem placed (h : SlotsKept X.scheduler Y.scheduler) (hu : u.Placed X) : u.Placed Y := by
  refine ⟨hu.located, h.counter? _ ▸ hu.worker, fun l op hop => ?_⟩
  obtain ⟨hl, hwakes, hcharged⟩ := hu.operation l op hop
  exact ⟨h.isSome hl, hwakes, h.counter? _ ▸ h.chargedTo hl hcharged⟩

theorem entry {e : Entry} (h : SlotsKept X.scheduler Y.scheduler) (he : e.Placed X) : e.Placed Y := by
  refine ⟨h.isSome he.loop, fun k hk => h.counter? k ▸ he.worker k hk, fun t ht => ?_⟩
  obtain ⟨k, hk, hcounter⟩ := he.accepted t ht
  exact ⟨k, hk, (h.counterIn_eq he.loop).trans (hcounter.trans (h.counter? k).symm)⟩

end SlotsKept

theorem Operation.ChargedTo.advance {counter : Option CounterId} {after : Operation}
    (h : op.advance s = some (s', some after)) (hop : op.ChargedTo counter l s) :
    after.ChargedTo counter l s := by
  cases op with
  | enqueue stage =>
    simp only [Operation.advance] at h
    unfold afterStep at h
    split at h <;> cases h
    exact hop
  | cancel t stage =>
    simp only [Operation.advance] at h
    cases stage <;> simp only [Cancel.advance] at h <;> (repeat' split at h) <;> cases h <;> exact hop
  | shutdown stage =>
    simp only [Operation.advance] at h
    unfold afterStep at h
    split at h <;> cases h
    trivial

theorem placed_next {first second : List Undertaking} (hX : X.Orderly)
    (hops : X.undertakings = first ++ u :: second)
    (h : u.advance X.scheduler = some (s, some v)) : v.Placed (X.after first second u s (some v)) := by
  have hmem : u ∈ X.undertakings := by simp [hops]
  have hplaced := hX.undertakings u hmem
  have hkept : SlotsKept X.scheduler (X.after first second u s (some v)).scheduler :=
    slotsKept_advance hX hmem h
  obtain ⟨hworker, hlocated⟩ := Undertaking.advance_worker hplaced.located h
  refine ⟨hlocated, by rw [hworker, hkept.counter?]; exact hplaced.worker, fun l op hv => ?_⟩
  rw [hworker, hkept.counter?]
  cases Undertaking.advance_cases hplaced.located h with
  | work l' op' after hu hop hnext =>
    obtain ⟨hhas, hwakes, hcharged⟩ := hplaced.operation l' op' hu
    obtain ⟨results, replies, hview⟩ := hX.exists_view hhas
    obtain ⟨after', rfl, heq⟩ := Option.map_eq_some_iff.1 (hnext.symm.trans hv)
    cases heq
    exact ⟨hkept.isSome hhas, Operation.Wakes.next hview (mem_view hmem hu) hop,
      hkept.chargedTo hhas (hcharged.advance hop)⟩
  | lock _ _ _ hnext _ => cases hv.symm.trans hnext
  | keep _ hnext _ => cases hv.symm.trans hnext
  | submit k slot l' kind delay job hk _ hslot hloop _ hnext _ =>
    cases hv.symm.trans hnext
    have hcounter := hX.counterIn_of_slot hslot hloop
    refine ⟨hkept.isSome (by rw [hcounter]; rfl), trivial, ?_⟩
    refine (hkept.counterIn _ _ hcounter).trans ?_
    rw [hk, Workers.counter?, hslot]
    rfl
  | terminate k slot l' _ hslot hloop hnext _ =>
    cases hv.symm.trans hnext
    have hcounter := hX.counterIn_of_slot hslot hloop
    exact ⟨hkept.isSome (by rw [hcounter]; rfl), trivial, trivial⟩
  | start k slot hk _ hslot hnext hs =>
    rcases hnext with hnone | ⟨kind, delay, job, -, hsome⟩
    · cases hv.symm.trans hnone
    · cases hv.symm.trans hsome
      have hcounter : s.counterIn X.scheduler.loops.size = some slot.counter := by
        rw [hs]
        exact (counterIn_addLoop _ _ _).trans (if_pos rfl)
      refine ⟨by rw [show (X.after first second u s (some v)).scheduler = s from rfl, hcounter]; rfl,
        trivial, hcounter.trans ?_⟩
      rw [hk, Workers.counter?, hslot]
      rfl

theorem accepted_mem_events {t : TaskId} (h : .accepted t ∈ op.events s) :
    ∃ stage, op = .enqueue stage := by
  cases op with
  | enqueue stage => exact ⟨stage, rfl⟩
  | cancel u stage =>
    unfold Operation.events at h
    split at h <;> simp_all
  | shutdown stage =>
    unfold Operation.events at h
    split at h <;> (try split at h) <;> simp_all

theorem placed_entries (hu : u.Placed X) {e : Entry} (he : e ∈ u.entries X.scheduler) : e.Placed X := by
  unfold Undertaking.entries at he
  split at he
  · next l op hop =>
    obtain ⟨event, hevent, rfl⟩ := List.mem_map.1 he
    obtain ⟨hhas, -, hcharged⟩ := hu.operation l op hop
    refine ⟨hhas, fun k hk => ?_, fun t ht => ⟨u.worker, rfl, ?_⟩⟩
    · cases hk
      exact hu.worker
    · have ht : event = .accepted t := ht
      subst ht
      obtain ⟨stage, rfl⟩ := accepted_mem_events hevent
      exact hcharged
  · cases he

theorem placed_service {l : LoopId} {service after : Service} {result : Outcome (Answer Value)}
    (hl : (X.scheduler.loops.get? l).isSome)
    (h : service.advance l result X.scheduler = some (s, after)) {e : Entry}
    (he : e ∈ service.entries l X.scheduler) : e.Placed X := by
  obtain ⟨event, hevent, rfl⟩ := List.mem_map.1 he
  refine ⟨by unfold counterIn; simpa using hl, nofun, fun t ht => ?_⟩
  have ht : event = .accepted t := ht
  subst ht
  rcases books_service h with ⟨-, hevents⟩ | ⟨u, -, -, hevents, -⟩
  · exact ((hevents t).1 hevent).elim
  · rw [hevents] at hevent
    simp at hevent

theorem Workers.Orderly.step (hX : X.Orderly) (h : Workers.Step X Y) : Y.Orderly := by
  have hkept := h.slotsKept hX
  have hshows := h.shows hX
  refine ⟨fun j k c hj hk => hX.apart j k c ((hkept.counter? j).symm.trans hj)
    ((hkept.counter? k).symm.trans hk), hkept.slotted hX.slots, ?_, fun l hl => ?_, fun l hl => ?_, ?_⟩
  · have hold : ∀ u ∈ X.undertakings, u.Placed Y := fun u hu => hkept.placed (hX.undertakings u hu)
    obtain ⟨m, h⟩ := h
    cases m with
    | use k use =>
      obtain ⟨hk, h⟩ := Option.ite_none_right_eq_some.1 h
      cases h
      exact List.forall_mem_cons.2 ⟨⟨trivial, hk, nofun⟩, hold⟩
    | cancel k t =>
      obtain ⟨c, task, hc, htask, -, rfl⟩ := cancel_eq h
      refine List.forall_mem_cons.2 ⟨⟨trivial, by rw [Workers.counter?] at hc ⊢; exact hc ▸ rfl, ?_⟩, hold⟩
      intro l op hop
      cases hop
      refine ⟨?_, trivial, hc.symm⟩
      unfold counterIn
      simpa using hX.isSome_owner htask
    | proceed place =>
      obtain ⟨first, second, u, s, next, hops, hadvance, rfl⟩ := proceed_cases h
      intro v hv
      simp only [Workers.after, List.mem_append, Option.mem_toList] at hv
      rcases hv with hv | rfl | hv
      · exact hold v (by simp [hops, hv])
      · exact placed_next hX hops hadvance
      · exact hold v (by simp [hops, hv])
    | serve l result =>
      obtain ⟨hhas, h⟩ := Option.ite_none_right_eq_some.1 h
      obtain ⟨⟨s, service⟩, -, rfl⟩ := Option.map_eq_some_iff.1 h
      exact hold
    | pass delay =>
      cases h
      exact hold
  · rcases hshows l with hquiet | hview
    · rw [hquiet.scheduler.loop] at hl
      obtain ⟨results, replies, hview⟩ := hX.views l hl
      exact ⟨results, replies, hquiet.view hview⟩
    · exact hview
  · rcases hshows l with hquiet | ⟨results, replies, hview⟩
    · rw [hquiet.scheduler.loop] at hl
      exact hquiet.unused (hX.unused l hl)
    · obtain ⟨loop, hloop⟩ := hview.exists_loop
      cases hl.symm.trans hloop
  · have hold : ∀ e ∈ X.history, e.Placed Y := fun e he => hkept.entry (hX.history e he)
    obtain ⟨m, h⟩ := h
    cases m with
    | use k use =>
      obtain ⟨-, h⟩ := Option.ite_none_right_eq_some.1 h
      cases h
      exact hold
    | cancel k t =>
      obtain ⟨_, _, -, -, -, rfl⟩ := cancel_eq h
      exact hold
    | proceed place =>
      obtain ⟨first, second, u, s, next, hops, hadvance, rfl⟩ := proceed_cases h
      intro e he
      rcases List.mem_append.1 he with he | he
      · exact hold e he
      · exact hkept.entry (placed_entries (hX.undertakings u (by simp [hops])) he)
    | serve l result =>
      obtain ⟨hhas, h⟩ := Option.ite_none_right_eq_some.1 h
      obtain ⟨⟨s, service⟩, hadvance, rfl⟩ := Option.map_eq_some_iff.1 h
      intro e he
      rcases List.mem_append.1 he with he | he
      · exact hold e he
      · exact hkept.entry (placed_service hhas hadvance he)
    | pass delay =>
      cases h
      exact hold

theorem Workers.Opened.orderly (h : X.Opened) : X.Orderly where
  apart := h.apart
  slots k c l hk := by
    obtain ⟨slot, hslot, heq⟩ := Option.map_eq_some_iff.1 hk
    rw [(h.slot k slot hslot).1] at heq
    cases heq
  undertakings := by rw [h.undertakings]; exact nofun
  views l hl := by rw [h.loops l] at hl; cases hl
  unused l _ := ⟨fun t => by unfold taskIn; rw [h.tasks]; rfl, by rw [h.undertakings]; rfl, h.services l,
    by rw [h.history]; rfl⟩
  history := by rw [h.history]; exact nofun

theorem Workers.Reaches.orderly (h : X.Reaches) : X.Orderly := by
  obtain ⟨start, hstart, hsteps⟩ := h
  induction hsteps with
  | refl => exact hstart.orderly
  | tail _ hstep ih => exact ih.step hstep

end ScriptWorker.Scheduling
