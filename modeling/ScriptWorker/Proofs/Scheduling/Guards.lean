import ScriptWorker.Proofs.Scheduling.Slots
import ScriptWorker.Proofs.Scheduling.Views

/-!
# Guarded slots

Whatever threads do with workers, a slot is locked by whoever uses it, the loop in it runs, and of the loops
that a worker has started the only one that may run besides is one that was taken out and is being stopped.
-/

namespace ScriptWorker.Scheduling

open Relation Scheduler

variable {s s' : Scheduler} {l : LoopId} {k : WorkerId} {X Y Z : Workers} {u v : Undertaking}
  {started : List (WorkerId × LoopId)}

namespace Workers

structure Fresh (X : Workers) : Prop where
  slot : ∀ k slot, X.scheduler.slots.get? k = some slot → slot.loop = none ∧ slot.locked = false
  loops : X.scheduler.loops.size = 0
  undertakings : X.undertakings = []

def startedBy (X Y : Workers) : Move → List (WorkerId × LoopId)
  | .proceed place =>
    if Y.scheduler.loops.size = X.scheduler.loops.size then []
    else X.undertakings[place]?.toList.map fun u => (u.worker, X.scheduler.loops.size)
  | _ => []

/-- What workers come to, with the loops that each has started. -/
inductive Runs : Workers → List (WorkerId × LoopId) → Prop
  | fresh {X : Workers} : X.Fresh → Runs X []
  | step {X Y : Workers} {started : List (WorkerId × LoopId)} {m : Move} : Runs X started →
    X.move? m = some Y → Runs Y (started ++ X.startedBy Y m)

/-- Slots are locked by who holds them, and hold running loops of their workers. -/
structure Guarded (X : Workers) (started : List (WorkerId × LoopId)) : Prop where
  locks : ∀ k slot, X.scheduler.slots.get? k = some slot →
    X.undertakings.countP (Undertaking.holds k) = if slot.locked then 1 else 0
  placed : ∀ u ∈ X.undertakings, (X.scheduler.slots.get? u.worker).isSome
  fits : ∀ u ∈ X.undertakings, u.Fits X.scheduler started
  slots : ∀ k c l, X.scheduler.holding k = some (c, some l) →
    X.scheduler.isRunning l ∧ X.scheduler.counterIn l = some c ∧ (k, l) ∈ started
  runs : ∀ k l, (k, l) ∈ started → X.scheduler.isRunning l →
    X.scheduler.loopOf k = some l ∨ .stopping k l ∈ X.undertakings
  known : ∀ l, l < X.scheduler.loops.size ↔ ∃ k, (k, l) ∈ started
  single : ∀ j k l, (j, l) ∈ started → (k, l) ∈ started → j = k

theorem Guarded.running (hX : X.Guarded started) (h : X.scheduler.loopOf k = some l) :
    X.scheduler.isRunning l := by
  obtain ⟨⟨c, loop⟩, hheld, hloop⟩ := Option.bind_eq_some_iff.1 h
  exact (hX.slots k c l (hheld.trans (congrArg _ (congrArg _ hloop)))).1

theorem Fresh.guarded (h : X.Fresh) : X.Guarded [] where
  locks k slot hslot := by rw [(h.slot k slot hslot).2, h.undertakings]; rfl
  placed := by rw [h.undertakings]; exact nofun
  fits := by rw [h.undertakings]; exact nofun
  slots k c l hheld := by
    obtain ⟨slot, hslot, heq⟩ := Option.map_eq_some_iff.1 hheld
    rw [(h.slot k slot hslot).1] at heq
    cases heq
  runs _ _ hmem := nomatch hmem
  known l := by simp [h.loops]
  single _ _ _ hmem := nomatch hmem

end Workers

/-! ## One holder for each slot -/

section

variable {first second : List Undertaking} {next : Option Undertaking}

theorem alone_of_holds (hX : X.Guarded started) (hops : X.undertakings = first ++ u :: second)
    (hu : u.holds k) : ∀ w ∈ first ++ second, w.holds k = false := by
  have hmem : u ∈ X.undertakings := by simp [hops]
  obtain ⟨slot, hslot⟩ := Option.isSome_iff_exists.1 (hX.placed u hmem)
  rw [Undertaking.worker_of_holds hu] at hslot
  have hone := hX.locks k slot hslot
  have hle : (if slot.locked then 1 else 0) ≤ 1 := by split <;> omega
  rw [hops, List.countP_append, List.countP_cons, if_pos hu] at hone
  have hzero : (first ++ second).countP (Undertaking.holds k) = 0 := by
    rw [List.countP_append]
    omega
  intro w hw
  exact Bool.eq_false_iff.2 (List.countP_eq_zero.1 hzero w hw)

theorem mem_of_others {w : Undertaking} (hops : X.undertakings = first ++ u :: second)
    (h : w ∈ first ++ second) : w ∈ X.undertakings := by
  rw [hops]
  exact (List.Sublist.append_left (List.sublist_cons_self u second) first).subset h

theorem fits_others {more : List (WorkerId × LoopId)} (hX : X.Guarded started)
    (hops : X.undertakings = first ++ u :: second)
    (hsame : ∀ j, u.holds j = false → s'.loopOf j = X.scheduler.loopOf j) :
    ∀ w ∈ first ++ second, w.Fits s' (started ++ more) := by
  intro w hw
  refine (hX.fits w (mem_of_others hops hw)).mono fun j hj => hsame j ?_
  by_contra hu
  have halone := alone_of_holds hX hops (by simpa using hu) w hw
  rw [halone] at hj
  cases hj

theorem scheduler_after : (X.after first second u s' next).scheduler = s' := rfl

theorem mem_after {w : Undertaking} : w ∈ (X.after first second u s' next).undertakings ↔
    w ∈ next ∨ w ∈ first ++ second := by
  simp only [Workers.after, List.mem_append, Option.mem_toList]
  tauto

theorem countP_after (s' : Scheduler) (next : Option Undertaking)
    (hops : X.undertakings = first ++ u :: second) (k : WorkerId) :
    (X.after first second u s' next).undertakings.countP (Undertaking.holds k) +
        (if u.holds k then 1 else 0) =
      X.undertakings.countP (Undertaking.holds k) +
        if next.any (Undertaking.holds k) then 1 else 0 := by
  have hnext : next.toList.countP (Undertaking.holds k) =
      if next.any (Undertaking.holds k) then 1 else 0 := by
    cases next with
    | none => rfl
    | some v => simp [List.countP_singleton]
  rw [hops, Workers.after]
  simp only [List.countP_append, List.countP_cons, hnext]
  omega

theorem mem_others {w : Undertaking} (hops : X.undertakings = first ++ u :: second) (hne : u ≠ w)
    (h : w ∈ X.undertakings) : w ∈ first ++ second := by
  rw [hops] at h
  rcases List.mem_append.1 h with h | h
  · exact List.mem_append_left _ h
  · rcases List.mem_cons.1 h with rfl | h
    · exact absurd rfl hne
    · exact List.mem_append_right _ h

/-- Who holds which slot, and what is in it, after a step of one thread that changes at most the slot
that the thread holds. -/
theorem guards_after (next : Option Undertaking) (more : List (WorkerId × LoopId))
    (hX : X.Guarded started) (hops : X.undertakings = first ++ u :: second)
    (hworker : ∀ v ∈ next, v.worker = u.worker)
    (hnext : ∀ v ∈ next, v.Fits s' (started ++ more))
    (hother : ∀ j, u.holds j = false → s'.loopOf j = X.scheduler.loopOf j)
    (hslots : ∀ j, (s'.slots.get? j).isSome = (X.scheduler.slots.get? j).isSome)
    (hlocks : ∀ j slot slot', X.scheduler.slots.get? j = some slot → s'.slots.get? j = some slot' →
      (if slot'.locked then 1 else 0) + (if u.holds j then 1 else 0) =
        (if slot.locked then 1 else 0) + if next.any (Undertaking.holds j) then 1 else 0) :
    (∀ j slot', s'.slots.get? j = some slot' →
      (X.after first second u s' next).undertakings.countP (Undertaking.holds j) =
        if slot'.locked then 1 else 0) ∧
    (∀ w ∈ (X.after first second u s' next).undertakings, (s'.slots.get? w.worker).isSome) ∧
    ∀ w ∈ (X.after first second u s' next).undertakings, w.Fits s' (started ++ more) := by
  refine ⟨fun j slot' hslot' => ?_, fun w hw => ?_, fun w hw => ?_⟩
  · obtain ⟨slot, hslot⟩ := Option.isSome_iff_exists.1 ((hslots j).symm.trans (hslot' ▸ rfl))
    have hcount := countP_after s' next hops j
    have hone := hX.locks j slot hslot
    have hlock := hlocks j slot slot' hslot hslot'
    omega
  · rw [hslots]
    rcases mem_after.1 hw with hw | hw
    · rw [hworker w hw]
      exact hX.placed u (by simp [hops])
    · exact hX.placed w (mem_of_others hops hw)
  · rcases mem_after.1 hw with hw | hw
    · exact hnext w hw
    · exact fits_others hX hops hother w hw

theorem guarded_after_same (hX : X.Guarded started) (hops : X.undertakings = first ++ u :: second)
    (hworker : ∀ v ∈ next, v.worker = u.worker) (hnext : ∀ v ∈ next, v.Fits X.scheduler started)
    (hnot : ∀ k l, u ≠ .stopping k l) (hholding : ∀ j, s'.holding j = X.scheduler.holding j)
    (hrunning : ∀ l, s'.isRunning l = X.scheduler.isRunning l)
    (hcounterIn : ∀ l, s'.counterIn l = X.scheduler.counterIn l)
    (hsize : s'.loops.size = X.scheduler.loops.size)
    (hlocks : ∀ j slot slot', X.scheduler.slots.get? j = some slot → s'.slots.get? j = some slot' →
      (if slot'.locked then 1 else 0) + (if u.holds j then 1 else 0) =
        (if slot.locked then 1 else 0) + if next.any (Undertaking.holds j) then 1 else 0) :
    (X.after first second u s' next).Guarded started := by
  have hloopOf (j : WorkerId) : s'.loopOf j = X.scheduler.loopOf j := loopOf_of_holding (hholding j)
  have hisSome (j : WorkerId) : (s'.slots.get? j).isSome = (X.scheduler.slots.get? j).isSome := by
    have hmap := congrArg Option.isSome (hholding j)
    unfold holding at hmap
    rwa [Option.isSome_map, Option.isSome_map] at hmap
  obtain ⟨hcount, hplaced, hfits⟩ := guards_after next [] hX hops hworker
    (fun v hv => (hnext v hv).mono fun j _ => hloopOf j) (fun j _ => hloopOf j) hisSome hlocks
  rw [List.append_nil] at hfits
  refine ⟨hcount, hplaced, hfits, fun k c l hheld => ?_, fun k l hmem hruns => ?_, fun l => ?_,
    hX.single⟩
  · obtain ⟨hruns, hcounter, hmem⟩ := hX.slots k c l ((hholding k).symm.trans hheld)
    exact ⟨(hrunning l).trans hruns, (hcounterIn l).trans hcounter, hmem⟩
  · have hold := hX.runs k l hmem ((hrunning l).symm.trans hruns)
    rw [← hloopOf] at hold
    exact hold.imp_right fun hstops => mem_after.2 (.inr (mem_others hops (hnot k l) hstops))
  · rw [scheduler_after, hsize]
    exact hX.known l

theorem known_append (hX : X.Guarded started) (k : WorkerId) (l : LoopId) :
    l < X.scheduler.loops.size + 1 ↔ ∃ j, (j, l) ∈ started ++ [(k, X.scheduler.loops.size)] := by
  constructor
  · intro hl
    by_cases hlast : l = X.scheduler.loops.size
    · exact ⟨k, by simp [hlast]⟩
    · obtain ⟨j, hj⟩ := (hX.known l).1 (Nat.lt_of_le_of_ne (Nat.le_of_lt_succ hl) hlast)
      exact ⟨j, List.mem_append_left _ hj⟩
  · rintro ⟨j, hj⟩
    rcases List.mem_append.1 hj with hj | hj
    · exact Nat.lt_succ_of_lt ((hX.known l).2 ⟨j, hj⟩)
    · cases List.mem_singleton.1 hj
      exact Nat.lt_succ_self _

theorem ne_size_of_started {j : WorkerId} (hX : X.Guarded started) (h : (j, l) ∈ started) :
    l ≠ X.scheduler.loops.size := Nat.ne_of_lt ((hX.known l).2 ⟨j, h⟩)

theorem single_append {i j : WorkerId} (hX : X.Guarded started)
    (hi : (i, l) ∈ started ++ [(k, X.scheduler.loops.size)])
    (hj : (j, l) ∈ started ++ [(k, X.scheduler.loops.size)]) : i = j := by
  rcases List.mem_append.1 hi with hi | hi <;> rcases List.mem_append.1 hj with hj | hj
  · exact hX.single i j l hi hj
  · cases List.mem_singleton.1 hj
    exact absurd rfl (ne_size_of_started hX hi)
  · cases List.mem_singleton.1 hi
    exact absurd rfl (ne_size_of_started hX hj)
  · cases List.mem_singleton.1 hi
    cases List.mem_singleton.1 hj
    rfl

theorem guarded_after_start {slot : LoopSlot} (hX : X.Guarded started)
    (hops : X.undertakings = first ++ u :: second) (hworker : v.worker = u.worker)
    (hslot : X.scheduler.slots.get? k = some slot) (hnone : slot.loop = none)
    (hu : ∀ j, u.holds j = decide (k = j)) (hv : ∀ j, v.holds j = decide (k = j))
    (hnot : ∀ k l, u ≠ .stopping k l)
    (hnext : ∀ s' started', s'.loopOf k = some X.scheduler.loops.size → v.Fits s' started')
    (hs : s' = (X.scheduler.addLoop slot.threadName slot.counter slot.policy).2.setLoop k
      (some X.scheduler.loops.size)) :
    (X.after first second u s' (some v)).Guarded (started ++ [(k, X.scheduler.loops.size)]) := by
  have hempty := (loopOf_eq hslot).trans hnone
  -- the new loop is in no slot yet
  have hadded : (X.scheduler.addLoop slot.threadName slot.counter slot.policy).2.slots.get? k =
      some slot := hslot
  have hsize : s'.loops.size = X.scheduler.loops.size + 1 := by
    rw [hs]
    exact Table.size_push _ _
  have hholding (j : WorkerId) : s'.holding j =
      if k = j then some (slot.counter, some X.scheduler.loops.size)
      else X.scheduler.holding j := by
    rw [hs]
    exact holding_setLoop_of_slot hadded _ j
  have hloopOf (j : WorkerId) : s'.loopOf j =
      if k = j then some X.scheduler.loops.size else X.scheduler.loopOf j := by
    rw [hs]
    exact loopOf_setLoop hadded _ j
  have hrunning (l : LoopId) :
      s'.isRunning l = (l = X.scheduler.loops.size || X.scheduler.isRunning l) := by
    rw [hs]
    exact isRunning_addLoop _ _ _ _
  have hcounterIn (l : LoopId) : s'.counterIn l =
      if l = X.scheduler.loops.size then some slot.counter else X.scheduler.counterIn l := by
    rw [hs]
    exact counterIn_addLoop _ _ _
  obtain ⟨hlocks, hplaced, hfits⟩ := guards_after (some v) [(k, X.scheduler.loops.size)] hX hops
    (fun w hw => by cases hw; exact hworker)
    (fun w hw => by cases hw; exact hnext _ _ ((hloopOf k).trans (if_pos rfl)))
    (fun j hj => (hloopOf j).trans (if_neg (by simpa [hu] using hj)))
    (fun j => by rw [hs]; exact isSome_get?_setLoop k j _)
    (fun j old new hget hget' => by
      rw [hs] at hget'
      simp [locked_setLoop hget hget', hu, hv])
  refine ⟨hlocks, hplaced, hfits, ?_, ?_, ?_, fun _ _ _ => single_append hX⟩
  · intro j c l hheld
    rw [scheduler_after, hholding] at hheld
    rw [scheduler_after, hrunning, hcounterIn]
    split at hheld
    · next hj =>
      cases hheld
      subst hj
      simp
    · obtain ⟨hruns, hcounter, hin⟩ := hX.slots j c l hheld
      rw [if_neg (ne_size_of_started hX hin), hruns, Bool.or_true]
      exact ⟨rfl, hcounter, List.mem_append_left _ hin⟩
  · intro j l hin hruns
    rw [scheduler_after] at hruns ⊢
    rw [hloopOf]
    rcases List.mem_append.1 hin with hin | hin
    · rw [hrunning, decide_eq_false (ne_size_of_started hX hin), Bool.false_or] at hruns
      rcases hX.runs j l hin hruns with hslot | hstops
      · have hj : k ≠ j := by
          rintro rfl
          rw [hempty] at hslot
          cases hslot
        exact .inl ((if_neg hj).trans hslot)
      · exact .inr (mem_after.2 (.inr (mem_others hops (hnot j l) hstops)))
    · cases List.mem_singleton.1 hin
      exact .inl (if_pos rfl)
  · intro l
    rw [scheduler_after, hsize]
    exact known_append hX k l

theorem guarded_after_takeOut {slot : LoopSlot} (hX : X.Guarded started)
    (hops : X.undertakings = first ++ u :: second) (hworker : u.worker = k)
    (hslot : X.scheduler.slots.get? k = some slot) (hloop : slot.loop = some l)
    (hu : ∀ j, u.holds j = decide (k = j)) (hnot : ∀ k l, u ≠ .stopping k l) :
    (X.after first second u (X.scheduler.setLoop k none) (some (.stopping k l))).Guarded started := by
  have hloopOf := loopOf_setLoop hslot none
  obtain ⟨-, -, hstarted⟩ := hX.slots k slot.counter l ((holding_eq hslot).trans (by rw [hloop]))
  obtain ⟨hlocks, hplaced, hfits⟩ := guards_after (some (.stopping k l)) [] hX hops
    (fun w hw => by cases hw; exact hworker.symm)
    (fun w hw => by
      cases hw
      exact ⟨rfl, (hloopOf k).trans (if_pos rfl), List.mem_append_left _ hstarted⟩)
    (fun j hj => (hloopOf j).trans (if_neg (by simpa [hu] using hj)))
    (fun j => isSome_get?_setLoop k j none)
    (fun j old new hget hget' => by simp [locked_setLoop hget hget', hu])
  rw [List.append_nil] at hfits
  refine ⟨hlocks, hplaced, hfits, ?_, ?_, hX.known, hX.single⟩
  · intro j c l' hheld
    rw [scheduler_after, holding_setLoop_of_slot hslot] at hheld
    split at hheld
    · cases hheld
    · exact hX.slots j c l' hheld
  · intro j l' hin hruns
    rw [scheduler_after, hloopOf]
    rcases hX.runs j l' hin hruns with hheld | hstops
    · by_cases hj : k = j
      · subst hj
        rw [loopOf_eq hslot, hloop] at hheld
        cases hheld
        exact .inr (mem_after.2 (.inl rfl))
      · exact .inl ((if_neg hj).trans hheld)
    · exact .inr (mem_after.2 (.inr (mem_others hops (hnot j l') hstops)))

theorem guarded_after_stop (hX : X.Guarded started)
    (hops : X.undertakings = first ++ .stopping k l :: second) (hworker : v.worker = k)
    (hv : ∀ j, v.holds j = decide (k = j)) (hnext : ∀ s' started', v.Fits s' started') :
    (X.after first second (.stopping k l) (X.scheduler.stop l).2 (some v)).Guarded started := by
  have hmem : .stopping k l ∈ X.undertakings := by simp [hops]
  obtain ⟨hslots, hsize, hcounterIn⟩ := stop_keeps (s := X.scheduler) l
  obtain ⟨-, hempty, hstarted⟩ := hX.fits _ hmem
  have hholding := holding_of_slots hslots
  have hloopOf (j : WorkerId) : (X.scheduler.stop l).2.loopOf j = X.scheduler.loopOf j :=
    loopOf_of_holding (hholding j)
  obtain ⟨hlocks, hplaced, hfits⟩ := guards_after (some v) [] hX hops
    (fun w hw => by cases hw; exact hworker)
    (fun w hw => by cases hw; exact hnext _ _) (fun j _ => hloopOf j) (fun j => by rw [hslots])
    (fun j old new hget hget' => by
      rw [hslots, hget] at hget'
      cases hget'
      simp [hv])
  rw [List.append_nil] at hfits
  refine ⟨hlocks, hplaced, hfits, ?_, ?_, fun l' => ?_, hX.single⟩
  · intro j c l' hheld
    have hslot : X.scheduler.holding j = some (c, some l') := (hholding j).symm.trans hheld
    obtain ⟨hruns, hcounter, hin⟩ := hX.slots j c l' hslot
    -- the loop is in no slot
    have hl : l ≠ l' := by
      rintro rfl
      obtain rfl := hX.single j k l hin hstarted
      rw [loopOf, hslot] at hempty
      cases hempty
    exact ⟨(isRunning_stop l l').trans ((if_neg hl).trans hruns), (hcounterIn l').trans hcounter, hin⟩
  · intro j l' hin hruns
    rw [scheduler_after, isRunning_stop] at hruns
    split at hruns
    · cases hruns
    · next hl =>
      rcases hX.runs j l' hin hruns with hheld | hstops
      · exact .inl ((hloopOf j).trans hheld)
      · refine .inr (mem_after.2 (.inr (mem_others hops (fun heq => ?_) hstops)))
        cases heq
        exact absurd rfl hl
  · rw [scheduler_after, hsize]
    exact hX.known l'

theorem Workers.Guarded.after (hX : X.Guarded started) (hops : X.undertakings = first ++ u :: second)
    (hworker : ∀ v ∈ next, v.worker = u.worker) (h : u.Effect X.scheduler started s' next) :
    (X.after first second u s' next).Guarded (started ++
      if s'.loops.size = X.scheduler.loops.size then [] else [(u.worker, X.scheduler.loops.size)]) := by
  have hmem : u ∈ X.undertakings := by simp [hops]
  cases h with
  | keep hsame hholds hnot hnext =>
    rw [if_pos hsame.size, List.append_nil]
    refine guarded_after_same hX hops hworker hnext hnot (holding_of_slots hsame.slots) hsame.running
      hsame.counterIn hsame.size fun j slot slot' hslot hslot' => ?_
    rw [hsame.slots, hslot] at hslot'
    cases hslot'
    rw [hholds]
  | @lock k slot v hslot hunlocked hu hv hnot hnext =>
    rw [if_pos (show (X.scheduler.setLocked k true).loops.size =
      X.scheduler.loops.size from rfl), List.append_nil]
    refine guarded_after_same hX hops hworker (fun w hw => by cases hw; exact hnext) hnot
      (holding_setLocked k · true) (fun _ => rfl) (fun _ => rfl) rfl fun j old new hold hnew => ?_
    rw [get?_setLocked] at hnew
    by_cases hj : k = j
    · subst hj
      rw [if_pos rfl, hslot] at hnew
      rw [hslot] at hold
      cases hold
      cases hnew
      simp [hu, hv, hunlocked]
    · rw [if_neg hj, hold] at hnew
      cases hnew
      simp [hu, hv, hj]
  | @unlock k hu hnot =>
    rw [if_pos (show (X.scheduler.setLocked k false).loops.size =
      X.scheduler.loops.size from rfl), List.append_nil]
    refine guarded_after_same hX hops hworker nofun hnot (holding_setLocked k · false)
      (fun _ => rfl) (fun _ => rfl) rfl fun j old new hold hnew => ?_
    rw [get?_setLocked] at hnew
    by_cases hj : k = j
    · subst hj
      -- who holds a slot has locked it
      have hlocked : old.locked := by
        have hone := hX.locks k old hold
        have hpos : 0 < X.undertakings.countP (Undertaking.holds k) :=
          List.countP_pos_iff.2 ⟨u, hmem, by simp [hu]⟩
        by_contra hfree
        rw [hone, if_neg hfree] at hpos
        omega
      rw [if_pos rfl, hold] at hnew
      cases hnew
      simp [hu, hlocked]
    · rw [if_neg hj, hold] at hnew
      cases hnew
      simp [hu, hj]
  | @start k slot v hslot hnone hu hv hnot hnext =>
    have hsize : ((X.scheduler.addLoop slot.threadName slot.counter slot.policy).2.setLoop k
        (some X.scheduler.loops.size)).loops.size = X.scheduler.loops.size + 1 := Table.size_push _ _
    rw [if_neg (by omega), Undertaking.worker_of_holds (k := k) (u := u) (by simp [hu])]
    exact guarded_after_start hX hops (hworker v rfl) hslot hnone hu hv hnot hnext rfl
  | @takeOut k slot l hslot hloop hu hnot =>
    rw [if_pos (show (X.scheduler.setLoop k none).loops.size = X.scheduler.loops.size from rfl),
      List.append_nil]
    exact guarded_after_takeOut hX hops (Undertaking.worker_of_holds (by simp [hu])) hslot hloop hu hnot
  | @stop k l v hu hv hnext =>
    subst hu
    rw [if_pos (stop_keeps l).2.1, List.append_nil]
    exact guarded_after_stop hX hops (hworker v rfl) hv hnext

end

theorem Workers.Guarded.same (hX : X.Guarded started) (hundertakings : Y.undertakings = X.undertakings)
    (hsame : X.scheduler.SameLoops Y.scheduler) : Y.Guarded started where
  locks k slot hslot := by
    rw [hsame.slots] at hslot
    rw [hundertakings]
    exact hX.locks k slot hslot
  placed := by
    rw [hundertakings, hsame.slots]
    exact hX.placed
  fits u hu := by
    rw [hundertakings] at hu
    rw [← List.append_nil started]
    exact (hX.fits u hu).mono fun j _ => hsame.loopOf j
  slots k c l hheld := by
    obtain ⟨hruns, hcounter, hmem⟩ :=
      hX.slots k c l ((holding_of_slots hsame.slots k).symm.trans hheld)
    exact ⟨(hsame.running l).trans hruns, (hsame.counterIn l).trans hcounter, hmem⟩
  runs k l hmem hruns := by
    rw [hsame.loopOf, hundertakings]
    exact hX.runs k l hmem ((hsame.running l).symm.trans hruns)
  known l := by
    rw [hsame.size]
    exact hX.known l
  single := hX.single

theorem Workers.Guarded.begin (hX : X.Guarded started) (hu : ∀ k, u.holds k = false)
    (hworker : (X.scheduler.slots.get? u.worker).isSome) (hfits : u.Fits X.scheduler started) :
    { X with undertakings := u :: X.undertakings }.Guarded started where
  locks k slot hslot := by
    rw [List.countP_cons_of_neg (by simp [hu])]
    exact hX.locks k slot hslot
  placed := List.forall_mem_cons.2 ⟨hworker, hX.placed⟩
  fits := List.forall_mem_cons.2 ⟨hfits, hX.fits⟩
  slots := hX.slots
  runs k l hmem hruns := (hX.runs k l hmem hruns).imp_right (List.mem_cons_of_mem _)
  known := hX.known
  single := hX.single

/-- Every move keeps slots guarded. -/
theorem Workers.Guarded.step {m : Workers.Move} (hX : X.Guarded started) (h : X.move? m = some Y) :
    Y.Guarded (started ++ X.startedBy Y m) := by
  have hsome {k : WorkerId} {c : CounterId} (hc : X.counter? k = some c) :
      (X.scheduler.slots.get? k).isSome := by
    obtain ⟨slot, hslot, -⟩ := Option.map_eq_some_iff.1 hc
    exact hslot ▸ rfl
  cases m with
  | use k use =>
    obtain ⟨hk, h⟩ := Option.ite_none_right_eq_some.1 h
    cases h
    obtain ⟨c, hc⟩ := Option.isSome_iff_exists.1 hk
    change Workers.Guarded _ (started ++ [])
    rw [List.append_nil]
    exact hX.begin (fun _ => rfl) (hsome hc) trivial
  | cancel k t =>
    obtain ⟨c, task, hc, -, -, rfl⟩ := cancel_eq h
    change Workers.Guarded _ (started ++ [])
    rw [List.append_nil]
    exact hX.begin (fun _ => rfl) (hsome hc) trivial
  | proceed place =>
    obtain ⟨u, hu, hadvance⟩ := Option.bind_eq_some_iff.1 h
    obtain ⟨⟨s, next⟩, hstep, rfl⟩ := Option.map_eq_some_iff.1 hadvance
    obtain ⟨hlt, hget⟩ := List.getElem?_eq_some_iff.1 hu
    have hops : X.undertakings =
        X.undertakings.take place ++ u :: X.undertakings.drop (place + 1) := by
      rw [← hget, ← List.drop_eq_getElem_cons hlt, List.take_append_drop]
    have hmem := List.mem_of_getElem? hu
    have heffect := Undertaking.effect_of_advance (hX.placed u hmem) (hX.fits u hmem)
      (fun _ _ => hX.running) hstep
    have hafter := hX.after hops
      (fun v hv => by cases hv; exact Undertaking.worker_of_advance hstep) heffect
    simp only [Workers.startedBy, hu, Option.toList_some, List.map_cons, List.map_nil]
    exact hafter
  | serve l result =>
    obtain ⟨-, h⟩ := Option.ite_none_right_eq_some.1 h
    obtain ⟨⟨s, service⟩, hadvance, rfl⟩ := Option.map_eq_some_iff.1 h
    change Workers.Guarded _ (started ++ [])
    rw [List.append_nil]
    exact hX.same rfl (sameLoops_service hadvance)
  | pass delay =>
    cases h
    change Workers.Guarded _ (started ++ [])
    rw [List.append_nil]
    exact hX.same rfl (sameLoops_of_same rfl rfl)

theorem Workers.Runs.guarded (h : X.Runs started) : X.Guarded started := by
  induction h with
  | fresh hX => exact hX.guarded
  | step _ hmove ih => exact ih.step hmove

end ScriptWorker.Scheduling
