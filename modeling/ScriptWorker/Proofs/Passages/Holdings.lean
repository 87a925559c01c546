import Mathlib.Data.List.Induction
import ScriptWorker.Collections.Table
import ScriptWorker.Serializer

/-!
# Guards and frames of one thread

A thread may enter a serializer again and again, make units current through any of its guards, and
give guards and frames back in whatever order it likes. The depth is the number of guards that it has
not dropped, and a frame puts back what was current when it was pushed, however many others were
pushed or ended meanwhile. As long as the frames end innermost first, the current unit is that of the
innermost one left; out of order it may be that of a frame that has ended.
-/

namespace ScriptWorker

/-- What one thread has of a serializer, each guard and each frame known by its place for good. -/
structure Holdings (υ : Type) where
  serializer : Serializer υ
  /-- The place of a guard is empty once it was dropped. -/
  guards : Table (Option SerialGuard)
  frames : Table (υ × ScriptFrame υ)

/-- What a thread may do with its guards and frames. -/
inductive Deed (υ : Type) where
  | enter
  | leave (guard : Nat)
  | push (guard : Nat) (unit : υ)
  | finish (frame : Nat)
  | drop (frame : Nat)

namespace Holdings

variable {υ : Type}

def fresh : Holdings υ := ⟨Serializer.create, Table.empty, Table.empty⟩

def isHeld (H : Holdings υ) (guard : Nat) : Bool := (H.guards.get? guard).join.isSome

def held (H : Holdings υ) : Nat := H.guards.rows.countP Option.isSome

def isOpen (H : Holdings υ) (frame : Nat) : Bool :=
  ((H.frames.get? frame).bind fun (_, f) => f.saved).isSome

/-- Let a frame put back what it saved, and say what that was. -/
def restore (H : Holdings υ) (frame : Nat) : Option υ × Holdings υ :=
  match H.frames.get? frame with
  | none => (none, H)
  | some (unit, f) =>
    let (parent, f, serializer) := H.serializer.restore f
    (parent, { H with
      serializer := serializer
      frames := H.frames.modify frame fun _ => (unit, f) })

def finish? (H : Holdings υ) (frame : Nat) : Option (Option υ × Holdings υ) :=
  if H.isOpen frame then
    let (parent, H) := H.restore frame
    some (parent, (H.restore frame).2)
  else none

def drop? (H : Holdings υ) (frame : Nat) : Option (Holdings υ) :=
  if H.isOpen frame then some (H.restore frame).2 else none

/-- What a deed leaves; `none` where it needs a guard or a frame that is gone, or has to wait. -/
def does? (thread : ThreadId) (H : Holdings υ) : Deed υ → Option (Holdings υ)
  | .enter => (H.serializer.enter? thread).map fun (guard, serializer) =>
      { H with serializer := serializer, guards := H.guards.push (some guard) }
  | .leave guard =>
    if H.isHeld guard then
      some { H with
        serializer := H.serializer.leave
        guards := H.guards.modify guard fun _ => none }
    else none
  | .push guard unit =>
    if H.isHeld guard then
      let (f, serializer) := H.serializer.push unit
      some { H with serializer := serializer, frames := H.frames.push (unit, f) }
    else none
  | .finish frame => (H.finish? frame).map Prod.snd
  | .drop frame => H.drop? frame

def run? (thread : ThreadId) (H : Holdings υ) (deeds : List (Deed υ)) : Option (Holdings υ) :=
  deeds.foldlM (does? thread) H

def lastOpen? (H : Holdings υ) : Nat → Option Nat
  | 0 => none
  | n + 1 => if H.isOpen n then some n else H.lastOpen? n

/-- The frame pushed last of those that have not ended. -/
def innermost? (H : Holdings υ) : Option Nat := H.lastOpen? H.frames.size

def unitOf? (H : Holdings υ) (frame : Nat) : Option υ := (H.frames.get? frame).map Prod.fst

def EndsInnermost (H : Holdings υ) : Deed υ → Prop
  | .finish frame => H.innermost? = some frame
  | .drop frame => H.innermost? = some frame
  | _ => True

def EndsInOrder (thread : ThreadId) : Holdings υ → List (Deed υ) → Prop
  | _, [] => True
  | H, deed :: deeds => H.EndsInnermost deed ∧
    match H.does? thread deed with
    | none => True
    | some H' => EndsInOrder thread H' deeds

/-! ## Single deeds -/

def pushed (H : Holdings υ) (unit : υ) : Holdings υ where
  serializer := { H.serializer with current := some unit }
  guards := H.guards
  frames := H.frames.push (unit, ⟨some H.serializer.current⟩)

def closed (H : Holdings υ) (frame : Nat) (unit : υ) (parent : Option υ) : Holdings υ where
  serializer := { H.serializer with current := parent }
  guards := H.guards
  frames := H.frames.modify frame fun _ => (unit, ⟨none⟩)

inductive Step (thread : ThreadId) (H : Holdings υ) : Deed υ → Holdings υ → Prop
  | enter (hadmits : H.serializer.admits thread) : Step thread H .enter
      { H with
        serializer := { H.serializer with owner := some thread, depth := H.serializer.depth + 1 }
        guards := H.guards.push (some ⟨H.serializer.depth + 1⟩) }
  | leave {guard : Nat} (hheld : H.isHeld guard) : Step thread H (.leave guard)
      { H with
        serializer := H.serializer.leave
        guards := H.guards.modify guard fun _ => none }
  | push {guard : Nat} (unit : υ) (hheld : H.isHeld guard) :
      Step thread H (.push guard unit) (H.pushed unit)
  | close {frame : Nat} {unit : υ} {parent : Option υ} {deed : Deed υ}
      (hframe : H.frames.get? frame = some (unit, ⟨some parent⟩))
      (hdeed : deed = .finish frame ∨ deed = .drop frame) :
      Step thread H deed (H.closed frame unit parent)

variable {thread : ThreadId} {H H' : Holdings υ} {deed : Deed υ} {deeds : List (Deed υ)}
  {guard frame n : Nat} {unit : υ} {parent : Option υ}

theorem isOpen_iff : H.isOpen frame ↔
    ∃ unit parent, H.frames.get? frame = some (unit, ⟨some parent⟩) := by
  unfold isOpen
  rcases H.frames.get? frame with - | ⟨unit, ⟨saved⟩⟩
  · simp
  · cases saved <;> simp

theorem get?_pushed (H : Holdings υ) (unit : υ) (frame : Nat) :
    (H.pushed unit).frames.get? frame =
      if frame = H.frames.size then some (unit, ⟨some H.serializer.current⟩)
      else H.frames.get? frame := Table.get?_push ..

theorem get?_closed (H : Holdings υ) (ended frame : Nat) (unit : υ) (parent : Option υ) :
    (H.closed ended unit parent).frames.get? frame =
      if ended = frame then (H.frames.get? frame).map fun _ => (unit, ⟨none⟩)
      else H.frames.get? frame := Table.get?_modify ..

theorem open_of_closed {ended : Nat} {old : υ} {saved : Option υ}
    (h : (H.closed ended old saved).frames.get? frame = some (unit, ⟨some parent⟩)) :
    ended ≠ frame ∧ H.frames.get? frame = some (unit, ⟨some parent⟩) := by
  rw [get?_closed] at h
  by_cases heq : ended = frame
  · rw [if_pos heq] at h
    obtain ⟨row, -, hrow⟩ := Option.map_eq_some_iff.1 h
    cases hrow
  · rw [if_neg heq] at h
    exact ⟨heq, h⟩

theorem close_eq (hframe : H.frames.get? frame = some (unit, ⟨some parent⟩)) :
    H.finish? frame = some (parent, H.closed frame unit parent) ∧
      H.drop? frame = some (H.closed frame unit parent) := by
  have hopen : H.isOpen frame = true := isOpen_iff.2 ⟨unit, parent, hframe⟩
  have hrestore : H.restore frame = (parent, H.closed frame unit parent) := by
    unfold restore
    rw [hframe]
    rfl
  -- dropping a frame that has ended changes nothing
  have hended : ((H.closed frame unit parent).restore frame).2 = H.closed frame unit parent := by
    have hgone : (H.closed frame unit parent).frames.get? frame = some (unit, ⟨none⟩) := by
      rw [get?_closed, if_pos rfl, hframe, Option.map_some]
    have hkeep : (H.closed frame unit parent).frames.modify frame (fun _ => (unit, ⟨none⟩)) =
        (H.closed frame unit parent).frames.modify frame fun row => row := by
      apply Table.modify_congr
      intro row hrow
      rw [hgone] at hrow
      exact Option.some.inj hrow
    unfold restore
    rw [hgone]
    simp only [Serializer.restore]
    rw [hkeep, Table.modify_id]
  unfold finish? drop?
  rw [if_pos hopen, if_pos hopen, hrestore]
  simp only [hended, and_self]

theorem step_of_does? (h : H.does? thread deed = some H') : H.Step thread deed H' := by
  cases deed with
  | enter =>
    obtain ⟨⟨g, s⟩, henter, rfl⟩ := Option.map_eq_some_iff.1 h
    obtain ⟨hadmits, rfl, rfl⟩ := Serializer.enter?_eq henter
    exact .enter hadmits
  | leave guard =>
    simp only [does?] at h
    split at h
    · next hheld =>
      cases h
      exact .leave hheld
    · cases h
  | push guard unit =>
    simp only [does?] at h
    split at h
    · next hheld =>
      cases h
      exact .push unit hheld
    · cases h
  | finish frame =>
    obtain ⟨⟨parent, H''⟩, hfinish, rfl⟩ := Option.map_eq_some_iff.1 h
    by_cases hopen : H.isOpen frame
    · obtain ⟨unit, saved, hframe⟩ := isOpen_iff.1 hopen
      rw [(close_eq hframe).1] at hfinish
      cases hfinish
      exact .close hframe (.inl rfl)
    · rw [finish?, if_neg hopen] at hfinish
      cases hfinish
  | drop frame =>
    by_cases hopen : H.isOpen frame
    · obtain ⟨unit, saved, hframe⟩ := isOpen_iff.1 hopen
      rw [does?, (close_eq hframe).2] at h
      cases h
      exact .close hframe (.inr rfl)
    · rw [does?, drop?, if_neg hopen] at h
      cases h

theorem run?_snoc (thread : ThreadId) (deeds : List (Deed υ)) (deed : Deed υ) (H : Holdings υ) :
    H.run? thread (deeds ++ [deed]) =
      (H.run? thread deeds).bind fun H' => H'.does? thread deed := by
  unfold run?
  rw [List.foldlM_append]
  simp

theorem run_induction {P : List (Deed υ) → Holdings υ → Prop} (hfresh : P [] fresh)
    (hstep : ∀ deeds deed H H', fresh.run? thread deeds = some H → P deeds H →
      H.Step thread deed H' → P (deeds ++ [deed]) H')
    (hrun : fresh.run? thread deeds = some H) : P deeds H := by
  induction deeds using List.reverseRecOn generalizing H with
  | nil =>
    cases hrun
    exact hfresh
  | append_singleton deeds deed ih =>
    rw [run?_snoc] at hrun
    obtain ⟨before, hbefore, hdeed⟩ := Option.bind_eq_some_iff.1 hrun
    exact hstep deeds deed before H hbefore (ih hbefore) (step_of_does? hdeed)

/-! ## The depth -/

/-- The depth is the number of live guards, and the thread is inside while there is one. -/
structure Counted (thread : ThreadId) (H : Holdings υ) : Prop where
  depth : H.serializer.depth = H.held
  owner : H.serializer.owner = if H.held = 0 then none else some thread

theorem held_push (guards : Table (Option SerialGuard)) (g : SerialGuard) :
    (guards.push (some g)).rows.countP Option.isSome = guards.rows.countP Option.isSome + 1 := by
  simp [Table.push, List.countP_append]

theorem held_modify (hheld : H.isHeld guard) :
    (H.guards.modify guard fun _ => none).rows.countP Option.isSome + 1 = H.held := by
  obtain ⟨g, hrow⟩ : ∃ g, H.guards.rows[guard]? = some (some g) := by
    unfold isHeld Table.get? at hheld
    rcases hguard : H.guards.rows[guard]? with - | - | g
    · simp [hguard] at hheld
    · simp [hguard] at hheld
    · exact ⟨g, rfl⟩
  obtain ⟨hlt, hget⟩ := List.getElem?_eq_some_iff.1 hrow
  have hpos : 0 < H.guards.rows.countP Option.isSome :=
    List.countP_pos_iff.2 ⟨some g, hget ▸ List.getElem_mem hlt, rfl⟩
  unfold Table.modify held
  rw [List.modify_eq_set, List.countP_set hlt, hget]
  simp only [Option.isSome_some, Option.isSome_none, if_true, Bool.false_eq_true, if_false]
  omega

theorem Counted.step (hH : H.Counted thread) (h : H.Step thread deed H') : H'.Counted thread := by
  obtain ⟨hdepth, howner⟩ := hH
  cases h with
  | enter hadmits =>
    have hmore := held_push H.guards ⟨H.serializer.depth + 1⟩
    constructor
    · exact (congrArg (· + 1) hdepth).trans hmore.symm
    · apply Eq.symm
      apply if_neg
      change (H.guards.push _).rows.countP Option.isSome ≠ 0
      omega
  | @leave guard hheld =>
    have hless := held_modify hheld
    have howner : H.serializer.owner = some thread := by
      rw [howner, if_neg (by omega)]
    constructor
    · change H.serializer.depth - 1 =
        (H.guards.modify guard fun _ => none).rows.countP Option.isSome
      omega
    · change (if H.serializer.depth ≤ 1 then none else H.serializer.owner) =
        if (H.guards.modify guard fun _ => none).rows.countP Option.isSome = 0 then none
        else some thread
      rw [howner]
      by_cases hlast : H.serializer.depth ≤ 1
      · rw [if_pos hlast, if_pos (by omega)]
      · rw [if_neg hlast, if_neg (by omega)]
  | push unit hheld => exact ⟨hdepth, howner⟩
  | close hframe hdeed => exact ⟨hdepth, howner⟩

theorem counted_of_run (hrun : fresh.run? thread deeds = some H) : H.Counted thread := by
  apply run_induction (P := fun _ H => Counted thread H) _ _ hrun
  · exact ⟨rfl, rfl⟩
  · intro deeds deed H H' _ hcounted hstep
    exact hcounted.step hstep

theorem Counted.enters (hH : H.Counted thread) : ∃ guard serializer,
    H.serializer.enter? thread = some (guard, serializer) ∧ (guard.isOutermost ↔ H.held = 0) := by
  have hadmits : H.serializer.admits thread = true := by
    unfold Serializer.admits
    rw [hH.owner]
    by_cases hnone : H.held = 0 <;> simp [hnone]
  refine ⟨_, _, if_pos hadmits, ?_⟩
  simp [SerialGuard.isOutermost, hH.depth]

/-! ## Frames and the moments when they were pushed -/

/-- Along the deeds a frame was pushed for a unit, and something or nothing was current before. -/
def WasPushed (thread : ThreadId) (deeds : List (Deed υ)) (frame : Nat) (unit : υ)
    (current : Option υ) : Prop :=
  ∃ before guard after H, deeds = before ++ Deed.push guard unit :: after ∧
    fresh.run? thread before = some H ∧ H.frames.size = frame ∧ H.serializer.current = current

theorem WasPushed.snoc (h : WasPushed thread deeds frame unit parent) (deed : Deed υ) :
    WasPushed thread (deeds ++ [deed]) frame unit parent := by
  obtain ⟨before, guard, after, H, rfl, hrest⟩ := h
  exact ⟨before, guard, after ++ [deed], H, by simp, hrest⟩

theorem wasPushed (hrun : fresh.run? thread deeds = some H) :
    ∀ frame unit parent, H.frames.get? frame = some (unit, ⟨some parent⟩) →
      WasPushed thread deeds frame unit parent := by
  apply run_induction (P := fun deeds H => ∀ frame unit parent,
    H.frames.get? frame = some (unit, ⟨some parent⟩) → WasPushed thread deeds frame unit parent)
    _ _ hrun
  · intro frame unit parent hframe
    cases hframe
  · intro deeds deed H H' hrun ih hstep frame unit parent hframe
    cases hstep with
    | enter hadmits => exact (ih frame unit parent hframe).snoc _
    | leave hheld => exact (ih frame unit parent hframe).snoc _
    | @push guard new hheld =>
      rw [get?_pushed] at hframe
      by_cases hlast : frame = H.frames.size
      · rw [if_pos hlast] at hframe
        cases hframe
        exact ⟨deeds, guard, [], H, rfl, hrun, hlast.symm, rfl⟩
      · rw [if_neg hlast] at hframe
        exact (ih frame unit parent hframe).snoc _
    | close hended hdeed => exact (ih frame unit parent (open_of_closed hframe).2).snoc _

/-! ## Frames that end innermost first -/

def unitBelow (H : Holdings υ) (n : Nat) : Option υ := (H.lastOpen? n).bind H.unitOf?

/-- What is current is the innermost unit, and each frame saved the one around it. -/
structure Stacked (H : Holdings υ) : Prop where
  current : H.serializer.current = H.unitBelow H.frames.size
  saved : ∀ frame unit parent, H.frames.get? frame = some (unit, ⟨some parent⟩) →
    parent = H.unitBelow frame

theorem unitBelow_succ (H : Holdings υ) (n : Nat) :
    H.unitBelow (n + 1) = if H.isOpen n then H.unitOf? n else H.unitBelow n := by
  unfold unitBelow
  rw [lastOpen?]
  split <;> rfl

theorem unitBelow_congr (h : ∀ frame < n, H'.frames.get? frame = H.frames.get? frame) :
    H'.unitBelow n = H.unitBelow n := by
  induction n with
  | zero => rfl
  | succ n ih =>
    have hrow := h n (Nat.lt_succ_self n)
    rw [unitBelow_succ, unitBelow_succ, ih fun frame hlt => h frame (by omega)]
    unfold isOpen unitOf?
    rw [hrow]

theorem unitBelow_of_closed {m : Nat} (hmn : m ≤ n)
    (h : ∀ frame, m ≤ frame → frame < n → H.isOpen frame = false) :
    H.unitBelow n = H.unitBelow m := by
  induction hmn with
  | refl => rfl
  | @step n hmn ih =>
    rw [unitBelow_succ, h n hmn (Nat.lt_succ_self n), if_neg Bool.false_ne_true]
    exact ih fun frame hle hlt => h frame hle (by omega)

theorem lastOpen?_eq_some (h : H.lastOpen? n = some frame) :
    frame < n ∧ ∀ other, frame < other → other < n → H.isOpen other = false := by
  induction n with
  | zero => cases h
  | succ n ih =>
    unfold lastOpen? at h
    by_cases hopen : H.isOpen n
    · rw [if_pos hopen] at h
      cases h
      constructor
      · omega
      · intro other hlt hle
        omega
    · rw [if_neg hopen] at h
      obtain ⟨hlt, hclosed⟩ := ih h
      constructor
      · omega
      · intro other hother hle
        by_cases heq : other = n
        · subst heq
          exact Bool.eq_false_iff.2 hopen
        · exact hclosed other hother (by omega)

theorem isOpen_closed (frame other : Nat) (unit : υ) (parent : Option υ) :
    (H.closed frame unit parent).isOpen other =
      if frame = other then false else H.isOpen other := by
  unfold isOpen
  rw [get?_closed]
  split
  · cases H.frames.get? other <;> rfl
  · rfl

theorem Stacked.congr (hH : H.Stacked) (hframes : H'.frames = H.frames)
    (hcurrent : H'.serializer.current = H.serializer.current) : H'.Stacked := by
  have hbelow (n : Nat) : H'.unitBelow n = H.unitBelow n := by
    apply unitBelow_congr
    intro frame _
    rw [hframes]
  constructor
  case current => rw [hcurrent, hframes, hbelow, hH.current]
  case saved =>
    intro frame unit parent hframe
    rw [hframes] at hframe
    rw [hbelow]
    exact hH.saved frame unit parent hframe

theorem Stacked.push (hH : H.Stacked) (unit : υ) : (H.pushed unit).Stacked := by
  have hbelow (n : Nat) (hn : n ≤ H.frames.size) : (H.pushed unit).unitBelow n = H.unitBelow n := by
    apply unitBelow_congr
    intro frame hlt
    rw [get?_pushed, if_neg (by omega)]
  constructor
  case current =>
    have hsize : (H.pushed unit).frames.size = H.frames.size + 1 := Table.size_push ..
    have hopen : (H.pushed unit).isOpen H.frames.size = true :=
      isOpen_iff.2 ⟨unit, _, (get?_pushed ..).trans (if_pos rfl)⟩
    rw [hsize, unitBelow_succ, if_pos hopen, unitOf?, get?_pushed, if_pos rfl]
    rfl
  case saved =>
    intro frame unit' parent hframe
    rw [get?_pushed] at hframe
    by_cases hlast : frame = H.frames.size
    · rw [if_pos hlast] at hframe
      cases hframe
      rw [hbelow frame (by omega), hlast]
      exact hH.current
    · rw [if_neg hlast] at hframe
      have hlt : frame < H.frames.size := (List.getElem?_eq_some_iff.1 hframe).1
      rw [hbelow frame (by omega)]
      exact hH.saved frame unit' parent hframe

theorem Stacked.close (hH : H.Stacked)
    (hframe : H.frames.get? frame = some (unit, ⟨some parent⟩))
    (hinnermost : H.innermost? = some frame) : (H.closed frame unit parent).Stacked := by
  obtain ⟨hlt, hclosed⟩ := lastOpen?_eq_some hinnermost
  have hbelow (n : Nat) (hn : n ≤ frame) :
      (H.closed frame unit parent).unitBelow n = H.unitBelow n := by
    apply unitBelow_congr
    intro other hother
    rw [get?_closed, if_neg (by omega)]
  constructor
  case current =>
    have hsize : (H.closed frame unit parent).frames.size = H.frames.size := Table.size_modify ..
    have hgone : ∀ other, frame ≤ other → other < H.frames.size →
        (H.closed frame unit parent).isOpen other = false := by
      intro other hle hother
      rw [isOpen_closed]
      by_cases heq : frame = other
      · rw [if_pos heq]
      · rw [if_neg heq]
        exact hclosed other (by omega) hother
    rw [hsize, unitBelow_of_closed (Nat.le_of_lt hlt) hgone, hbelow frame (Nat.le_refl frame)]
    exact hH.saved frame unit parent hframe
  case saved =>
    intro other unit' parent' hother
    obtain ⟨hne, hrow⟩ := open_of_closed hother
    have hle : other ≤ frame := by
      by_contra hgt
      have hopen : H.isOpen other = true := isOpen_iff.2 ⟨unit', parent', hrow⟩
      rw [hclosed other (by omega) (List.getElem?_eq_some_iff.1 hrow).1] at hopen
      cases hopen
    rw [hbelow other hle]
    exact hH.saved other unit' parent' hrow

theorem Stacked.step (hH : H.Stacked) (h : H.Step thread deed H') (hdeed : H.EndsInnermost deed) :
    H'.Stacked := by
  cases h with
  | enter hadmits => exact hH.congr rfl rfl
  | leave hheld => exact hH.congr rfl rfl
  | push unit hheld => exact hH.push unit
  | close hframe hends =>
    rcases hends with rfl | rfl
    · exact hH.close hframe hdeed
    · exact hH.close hframe hdeed

theorem endsInOrder_append (thread : ThreadId) (H : Holdings υ) (first second : List (Deed υ)) :
    EndsInOrder thread H (first ++ second) ↔ EndsInOrder thread H first ∧
      ∀ H', H.run? thread first = some H' → EndsInOrder thread H' second := by
  induction first generalizing H with
  | nil => simp [EndsInOrder, run?]
  | cons deed first ih =>
    rw [List.cons_append, EndsInOrder, EndsInOrder, and_assoc, and_congr_right_iff]
    intro _
    unfold run?
    rw [List.foldlM_cons]
    cases H.does? thread deed with
    | none => simp
    | some H' => exact ih H'

theorem stacked_of_run (hrun : fresh.run? thread deeds = some H)
    (horder : fresh.EndsInOrder thread deeds) : H.Stacked := by
  revert horder
  apply run_induction (P := fun deeds H => fresh.EndsInOrder thread deeds → H.Stacked) _ _ hrun
  · intro _
    constructor
    case current => rfl
    case saved =>
      intro frame unit parent hframe
      cases hframe
  · intro deeds deed H H' hrun ih hstep horder
    obtain ⟨hbefore, hlast⟩ := (endsInOrder_append ..).1 horder
    exact (ih hbefore).step hstep (hlast H hrun).1

/-- After any sequence of deeds of a thread the depth is the number of its live guards, so it can
enter and is outermost just when it has none; and each frame that has not ended, in whatever way it
ends, puts back what was current when it was pushed. If all frames ended innermost first, the current
unit is that of the innermost frame. -/
theorem restores_in_any_order (hrun : fresh.run? thread deeds = some H) :
    H.serializer.depth = H.held ∧
    (∃ guard serializer, H.serializer.enter? thread = some (guard, serializer) ∧
      (guard.isOutermost ↔ H.held = 0)) ∧
    (∀ frame, H.isOpen frame → ∃ unit current H', WasPushed thread deeds frame unit current ∧
      H.finish? frame = some (current, H') ∧ H.drop? frame = some H' ∧
      H'.serializer.current = current) ∧
    (fresh.EndsInOrder thread deeds → H.serializer.current = H.innermost?.bind H.unitOf?) := by
  have hcounted := counted_of_run hrun
  refine ⟨hcounted.depth, hcounted.enters, ?_, fun horder => (stacked_of_run hrun horder).current⟩
  intro frame hopen
  obtain ⟨unit, parent, hframe⟩ := isOpen_iff.1 hopen
  obtain ⟨hfinish, hdrop⟩ := close_eq hframe
  exact ⟨unit, parent, _, wasPushed hrun frame unit parent hframe, hfinish, hdrop, rfl⟩

def outerFirst : List (Deed String) :=
  [.enter, .enter, .push 1 "a", .leave 0, .push 1 "b", .push 1 "c", .finish 2]

theorem outerFirst_restores : ∃ H, fresh.run? (.caller 0) outerFirst = some H ∧
    H.held = 1 ∧ H.serializer.depth = H.held ∧
    (∃ guard serializer, H.serializer.enter? (.caller 0) = some (guard, serializer) ∧
      (guard.isOutermost ↔ H.held = 0)) ∧
    H.isOpen 0 ∧
    (∃ unit current H', WasPushed (.caller 0) outerFirst 0 unit current ∧
      H.finish? 0 = some (current, H') ∧ H.drop? 0 = some H' ∧ H'.serializer.current = current) ∧
    fresh.EndsInOrder (.caller 0) outerFirst ∧ H.serializer.current = some "b" := by
  have hrun : fresh.run? (.caller 0) outerFirst = some ⟨⟨some (.caller 0), 1, some "b"⟩,
      ⟨[none, some ⟨2⟩]⟩, ⟨[("a", ⟨some none⟩), ("b", ⟨some (some "a")⟩), ("c", ⟨none⟩)]⟩⟩ := rfl
  have horder : fresh.EndsInOrder (.caller 0) outerFirst :=
    ⟨trivial, trivial, trivial, trivial, trivial, trivial, rfl, trivial⟩
  obtain ⟨hdepth, henter, hends, hcurrent⟩ := restores_in_any_order hrun
  exact ⟨_, hrun, rfl, hdepth, henter, rfl, hends 0 rfl, horder, (hcurrent horder).trans rfl⟩

/-- Two frames that end the outer one first leave a unit that has ended. -/
example : (fresh.run? (.caller 0) [.enter, .push 0 "a", .push 0 "b", .drop 0, .drop 1]).map
    (fun H => (H.serializer.current, H.innermost?)) = some (some "a", none) := rfl

end Holdings

end ScriptWorker
