import ScriptWorker.Proofs.Compiling.Dated
import ScriptWorker.Proofs.Loading.Importing
import ScriptWorker.Proofs.Repositories.Spellings

/-!
# Searches for a body among edits

Any number of workers may be searching for the body of one script while any number of edits of its store are
under way, each at a step of its own. One of them takes its next step at a time, in any order, and the
compiler may answer whatever it answers. The body that is kept is never out of date without the time of the
store showing it.
-/

namespace ScriptWorker

variable {L : Language}

/-- The time of a store moves on, whatever the clock says. -/
theorem Store.modified_lt_bump {s : Store} (h : s.modified.toNat < UInt64.size - 1) (now : UInt64) :
    s.modified < (s.bump now).modified := by
  have hnext : s.modified < s.modified + 1 := by
    rw [UInt64.lt_iff_toNat_lt, UInt64.toNat_add, UInt64.toNat_one]
    unfold UInt64.size at h
    omega
  change s.modified < if now ≤ s.modified + 1 then s.modified + 1 else now
  split
  · exact hnext
  · next hlater => exact UInt64.lt_trans hnext (UInt64.not_le.1 hlater)

namespace Storage

variable {s : Storage} {store : StoreId}

theorem storeModified_modify {f : Store → Store} (hf : ∀ found, (f found).modified = found.modified) :
    ({ s with stores := s.stores.modify store f } : Storage).storeModified store =
      s.storeModified store := by
  unfold storeModified
  rw [Table.get?_modify, if_pos rfl]
  cases s.stores.get? store with
  | none => rfl
  | some found => exact hf found

theorem isSome_stores_modify {f : Store → Store} (h : (s.stores.get? store).isSome) :
    ((s.stores.modify store f).get? store).isSome := by
  rw [Table.get?_modify, if_pos rfl, Option.isSome_map]
  exact h

theorem storeModified_lt_bump (h : (s.stores.get? store).isSome)
    (htime : (s.storeModified store).toNat < UInt64.size - 1) (now : UInt64) :
    s.storeModified store < (s.bump store now).storeModified store := by
  obtain ⟨found, hfound⟩ := Option.isSome_iff_exists.1 h
  have hbefore : s.storeModified store = found.modified := by
    unfold storeModified
    rw [hfound]
  have hafter : (s.bump store now).storeModified store = (found.bump now).modified := by
    unfold storeModified bump
    rw [Table.get?_modify, if_pos rfl, hfound]
    rfl
  rw [hbefore] at htime ⊢
  rw [hafter]
  exact Store.modified_lt_bump htime now

theorem entry_dropEntry {directory path : String} (h : (s.dropEntry store directory path).1 = false)
    (entry : String) :
    entry? (s.dropEntry store directory path).2 store entry = s.entry? store entry := by
  rw [(s.puts_dropEntry store directory path).entries]
  split
  · next hsame =>
    have hmissing : (s.entry? store (Path.normalize (directory ++ path))).isSome = false := h
    rw [hsame.2]
    exact (Option.isSome_eq_false_iff.1 hmissing |> Option.isNone_iff_eq_none.1).symm
  · rfl

end Storage

namespace Compiling

structure Edit (L : Language) where
  begun : Bool
  rest : Run L Bool

/-- An edit has written, and the time is still to be moved on. -/
def Edit.Midway (e : Edit L) : Prop := e.begun = true ∧ ∀ outcome, e.rest ≠ .ended outcome

structure State (L : Language) where
  world : World L
  searches : List (Run L (Answer (L.Body × UInt64)))
  edits : List (Edit L)

def State.Midway (x : State L) : Prop := ∃ e ∈ x.edits, e.Midway

namespace Subject

variable (S : Subject L)

structure Elsewhere (w v : World L) : Prop where
  store : v.storage.stores.get? S.store = w.storage.stores.get? S.store
  compiled : v.compiled S.unit = w.compiled S.unit

inductive Step : State L → State L → Prop
  | search (x : State L) (k : WorkerId) :
    Step x { x with searches := x.searches ++ [Script.body k S.unit S.resource] }
  /-- An edit begins, through any directory of the store. -/
  | edit (x : State L) (storeName directory : String) (change : StoreEdit) :
    Step x { x with edits := x.edits ++
      [⟨false, (Repository.memory S.store storeName directory).edit change⟩] }
  | searches {x : State L} {i : Nat} {p q : Run L (Answer (L.Body × UInt64))} {w : World L} :
    x.searches[i]? = some p → p.Takes S.returns x.world q w →
    Step x { x with world := w, searches := x.searches.set i q }
  | edits {x : State L} {i : Nat} {e : Edit L} {q : Run L Bool} {w : World L} :
    x.edits[i]? = some e → e.rest.Takes S.returns x.world q w →
    Step x { x with world := w, edits := x.edits.set i ⟨true, q⟩ }
  | elsewhere {x : State L} {w : World L} : S.Elsewhere x.world w → Step x { x with world := w }

/-- The time of the store is not the last one there is. -/
def InTime (w : World L) : Prop := (w.storage.storeModified S.store).toNat < UInt64.size - 1

/-- The states that are reached from a world, as long as the time of the store can still move on. -/
inductive Reaches (w : World L) : State L → Prop
  | start : Reaches w ⟨w, [], []⟩
  | step {x y : State L} : Reaches w x → S.InTime x.world → S.Step x y → Reaches w y

def closing (answer : Bool) : Run L Bool :=
  Program.modify (fun w => { w with storage := w.storage.bump S.store w.wallClock }) >>= fun _ =>
    pure answer

/-- An edit as it may be found: before its first step, before its last one, or through. -/
inductive Going : Edit L → Prop
  | fresh (storeName directory : String) (change : StoreEdit) :
    Going ⟨false, (Repository.memory S.store storeName directory).edit change⟩
  | closing (answer : Bool) : Going ⟨true, S.closing answer⟩
  | ended (begun : Bool) (outcome : Outcome Bool) : Going ⟨begun, .ended outcome⟩

def seen (x : State L) : View := S.view x.world x.Midway

/-- The body that is kept is of the content of its time, what is left of the searches is careful, and the
edits are on their way. -/
structure Sound (x : State L) : Prop where
  stored : (x.world.storage.stores.get? S.store).isSome
  kept : ∀ c, x.world.compiled S.unit = some c → (S.seen x).Dated c.2 (S.Compiled c.1)
  searches : ∀ p ∈ x.searches, S.Careful p (S.seen x)
  edits : ∀ e ∈ x.edits, S.Going e

/-- What a step of an edit does: it writes, and is midway then; or it finds nothing to remove; or it moves
the time on. -/
structure Edits (e e' : Edit L) (w v : World L) : Prop where
  going : S.Going e'
  stored : (v.storage.stores.get? S.store).isSome
  compiled : v.compiled S.unit = w.compiled S.unit
  moved : e'.Midway ∧ v.storage.storeModified S.store = w.storage.storeModified S.store ∨
    ¬e.Midway ∧ v.storage.storeModified S.store = w.storage.storeModified S.store ∧
      v.storage.entry? S.store S.entry = w.storage.entry? S.store S.entry ∨
    w.storage.storeModified S.store < v.storage.storeModified S.store

variable {S}

theorem edits_bump {e : Edit L} {w : World L} (hstored : (w.storage.stores.get? S.store).isSome)
    (htime : S.InTime w) (answer : Bool) :
    S.Edits e ⟨true, .ended (.done answer)⟩ w
      { w with storage := w.storage.bump S.store w.wallClock } where
  going := .ended true _
  stored := Storage.isSome_stores_modify hstored
  compiled := rfl
  moved := .inr (.inr (Storage.storeModified_lt_bump hstored htime _))

theorem edit_remove (storeName directory path : String) :
    ((Repository.memory S.store storeName directory).edit (.remove path) : Run L Bool) =
      (Program.transact fun w => ((w.storage.dropEntry S.store directory path).1,
        { w with storage := (w.storage.dropEntry S.store directory path).2 })) >>= fun removed =>
      if removed then S.closing true else pure false := by
  refine congrArg (Program.transact _ >>= ·) (funext fun removed => ?_)
  cases removed <;> rfl

theorem midway_closing (answer : Bool) : (⟨true, S.closing answer⟩ : Edit L).Midway :=
  ⟨rfl, fun _ h => nomatch h⟩

theorem edits_of_takes {e : Edit L} {q : Run L Bool} {w v : World L} (h : S.Going e)
    (hstored : (w.storage.stores.get? S.store).isSome) (htime : S.InTime w)
    (htakes : e.rest.Takes S.returns w q v) : S.Edits e ⟨true, q⟩ w v := by
  cases h with
  | fresh storeName directory change =>
    cases change with
    | insert path content =>
      obtain ⟨hv, rfl⟩ := Program.takes_step.1 htakes
      cases hv
      exact {
        going := .closing true
        stored := Storage.isSome_stores_modify hstored
        compiled := rfl
        moved := .inl ⟨midway_closing true, Storage.storeModified_modify fun _ => rfl⟩ }
    | remove path =>
      rw [edit_remove] at htakes
      obtain ⟨hv, hq⟩ := Program.takes_step.1 htakes
      cases hv
      have htime' : (w.storage.dropEntry S.store directory path).2.storeModified S.store =
          w.storage.storeModified S.store := Storage.storeModified_modify fun _ => rfl
      have hrest : q = if (w.storage.dropEntry S.store directory path).1 then S.closing true
          else .ended (.done false) := hq
      cases hremoved : (w.storage.dropEntry S.store directory path).1 with
      | true =>
        rw [hremoved, if_pos rfl] at hrest
        subst hrest
        exact {
          going := .closing true
          stored := Storage.isSome_stores_modify hstored
          compiled := rfl
          moved := .inl ⟨midway_closing true, htime'⟩ }
      | false =>
        rw [hremoved, if_neg Bool.false_ne_true] at hrest
        subst hrest
        exact {
          going := .ended true _
          stored := Storage.isSome_stores_modify hstored
          compiled := rfl
          moved := .inr (.inl ⟨fun hmidway => (nomatch hmidway.1), htime',
            Storage.entry_dropEntry hremoved S.entry⟩) }
    | touch =>
      obtain ⟨hv, rfl⟩ := Program.takes_step.1 htakes
      cases hv
      exact edits_bump hstored htime true
  | closing answer =>
    obtain ⟨hv, rfl⟩ := Program.takes_step.1 htakes
    cases hv
    exact edits_bump hstored htime answer
  | ended begun outcome => cases htakes

theorem view_congr {w v : World L} {midway : Prop}
    (h : v.storage.stores.get? S.store = w.storage.stores.get? S.store) :
    S.view v midway = S.view w midway := by
  unfold view Storage.storeModified Storage.entry?
  rw [h]

theorem Careful.takes {α : Type} {p q : Run L α} {w v : World L} {midway : Prop}
    (h : S.Careful p (S.view w midway)) (htakes : p.Takes S.returns w q v) :
    S.Respects w v (S.view w midway) ∧ S.Careful q (S.view w midway) := by
  cases htakes with
  | step hmove => exact h w midway (.refl _) v hmove
  | call hreturns => exact ⟨⟨rfl, fun c hc => .inl hc⟩, h _ hreturns⟩

section Sound

variable {w : World L} {x y : State L}

theorem Sound.moves (h : S.Sound x) (hseen : (S.seen x).Follows (S.seen y))
    (hstored : (y.world.storage.stores.get? S.store).isSome)
    (hkept : ∀ c, y.world.compiled S.unit = some c →
      x.world.compiled S.unit = some c ∨ (S.seen y).Dated c.2 (S.Compiled c.1))
    (hsearches : ∀ p ∈ y.searches, p ∈ x.searches ∨ S.Careful p (S.seen y))
    (hedits : ∀ e ∈ y.edits, e ∈ x.edits ∨ S.Going e) : S.Sound y where
  stored := hstored
  kept c hc := by
    obtain hbefore | hnew := hkept c hc
    · exact (h.kept c hbefore).follows hseen
    · exact hnew
  searches p hp := by
    obtain hbefore | hnew := hsearches p hp
    · exact (h.searches p hbefore).follows hseen
    · exact hnew
  edits e he := (hedits e he).elim (h.edits e) id

theorem midway_of_set {edits : List (Edit L)} {i : Nat} {e e' : Edit L} (he : edits[i]? = some e)
    (hidle : ¬e.Midway) (h : ∃ d ∈ edits, d.Midway) : ∃ d ∈ edits.set i e', d.Midway := by
  obtain ⟨d, hd, hmidway⟩ := h
  obtain ⟨j, hj⟩ := List.mem_iff_getElem?.1 hd
  refine ⟨d, List.mem_iff_getElem?.2 ⟨j, ?_⟩, hmidway⟩
  have hne : i ≠ j := by
    rintro rfl
    rw [he] at hj
    cases hj
    exact hidle hmidway
  rw [List.getElem?_set_ne hne, hj]

theorem follows_of_edits {i : Nat} {e e' : Edit L} (hx : x.edits[i]? = some e)
    (h : S.Edits e e' x.world w) : (S.seen x).Follows
      (S.seen { x with world := w, edits := x.edits.set i e' }) := by
  have hi : i < x.edits.length := (List.getElem?_eq_some_iff.1 hx).1
  obtain ⟨hmidway, htime⟩ | ⟨hidle, htime, hcontent⟩ | hlater := h.moved
  · -- It is midway itself now, so nothing is settled.
    refine ⟨UInt64.le_of_eq htime.symm, fun _ hsettled => (hsettled ?_).elim⟩
    exact ⟨e', List.mem_iff_getElem?.2 ⟨i, List.getElem?_set_self hi⟩, hmidway⟩
  · exact ⟨UInt64.le_of_eq htime.symm, fun _ hsettled =>
      ⟨fun hbefore => hsettled (midway_of_set hx hidle hbefore), hcontent⟩⟩
  · exact ⟨UInt64.le_of_lt hlater, fun heq _ => (UInt64.ne_of_lt hlater heq.symm).elim⟩

theorem Sound.step (h : S.Sound x) (htime : S.InTime x.world) (hstep : S.Step x y) : S.Sound y := by
  cases hstep with
  | search k =>
    refine h.moves (.refl _) h.stored (fun c hc => .inl hc) (fun p hp => ?_) fun e he => .inl he
    obtain hp | hp := List.mem_append.1 hp
    · exact .inl hp
    · rw [List.mem_singleton.1 hp]
      exact .inr (careful_body k _)
  | edit storeName directory change =>
    refine h.moves ⟨UInt64.le_refl _, fun _ hsettled => ⟨fun hbefore => hsettled ?_, rfl⟩⟩ h.stored
      (fun c hc => .inl hc) (fun p hp => .inl hp) fun e he => ?_
    · obtain ⟨e, he, hmidway⟩ := hbefore
      exact ⟨e, List.mem_append_left _ he, hmidway⟩
    · obtain he | he := List.mem_append.1 he
      · exact .inl he
      · rw [List.mem_singleton.1 he]
        exact .inr (.fresh storeName directory change)
  | @searches i p q v hp htakes =>
    obtain ⟨hrespects, hcareful⟩ := (h.searches p (List.mem_of_getElem? hp)).takes htakes
    have hseen : S.seen { x with world := v, searches := x.searches.set i q } = S.seen x :=
      view_congr hrespects.store
    refine h.moves (hseen ▸ .refl _) (hrespects.store ▸ h.stored) (hseen ▸ hrespects.kept)
      (fun p' hp' => ?_) fun e he => .inl he
    obtain hp' | rfl := List.mem_or_eq_of_mem_set hp'
    · exact .inl hp'
    · exact .inr (hseen ▸ hcareful)
  | @edits i e q v he htakes =>
    have hedits := edits_of_takes (h.edits e (List.mem_of_getElem? he)) h.stored htime htakes
    refine h.moves (follows_of_edits he hedits) hedits.stored
      (fun c hc => .inl (hedits.compiled ▸ hc)) (fun p hp => .inl hp) fun e' he' => ?_
    obtain he' | rfl := List.mem_or_eq_of_mem_set he'
    · exact .inl he'
    · exact .inr hedits.going
  | @elsewhere v hv =>
    have hseen : S.seen { x with world := v } = S.seen x := view_congr hv.store
    exact h.moves (hseen ▸ .refl _) (hv.store ▸ h.stored) (fun c hc => .inl (hv.compiled ▸ hc))
      (fun p hp => .inl hp) fun e he => .inl he

theorem Reaches.sound (hstored : (w.storage.stores.get? S.store).isSome)
    (hnone : w.compiled S.unit = none) (h : S.Reaches w x) : S.Sound x := by
  induction h with
  | start =>
    exact {
      stored := hstored
      kept := fun c hc => nomatch hnone.symm.trans hc
      searches := fun _ hp => nomatch hp
      edits := fun _ he => nomatch he }
  | step _ htime hstep ih => exact ih.step htime hstep

/-- Whatever searches and edits overlap: when the body that is kept has the time of the store, and no
insertion or removal is between its write and its new time, the body is a compilation of the content that
the entry has. -/
theorem Reaches.compiled_current (hstored : (w.storage.stores.get? S.store).isSome)
    (hnone : w.compiled S.unit = none) (h : S.Reaches w x) {body : L.Body} {time : UInt64}
    (hkept : x.world.compiled S.unit = some (body, time))
    (htime : x.world.storage.storeModified S.store = time) (hsettled : ¬x.Midway) :
    S.Compiled body (x.world.storage.entry? S.store S.entry) :=
  ((h.sound hstored hnone).kept _ hkept).holds htime hsettled

end Sound

end Subject

end Compiling

namespace Importing

open Compiling

def subject : Subject (language Empty) where
  unit := 0
  store := 0
  storeName := "app"
  directory := ""
  name := "a.yx"
  place := 0
  returns
    | .compile _ source, outcome => outcome = .done (.ok (if source = "a" then [] else [.fails]))
    | _, _ => False

def unsearched : World (language Empty) :=
  ((world Empty true [("a.yx", ⟨#[97]⟩)]).addScript subject.resource "a.yx").2

/-- One worker reads the source before an edit and keeps what it compiled afterwards; another one comes
while the edit is midway, and keeps what it compiled of the new source. -/
theorem overlapped_edit_current : ∃ x, subject.Reaches unsearched x ∧
    x.world.compiled 0 = some ([.fails], 1) ∧
    subject.Compiled [.fails] (x.world.storage.entry? 0 subject.entry) := by
  have intime (time : UInt64) (htime : time.toNat < UInt64.size - 1) (x : State (language Empty))
      (hx : x.world.storage.storeModified 0 = time) : subject.InTime x.world :=
    lt_of_eq_of_lt (congrArg UInt64.toNat hx) htime
  have hzero := intime 0 (by decide)
  have hone := intime 1 (by decide)
  have hreaches : ∃ x, subject.Reaches unsearched x ∧ x.world.compiled 0 = some ([.fails], 1) ∧
      x.world.storage.storeModified 0 = 1 ∧ x.edits = [⟨true, .ended (.done true)⟩] :=
    ⟨_, (Subject.Reaches.start : subject.Reaches unsearched _)
      |>.step (hzero _ rfl) (.search _ 0)
      |>.step (hzero _ rfl) (.searches (i := 0) rfl (.step rfl))
      |>.step (hzero _ rfl) (.searches (i := 0) rfl (.step rfl))
      |>.step (hzero _ rfl) (.searches (i := 0) rfl (.step rfl))
      |>.step (hzero _ rfl) (.searches (i := 0) rfl (.step rfl))
      |>.step (hzero _ rfl) (.edit _ "app" "" (.insert "./a.yx" ⟨#[98]⟩))
      |>.step (hzero _ rfl) (.edits (i := 0) rfl (.step rfl))
      |>.step (hzero _ rfl) (.search _ 1)
      |>.step (hzero _ rfl) (.edits (i := 0) rfl (.step rfl))
      |>.step (hone _ rfl) (.searches (i := 1) rfl (.step rfl))
      |>.step (hone _ rfl) (.searches (i := 0) rfl (.call rfl))
      |>.step (hone _ rfl) (.searches (i := 0) rfl (.step rfl))
      |>.step (hone _ rfl) (.searches (i := 1) rfl (.step rfl))
      |>.step (hone _ rfl) (.searches (i := 1) rfl (.step rfl))
      |>.step (hone _ rfl) (.searches (i := 1) rfl (.step rfl))
      |>.step (hone _ rfl) (.searches (i := 1) rfl (.call rfl))
      |>.step (hone _ rfl) (.searches (i := 1) rfl (.step rfl)), rfl, rfl, rfl⟩
  obtain ⟨x, hx, hkept, htime, hedits⟩ := hreaches
  have hsettled : ¬x.Midway := by
    rintro ⟨e, he, -, hrest⟩
    rw [hedits, List.mem_singleton] at he
    exact hrest _ (congrArg Edit.rest he)
  exact ⟨x, hx, hkept, hx.compiled_current rfl rfl hkept htime hsettled⟩

end Importing

end ScriptWorker
