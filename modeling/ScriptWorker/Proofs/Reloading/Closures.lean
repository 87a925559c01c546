import ScriptWorker.Proofs.Reloading.Bindings

/-!
# Checksums of what units lead to

A checksum stands for the keys that a unit leads to, each with its version. While a load looks at a
module, the moment at which the load began, or came back to, still shows what its unit leads to. What is
imported is recorded before its load leaves.
-/

namespace ScriptWorker

open Relation World

variable {L : Language}

theorem Dictionary.mem_values_of_get? {κ ν : Type} [DecidableEq κ] {d : Dictionary κ ν} {key : κ} {v : ν}
    (h : d.get? key = some v) : v ∈ d.values := by
  have hfind : ∀ pairs : List (κ × ν), Dictionary.find key pairs = some v →
      v ∈ pairs.map Prod.snd := by
    intro pairs
    induction pairs with
    | nil => exact fun h => nomatch h
    | cons p rest ih =>
      intro h
      unfold Dictionary.find at h
      split at h
      · cases h
        exact List.mem_cons_self
      · exact List.mem_cons_of_mem _ (ih h)
  exact hfind d.entries h

theorem Dictionary.get?_of_contains {κ ν : Type} [DecidableEq κ] {d : Dictionary κ ν} {key : κ}
    (h : d.contains key = true) : ∃ v, d.get? key = some v :=
  exists_find_of_mem key d.entries (of_decide_eq_true h)

namespace World

/-- Dependencies are known by the keys of their units. -/
def Keyed (w : World L) : Prop :=
  ∀ p unit key v, w.units.get? p = some unit → unit.dependencies.get? key = some v →
    ∃ unit', w.units.get? v = some unit' ∧ unit'.key = key

/-- A unit leads to a key with a version. -/
def Covers (w : World L) (u : UnitId) (key : String) (version : UInt64) : Prop :=
  ∃ p, w.LeadsTo u p ∧ w.unitKey p = key ∧ w.unitVersion p = version

/-- Units have come, and those there were lead where they did. -/
structure Abreast (k : WorkerId) (w w' : World L) : Prop where
  grows : w.Grows k w'
  dependencies : ∀ u, w'.dependencies u = w.dependencies u

/-- A world before another one, in which other sources may have been written meanwhile. -/
structure Precedes (k : WorkerId) (w w' : World L) : Prop where
  scripted : w.Scripted k
  linked : w.Linked k
  holds : ∀ u key, w.Holds k u key → w'.Holds k u key

section Keyed

variable {w w' : World L} {k : WorkerId} {u p : UnitId} {key : String}

theorem Keyed.modify {f : ExecutableUnit L → ExecutableUnit L} (h : w.Keyed)
    (hkey : ∀ unit, (f unit).key = unit.key)
    (hdependencies : ∀ unit, (f unit).dependencies = unit.dependencies) :
    Keyed { w with units := w.units.modify u f } := by
  intro p unit key v hp hv
  have hrow : ∃ unit₀, w.units.get? p = some unit₀ ∧ unit₀.dependencies = unit.dependencies := by
    change (w.units.modify u f).get? p = some unit at hp
    rw [Table.get?_modify] at hp
    split at hp
    · obtain ⟨unit₀, hp₀, rfl⟩ := Option.map_eq_some_iff.1 hp
      exact ⟨unit₀, hp₀, (hdependencies unit₀).symm⟩
    · exact ⟨unit, hp, rfl⟩
  obtain ⟨unit₀, hp₀, heq⟩ := hrow
  obtain ⟨unit', hv', rfl⟩ := h p unit₀ key v hp₀ (heq ▸ hv)
  change ∃ unit'', (w.units.modify u f).get? v = some unit'' ∧ _
  rw [Table.get?_modify]
  split
  · exact ⟨f unit', by rw [hv']; rfl, hkey unit'⟩
  · exact ⟨unit', hv', rfl⟩

theorem Keyed.recordDependency (h : w.Keyed) (hu : u < w.units.size) :
    (w.recordDependency p u).Keyed := by
  obtain ⟨found, hfound⟩ : ∃ found, w.units.get? u = some found := ⟨_, List.getElem?_eq_getElem hu⟩
  have hkey : w.unitKey u = found.key := by
    unfold unitKey
    rw [hfound]
  -- no unit has another key than before
  have hkeys {v : UnitId} {unit' : ExecutableUnit L} (hv : w.units.get? v = some unit') :
      ∃ unit'', (w.recordDependency p u).units.get? v = some unit'' ∧ unit''.key = unit'.key := by
    unfold World.recordDependency
    dsimp only
    rw [Table.get?_modify]
    split
    · rw [hv]
      refine ⟨_, rfl, ?_⟩
      dsimp only
      split <;> rfl
    · exact ⟨unit', hv, rfl⟩
  intro q unit key v hq hv
  have hold (unit₀ : ExecutableUnit L) (hq₀ : w.units.get? q = some unit₀)
      (hv₀ : unit₀.dependencies.get? key = some v) :
      ∃ unit', (w.recordDependency p u).units.get? v = some unit' ∧ unit'.key = key := by
    obtain ⟨unit', hv', rfl⟩ := h q unit₀ key v hq₀ hv₀
    exact hkeys hv'
  unfold World.recordDependency at hq
  dsimp only at hq
  rw [Table.get?_modify] at hq
  split at hq
  · obtain ⟨unit₀, hq₀, rfl⟩ := Option.map_eq_some_iff.1 hq
    split at hv
    · exact hold unit₀ hq₀ hv
    · dsimp only at hv
      rw [Dictionary.get?_insert] at hv
      split at hv
      · next hkey' =>
        cases hv
        obtain ⟨unit', hv', hsame⟩ := hkeys hfound
        exact ⟨unit', hv', hsame.trans (hkey.symm.trans hkey')⟩
      · exact hold unit₀ hq₀ hv
  · exact hold unit hq hv

theorem Keyed.recorded {parent : Option UnitId} (h : w.Keyed) (hu : u < w.units.size) :
    (w.recorded parent u).Keyed := by
  cases parent with
  | none => exact h
  | some parent => exact h.recordDependency hu

theorem Apart.keyed (h : w.Apart w') (hw : w.Keyed) : w'.Keyed := by
  intro p unit key v hp hv
  rcases h.newcomers p unit hp with hold | ⟨hnone, -⟩
  · obtain ⟨unit', hv', hkey⟩ := hw p unit key v hold hv
    exact ⟨unit', h.units v unit' hv', hkey⟩
  · rw [hnone] at hv
    cases hv

theorem mem_dependencies_recordDependency {key' : String} (hkeyed : w.Keyed) (hscripted : w.Scripted k)
    (hlinked : w.Linked k) (hp : w.Holds k p key') (hu : w.Holds k u key) :
    u ∈ (w.recordDependency p u).dependencies p ∨ u = p := by
  obtain ⟨_, unit, _, hunit, -, hkey', -⟩ := hscripted.script hp
  have hkey := hu.unitKey hscripted
  have hdependencies : w.dependencies p = unit.dependencies.values := by
    unfold dependencies
    rw [hunit]
  unfold recordDependency dependencies
  dsimp only
  rw [Table.get?_modify, if_pos rfl, hunit, hkey]
  dsimp only [Option.map_some]
  split
  · next hknown =>
    rcases hknown with hown | hcontains
    · right
      obtain rfl : key = key' := hown.trans hkey'
      exact hu.unique hp
    · left
      obtain ⟨v, hv⟩ := Dictionary.get?_of_contains hcontains
      have hmem := Dictionary.mem_values_of_get? hv
      obtain ⟨found, hfound, hsame⟩ := hkeyed p unit key v hunit hv
      obtain ⟨key₁, hheld⟩ := hlinked p key' v hp (hdependencies ▸ hmem)
      have hkey₁ := hheld.unitKey hscripted
      unfold unitKey at hkey₁
      rw [hfound] at hkey₁
      obtain rfl : key₁ = key := hkey₁.symm.trans hsame
      exact hu.unique hheld ▸ hmem
  · next hnew =>
    left
    rw [not_or, Bool.not_eq_true] at hnew
    rw [Dictionary.values_insert hnew.2]
    exact List.mem_append_right _ (List.mem_singleton_self _)

end Keyed

section Abreast

variable {k : WorkerId} {w w' w'' : World L} {u : UnitId} {key key' : String} {version : UInt64}

theorem Abreast.refl (k : WorkerId) (w : World L) : w.Abreast k w := ⟨.refl k w, fun _ => rfl⟩

theorem Abreast.trans (h : w.Abreast k w') (h' : w'.Abreast k w'') : w.Abreast k w'' :=
  ⟨h.grows.trans h'.grows, fun u => (h'.dependencies u).trans (h.dependencies u)⟩

theorem Apart.abreast (h : w.Apart w') (hscripted : w.Scripted k) : w.Abreast k w' :=
  ⟨(h.keeps hscripted).grows, h.dependencies⟩

theorem Abreast.leadsTo_iff (h : w.Abreast k w') {p : UnitId} : w'.LeadsTo u p ↔ w.LeadsTo u p := by
  unfold LeadsTo
  simp only [h.dependencies]

theorem Abreast.unitChecksum_eq (h : w.Abreast k w') (hscripted : w.Scripted k) (hlinked : w.Linked k)
    (hscripted' : w'.Scripted k) (hlinked' : w'.Linked k) (hu : w.Holds k u key) :
    w'.unitChecksum u = w.unitChecksum u :=
  h.grows.unitChecksum_eq hscripted hlinked hscripted' hlinked' hu fun _ => h.leadsTo_iff.1

theorem abreast_modifyWorker {f : Worker → Worker} (hf : ∀ x, (f x).resolver = x.resolver) :
    w.Abreast k (w.modifyWorker k f) :=
  ⟨⟨fun _ _ hu => hu.modifyWorker hf, fun _ _ _ => rfl, fun _ => List.Subset.refl _⟩, fun _ => rfl⟩

theorem abreast_setCompiled (w : World L) (k : WorkerId) (u : UnitId) (body : L.Body) (time : UInt64) :
    w.Abreast k (w.setCompiled u body time) := by
  have hsame (p : UnitId) := eq_of_graph (graph_setCompiled w u body time p)
  exact ⟨⟨fun _ _ hu => (w.beside_setCompiled u body time).holds hu, fun p _ _ => (hsame p).2.1,
    fun p => (hsame p).2.2 ▸ List.Subset.refl _⟩, fun p => (hsame p).2.2⟩

theorem Covers.exists_holds (h : w.Covers u key version) (hscripted : w.Scripted k)
    (hlinked : w.Linked k) (hu : w.Holds k u key') :
    ∃ p, w.LeadsTo u p ∧ w.Holds k p key ∧ w.unitVersion p = version := by
  obtain ⟨p, hlead, hkey, hversion⟩ := h
  obtain ⟨key'', hp⟩ := hlead.holds hlinked hu
  obtain rfl : key'' = key := (hp.unitKey hscripted).symm.trans hkey
  exact ⟨p, hlead, hp, hversion⟩

theorem Holds.covers {p : UnitId} (hp : w.Holds k p key) (hscripted : w.Scripted k)
    (hlead : w.LeadsTo u p) : w.Covers u key (w.unitVersion p) :=
  ⟨p, hlead, hp.unitKey hscripted, rfl⟩

theorem Precedes.refl (hscripted : w.Scripted k) (hlinked : w.Linked k) : w.Precedes k w :=
  ⟨hscripted, hlinked, fun _ _ h => h⟩

theorem Precedes.trans (h : w.Precedes k w') (hholds : ∀ u key, w'.Holds k u key → w''.Holds k u key) :
    w.Precedes k w'' :=
  ⟨h.scripted, h.linked, fun u key hu => hholds u key (h.holds u key hu)⟩

end Abreast

end World

/-- In the worlds that moments show, the checksums of a worker's unit differ whenever the keys that it leads
to, or their versions, do. -/
def Distinguished (k : WorkerId) (t : List (Moment L)) : Prop :=
  ∀ m ∈ t, ∀ m' ∈ t, ∀ u key, m.world.Holds k u key → m'.world.Holds k u key →
    m.world.unitChecksum u = m'.world.unitChecksum u →
      ∀ key' version, m.world.Covers u key' version ↔ m'.world.Covers u key' version

/-! ## Checking that checksums tell units apart -/

namespace World

def leads (w : World L) : Nat → UnitId → List UnitId
  | 0, u => [u]
  | n + 1, u => u :: (w.dependencies u).flatMap (w.leads n)

def entries (w : World L) (n : Nat) (u : UnitId) : List (String × UInt64) :=
  (w.leads n u).map fun p => (w.unitKey p, w.unitVersion p)

def endsIn (w : World L) (n : Nat) (u : UnitId) : Bool :=
  (w.leads n u).all fun p => (w.dependencies p).all fun v => v ∈ w.leads n u

variable {w : World L} {n : Nat} {u p : UnitId} {key : String} {version : UInt64}

theorem leadsTo_of_mem_leads (h : p ∈ w.leads n u) : w.LeadsTo u p := by
  induction n generalizing u with
  | zero =>
    rw [List.mem_singleton.1 h]
    exact .refl
  | succ n ih =>
    rcases List.mem_cons.1 h with rfl | h
    · exact .refl
    · obtain ⟨v, hv, hp⟩ := List.mem_flatMap.1 h
      exact .head hv (ih hp)

theorem LeadsTo.mem_leads (h : w.LeadsTo u p) (hends : w.endsIn n u) : p ∈ w.leads n u := by
  induction h with
  | refl => cases n <;> exact List.mem_cons_self
  | tail _ hv ih =>
    exact of_decide_eq_true (List.all_eq_true.1 (List.all_eq_true.1 hends _ ih) _ hv)

theorem covers_iff (hends : w.endsIn n u) : w.Covers u key version ↔ (key, version) ∈ w.entries n u := by
  unfold Covers entries
  rw [List.mem_map]
  constructor
  · rintro ⟨p, hlead, rfl, rfl⟩
    exact ⟨p, hlead.mem_leads hends, rfl⟩
  · rintro ⟨p, hp, heq⟩
    cases heq
    exact ⟨p, leadsTo_of_mem_leads hp, rfl, rfl⟩

end World

def tellsApart (k : WorkerId) (n : Nat) (t : List (Moment L)) : Bool :=
  let rows := (t.flatMap fun m => ((m.world.scripts k).elim [] (·.values)).map fun u =>
    (u, m.world.unitChecksum u, m.world.entries n u, m.world.endsIn n u)).eraseDups
  rows.all fun a => a.2.2.2 && rows.all fun b => a.1 != b.1 || a.2.1 != b.2.1 || a.2.2.1.all (· ∈ b.2.2.1)

theorem distinguished_of_check {k : WorkerId} {n : Nat} {t : List (Moment L)} (h : tellsApart k n t = true) :
    Distinguished k t := by
  have hrow {m : Moment L} (hm : m ∈ t) {u key} (hu : m.world.Holds k u key) :
      (u, m.world.unitChecksum u, m.world.entries n u, m.world.endsIn n u) ∈ (t.flatMap fun m =>
        ((m.world.scripts k).elim [] (·.values)).map fun u =>
          (u, m.world.unitChecksum u, m.world.entries n u, m.world.endsIn n u)).eraseDups := by
    obtain ⟨scripts, hs, hu⟩ := hu
    refine List.mem_eraseDups.2 (List.mem_flatMap.2 ⟨m, hm, List.mem_map.2 ⟨u, ?_, rfl⟩⟩)
    rw [hs]
    exact Dictionary.mem_values_of_get? hu
  have hends {m : Moment L} (hm : m ∈ t) {u key} (hu : m.world.Holds k u key) : m.world.endsIn n u :=
    (Bool.and_eq_true_iff.1 (List.all_eq_true.1 h _ (hrow hm hu))).1
  have hone {m m' : Moment L} (hm : m ∈ t) (hm' : m' ∈ t) {u key} (hu : m.world.Holds k u key)
      (hu' : m'.world.Holds k u key) (hsame : m.world.unitChecksum u = m'.world.unitChecksum u) {key' version}
      (hcovers : m.world.Covers u key' version) : m'.world.Covers u key' version := by
    have hpair := List.all_eq_true.1 (Bool.and_eq_true_iff.1 (List.all_eq_true.1 h _ (hrow hm hu))).2 _
      (hrow hm' hu')
    simp only [hsame, bne_self_eq_false, Bool.false_or] at hpair
    rw [covers_iff (hends hm hu)] at hcovers
    rw [covers_iff (hends hm' hu')]
    exact of_decide_eq_true (List.all_eq_true.1 hpair _ hcovers)
  exact fun m hm m' hm' u key hu hu' hsame key' version =>
    ⟨hone hm hm' hu hu' hsame, hone hm' hm hu' hu hsame.symm⟩

namespace Config

/-- While a load has not settled, the last moment shows what its unit leads to. -/
def Noted (c : Config L) (k : WorkerId) : Prop :=
  ∀ u key stage s, c.stack = .load k u key stage :: s → (∀ o, stage ≠ .settled o) →
    ∃ m ∈ c.history, m.world.Holds k u key ∧ m.world.Abreast k c.world

def Imported (c : Config L) (k : WorkerId) : Prop :=
  ∀ u key answer s p, c.stack = .load k u key (.settled (.done answer)) :: s →
    Activity.script k s = some p → u ∈ c.world.dependencies p ∨ u = p

section Steps

variable {thread : ThreadId} {aside : World L → World L → Prop} {c c' : Config L} {k : WorkerId}
  {u : UnitId} {key : String} {s : List (Activity L)}

theorem Step.keyed (haside : ∀ w w', aside w w' → w.Apart w') (h : Step (· = k) thread aside c c')
    (hseat : c.Seated (· = k) thread) (hkeyed : c.world.Keyed) : c'.world.Keyed := by
  cases h with
  | aside h => exact (haside _ _ h).keyed hkeyed
  | @hit s H w j u key env hpeek => exact Keyed.recorded hkeyed (hseat.lt List.mem_cons_self)
  | @reuse s H w j u key env hget hfresh => exact Keyed.recorded hkeyed (hseat.lt List.mem_cons_self)
  | @compiled s H w j u key resource time text code hscript hreturned =>
    refine Keyed.modify hkeyed (fun unit => ?_) fun unit => ?_ <;> split <;> rfl
  | @refuse s H w j u key stage cause hstage => exact Keyed.recorded hkeyed (hseat.lt List.mem_cons_self)
  | @finish s H w j u key env code time value hreturned =>
    exact Keyed.recorded hkeyed (hseat.lt List.mem_cons_self)
  | @fail s H w j u key env code time cause hreturned =>
    exact Keyed.recorded hkeyed (hseat.lt List.mem_cons_self)
  | _ => exact hkeyed

theorem Step.noted (haside : ∀ w w', aside w w' → w.Apart w') (h : Step (· = k) thread aside c c')
    (hseat : c.Seated (· = k) thread) (hnoted : c.Noted k) : c'.Noted k := by
  intro u key stage s hstack hstage
  have hscripted := (hseat.workers k rfl).scripted
  have hbeside : ∀ w w', aside w w' → w.Beside w' := fun _ _ h => (haside _ _ h).beside
  have hheld : c'.world.Holds k u key :=
    ((h.seated hbeside hseat).known (.load k u key stage) (hstack ▸ List.mem_cons_self)).2
  rcases h.history with hsame | ⟨m, hadded⟩
  · -- nothing shows, so the load was there and its worker looks on
    have hmoved {stage' : Stage L} (hbefore : c.stack = .load k u key stage' :: s)
        (hstage' : ∀ o, stage' ≠ .settled o) (habreast : c.world.Abreast k c'.world) :
        ∃ m ∈ c'.history, m.world.Holds k u key ∧ m.world.Abreast k c'.world := by
      obtain ⟨m, hm, hu, hm'⟩ := hnoted u key stage' s hbefore hstage'
      exact ⟨m, hsame ▸ hm, hu, hm'.trans habreast⟩
    cases h with
    | aside h => exact hmoved hstack hstage ((haside _ _ h).abreast hscripted)
    | miss hpeek =>
      cases hstack
      exact hmoved rfl (fun _ h => nomatch h) (abreast_modifyWorker fun _ => rfl)
    | distrust hstale =>
      cases hstack
      exact hmoved rfl (fun _ h => nomatch h) (.refl _ _)
    | date hscript =>
      cases hstack
      exact hmoved rfl (fun _ h => nomatch h) (.refl _ _)
    | remember hcompiled =>
      cases hstack
      exact hmoved rfl (fun _ h => nomatch h) (.refl _ _)
    | read hscript htext =>
      cases hstack
      exact hmoved rfl (fun _ h => nomatch h) (.refl _ _)
    | compiled hscript hreturned =>
      cases hstack
      exact hmoved rfl (fun _ h => nomatch h) (abreast_setCompiled ..)
    | @fill s H w j u key resource code time hscript hcompiled =>
      cases hstack
      have hadded : w.Abreast k (w.addModule u resource).2 :=
        ⟨⟨fun _ _ hu => hu, fun _ _ _ => rfl, fun _ => List.Subset.refl _⟩, fun _ => rfl⟩
      exact hmoved rfl (fun _ h => nomatch h) (hadded.trans (abreast_modifyWorker fun _ => rfl))
    | _ =>
      first
      | (cases hstack; done)
      | (cases hstack; exact (hstage _ rfl).elim)
      | simp at hsame
  · obtain ⟨hm, hw⟩ := h.moment hadded
    refine ⟨m, hadded ▸ List.mem_append_right _ (List.mem_singleton_self m), ?_, ?_⟩
    · rw [hm, ← hw]
      exact hheld
    · rw [hm, hw]
      exact .refl k c.world

theorem Step.imported (haside : ∀ w w', aside w w' → w.Apart w') (h : Step (· = k) thread aside c c')
    (hseat : c.Seated (· = k) thread) (hn : c.Nested) (hkeyed : c.world.Keyed)
    (hlinked : c.world.Linked k) (himported : c.Imported k) : c'.Imported k := by
  intro u key answer s p hstack hp
  have hscripted := (hseat.workers k rfl).scripted
  have hrecorded {stage : Stage L} (hbefore : c.stack = .load k u key stage :: s)
      (hsame : c'.world.dependencies p = (c.world.recordDependency p u).dependencies p) :
      u ∈ c'.world.dependencies p ∨ u = p := by
    obtain ⟨key', stage', hmem, -⟩ := mem_of_script hp
    have hload : k = k ∧ c.world.Holds k u key :=
      hseat.known (.load k u key stage) (hbefore ▸ List.mem_cons_self)
    have hparent : k = k ∧ c.world.Holds k p key' :=
      hseat.known (.load k p key' stage') (hbefore ▸ List.mem_cons_of_mem _ hmem)
    rw [hsame]
    exact mem_dependencies_recordDependency hkeyed hscripted hlinked hparent.2 hload.2
  cases h with
  | aside h =>
    rw [(haside _ _ h).dependencies]
    exact himported u key answer s p hstack hp
  | hit hpeek =>
    cases hstack
    refine hrecorded rfl ?_
    rw [hp]
    rfl
  | reuse hget hfresh =>
    cases hstack
    refine hrecorded rfl ?_
    rw [hp]
    rfl
  | refuse hstage =>
    cases hstack
    refine hrecorded rfl ?_
    rw [hp]
    rfl
  | finish hreturned =>
    cases hstack
    refine hrecorded rfl ?_
    rw [hp]
    rfl
  | fail hreturned =>
    cases hstack
    refine hrecorded rfl ?_
    rw [hp]
    rfl
  | leave =>
    subst hstack
    exact hn.shaped.1.elim
  | leaveInvoke =>
    subst hstack
    exact hn.shaped.1.elim
  | comeBack =>
    subst hstack
    rcases Activity.below_call hn.shaped.1 with ⟨_, _, _, _, _, hbelow, hinside⟩ | ⟨_, _, hbelow⟩
    · cases hbelow
      cases hinside
    · cases hbelow
  | _ => cases hstack

theorem Step.precedes {T : List (Moment L)} (haside : ∀ w w', aside w w' → w.Apart w')
    (h : Step (· = k) thread aside c c') (hseat : c.Seated (· = k) thread) (hlinked : c.world.Linked k)
    (hbefore : ∀ m ∈ T ++ c.history, m.world.Precedes k c.world) :
    ∀ m ∈ T ++ c'.history, m.world.Precedes k c'.world := by
  intro m hm
  have hgrows := (h.grows haside hseat).holds
  rcases h.history with hsame | ⟨m', hadded⟩
  · exact (hbefore m (hsame ▸ hm)).trans hgrows
  · rw [hadded, ← List.append_assoc] at hm
    rcases List.mem_append.1 hm with hm | hm
    · exact (hbefore m hm).trans hgrows
    · rw [List.mem_singleton.1 hm, (h.moment hadded).1]
      exact (Precedes.refl (hseat.workers k rfl).scripted hlinked).trans hgrows

theorem Step.later (haside : ∀ w w', aside w w' → w.Apart w')
    (h : Step (· = k) thread aside c c') (hseat : c.Seated (· = k) thread)
    (hbefore : ∀ m ∈ c.history, m.world.Grows k c.world) : ∀ m ∈ c'.history, m.world.Grows k c'.world := by
  intro m hm
  have hgrows := h.grows haside hseat
  rcases h.history with hsame | ⟨m', hadded⟩
  · exact (hbefore m (hsame ▸ hm)).trans hgrows
  · rw [hadded] at hm
    rcases List.mem_append.1 hm with hm | hm
    · exact (hbefore m hm).trans hgrows
    · rw [List.mem_singleton.1 hm, (h.moment hadded).1]
      exact hgrows

end Steps

end Config

end ScriptWorker
