import ScriptWorker.Proofs.Reloading.Graphs

/-!
# Modules whose imports are stored

A stored module is sure while the versions of all to which its unit leads are those of the moment at which it
was stamped. A module that loads come to is sure, and what a sure module has obtained from its imports is
stored under the keys of these imports and is sure itself. So no load looks at a sure module in vain, and no
step replaces one.
-/

namespace ScriptWorker

open Relation World

variable {L : Language}

/-- A module has the stamp of a moment at which all was complete to which its unit leads. -/
structure Vetted (graph : String → String → Prop) (T : List (Moment L)) (w : World L) (k : WorkerId)
    (u : UnitId) (key : String) (env : EnvironmentId) (m : Moment L) : Prop where
  mem : m ∈ T
  holds : m.world.Holds k u key
  stamp : (w.environment env).checksum = some (m.world.unitChecksum u)
  complete : m.world.Complete graph k u

/-- A module is stored, and all to which its unit leads has the version that it had when the module was
stamped. -/
def Sure (graph : String → String → Prop) (T : List (Moment L)) (w : World L) (k : WorkerId)
    (key : String) (env : EnvironmentId) : Prop :=
  (w.worker k).cache.get? key = some env ∧ ∃ u m, Vetted graph T w k u key env m ∧
    ∀ v, m.world.LeadsTo u v → w.unitVersion v = m.world.unitVersion v

section Sure

variable {graph : String → String → Prop} {T : List (Moment L)} {w : World L} {k : WorkerId}
  {u : UnitId} {key : String} {env : EnvironmentId} {m l : Moment L}

theorem Sure.isFresh (h : Sure graph T w k key env) (hprecedes : ∀ m ∈ T, m.world.Precedes k w)
    (hdeepens : ∀ m ∈ T, ∀ p, m.world.dependencies p ⊆ w.dependencies p) (hscripted : w.Scripted k)
    (hlinked : w.Linked k) (hwithin : w.Within graph k) (hu : w.Holds k u key) : w.isFresh u env := by
  obtain ⟨-, v, m, hvetted, hversions⟩ := h
  have hbefore := hprecedes m hvetted.mem
  obtain rfl := (hbefore.holds v key hvetted.holds).unique hu
  have hsum := hvetted.complete.unitChecksum_eq hbefore (hdeepens m hvetted.mem) hscripted hlinked hwithin
    hvetted.holds hversions
  unfold World.isFresh
  rw [hvetted.stamp, hsum]
  exact decide_eq_true rfl

/-- A stored module that is fresh is sure. -/
theorem Vetted.sure (h : Vetted graph T w k u key env m) (hget : (w.worker k).cache.get? key = some env)
    (hdistinct : Distinguished k T) (hprecedes : ∀ m ∈ T, m.world.Precedes k w) (hscripted : w.Scripted k)
    (hlinked : w.Linked k) (hl : l ∈ T) (hlu : l.world.Holds k u key) (habreast : l.world.Abreast k w)
    (hfresh : w.isFresh u env) : Sure graph T w k key env := by
  refine ⟨hget, u, m, h, fun v hlead => ?_⟩
  have hnow := hprecedes l hl
  have hlsum : w.unitChecksum u = l.world.unitChecksum u :=
    habreast.unitChecksum_eq hnow.scripted hnow.linked hscripted hlinked hlu
  have hsame : l.world.unitChecksum u = m.world.unitChecksum u := by
    have hright : (w.environment env).checksum = some (w.unitChecksum u) := of_decide_eq_true hfresh
    exact Option.some.inj ((congrArg some hlsum).symm.trans (hright.symm.trans h.stamp))
  obtain ⟨key', hv⟩ := hlead.holds (hprecedes m h.mem).linked h.holds
  obtain ⟨hlv, -, hversion⟩ := hdistinct.version hl h.mem hprecedes hlu h.holds hsame hlead hv
  exact (habreast.grows.versions v key' hlv).trans hversion

end Sure

namespace Config

/-- What holds of a call whose imports follow a graph, and whose loads do not fail. -/
structure Coherent (graph : String → String → Prop) (T : List (Moment L)) (k : WorkerId) (c : Config L) :
    Prop where
  within : c.world.Within graph k
  deepens : ∀ m ∈ T ++ c.history, ∀ p, m.world.dependencies p ⊆ c.world.dependencies p
  descends : Activity.Descends graph k c.stack
  stamped : ∀ key env, (c.world.worker k).cache.get? key = some env →
    ∃ u m, Vetted graph (T ++ c.history) c.world k u key env m
  bound : ∀ key env key' found, Sure graph (T ++ c.history) c.world k key env →
    Binds (T ++ c.history) k env key' found → Sure graph (T ++ c.history) c.world k key' found ∧
      ∃ u v, c.world.Holds k u key ∧ c.world.Holds k v key' ∧ v ∈ c.world.dependencies u
  given : ∀ u key env, c.Given k u key env → Sure graph (T ++ c.history) c.world k key env
  filling : ∀ u key env code time key' found, .load k u key (.filling env code time) ∈ c.stack →
    Binds (T ++ c.history) k env key' found → Sure graph (T ++ c.history) c.world k key' found ∧
      ∃ v ∈ c.world.dependencies u, c.world.Holds k v key'
  stale : ∀ u key stage env, .load k u key stage ∈ c.stack → stage.isRenewing →
    ¬ Sure graph (T ++ c.history) c.world k key env

section Steps

variable {graph : String → String → Prop} {thread : ThreadId} {aside : World L → World L → Prop}
  {c c' : Config L} {k : WorkerId} {u : UnitId} {key key' : String} {env found : EnvironmentId}
  {s : List (Activity L)} {code : L.Body} {time : UInt64} {T : List (Moment L)} {start : World L}

theorem Step.follows (h : Step (· = k) thread aside c c') (hfollows : Follows graph k (T ++ c'.history)) :
    Follows graph k (T ++ c.history) := by
  rcases h.history with hsame | ⟨m, hadded⟩
  · exact hsame ▸ hfollows
  · rw [hadded, ← List.append_assoc] at hfollows
    exact hfollows.of_append

theorem Step.renewing (h : Step (· = k) thread aside c c') {stage : Stage L}
    (hmem : .load k u key stage ∈ c'.stack) (hrenewing : stage.isRenewing) :
    (∃ stage', .load k u key stage' ∈ c.stack ∧ stage'.isRenewing) ∨
      ∃ s, c.stack = .load k u key .opened :: s ∧
        ∀ env, (c.world.worker k).cache.get? key = some env → ¬ c.world.isFresh u env := by
  cases h <;> grind [Stage.isRenewing]

theorem Step.returned (h : Step (· = k) thread aside c c')
    (hstack : c.stack = .load k u key (.filling env code time) :: s)
    (hstack' : c'.stack = .load k u key (.settled (.done (.ok env))) :: s) :
    ∃ value, Returned c.history (.execute code k env) (.done (.ok value)) := by
  obtain ⟨stack, H, w⟩ := c
  obtain rfl : _ = _ := hstack
  cases h with
  | finish hreturned => exact ⟨_, hreturned⟩
  | arrive hk hload hholds => exact hload.elim
  | arriveInvoke hk hcall => exact hcall.elim
  | _ => cases hstack'

variable (haside : ∀ w w', aside w w' → w.Apart w') (h : Step (· = k) thread aside c c')
  (hc : c.Regular thread k) (ht : c.Traced T start k) (hcoherent : c.Coherent graph T k)
include haside h hc ht hcoherent

/-- What is sure stays so. -/
theorem Step.sure (hsure : Sure graph (T ++ c.history) c.world k key env) :
    Sure graph (T ++ c'.history) c'.world k key env := by
  have hbeside : ∀ w w', aside w w' → w.Beside w' := fun _ _ h => (haside _ _ h).beside
  have hget := h.get?_outside hbeside hc.sound.seated fun u stage hmem hrenewing =>
    hcoherent.stale u key stage env hmem hrenewing hsure
  obtain ⟨hstored, u, m, hvetted, hversions⟩ := hsure
  have hbefore := ht.precedes m hvetted.mem
  refine ⟨hget.trans hstored, u, m, ⟨h.history_subset hvetted.mem, hvetted.holds,
    (h.stamp_stored haside hc hstored).trans hvetted.stamp, hvetted.complete⟩, fun v hlead => ?_⟩
  obtain ⟨vkey, hv⟩ := hlead.holds hbefore.linked hvetted.holds
  exact ((h.grows haside hc.sound.seated).versions v vkey (hbefore.holds v vkey hv)).trans (hversions v hlead)

theorem Step.of_sure (hdistinct : Distinguished k (T ++ c'.history))
    (hget : (c.world.worker k).cache.get? key = some env)
    (hsure : Sure graph (T ++ c'.history) c'.world k key env) :
    Sure graph (T ++ c.history) c.world k key env := by
  have hprecedes' := (h.traced haside hc ht).precedes
  obtain ⟨-, v, l, hl, hversions⟩ := hsure
  obtain ⟨u, m, hm⟩ := hcoherent.stamped key env hget
  have hbefore := ht.precedes m hm.mem
  have hmem : m ∈ T ++ c'.history := h.history_subset hm.mem
  obtain rfl := ((hprecedes' m hmem).holds u key hm.holds).unique ((hprecedes' l hl.mem).holds v key hl.holds)
  have hsame : l.world.unitChecksum u = m.world.unitChecksum u :=
    Option.some.inj (hl.stamp.symm.trans ((h.stamp_stored haside hc hget).trans hm.stamp))
  refine ⟨hget, u, m, hm, fun p hlead => ?_⟩
  obtain ⟨pkey, hp⟩ := hlead.holds hbefore.linked hm.holds
  obtain ⟨-, hlead', hversion⟩ := hdistinct.version hl.mem hmem hprecedes' hl.holds hm.holds hsame hlead hp
  have hkept := (h.grows haside hc.sound.seated).versions p pkey (hbefore.holds p pkey hp)
  exact hkept.symm.trans ((hversions p hlead').trans hversion)

omit haside in
theorem Coherent.complete (hfollows : Follows graph k (T ++ c.history))
    (hstack : c.stack = .load k u key (.filling env code time) :: s)
    (hstack' : c'.stack = .load k u key (.settled (.done (.ok env))) :: s) :
    c.world.Complete graph k u := by
  have hmem : .load k u key (.filling env code time) ∈ c.stack := hstack ▸ List.mem_cons_self
  have hscripted := (hc.sound.seated.workers k rfl).scripted
  have hload : k = k ∧ c.world.Holds k u key := hc.sound.seated.known _ hmem
  obtain ⟨x, ⟨frames, hran⟩, -⟩ := ht.filling u key env code time hmem
  obtain ⟨value, before, frames', y, heq⟩ := h.returned hstack hstack'
  -- what the body has imported is sure, and a dependency
  have himports {key'} (hgraph : graph key key') : ∃ found,
      Sure graph (T ++ c.history) c.world k key' found ∧ ∃ v ∈ c.world.dependencies u, c.world.Holds k v key' := by
    rw [heq, ← List.append_assoc] at hran
    have hbegan : Ran (T ++ before) k u key env code x := by
      rcases List.mem_append.1 hran with hran | hran
      · exact ⟨frames, hran⟩
      · cases List.mem_singleton.1 hran
    obtain ⟨found, hbinds⟩ := hfollows.all (T ++ before) frames' code env value y []
      (by rw [heq, List.append_assoc]) u key x hbegan key' hgraph
    refine ⟨found, hcoherent.filling u key env code time key' found hmem (hbinds.mono ?_)⟩
    rw [heq, ← List.append_assoc]
    exact List.subset_append_left _ _
  intro v vkey key' hlead hv hgraph
  rcases hlead.cases_head with rfl | ⟨p, hp, hrest⟩
  · obtain rfl : vkey = key := (hv.unitKey hscripted).symm.trans (hload.2.unitKey hscripted)
    obtain ⟨-, -, hdepends⟩ := himports hgraph
    exact hdepends
  · obtain ⟨pkey, hpkey⟩ := hc.linked u key p hload.2 hp
    obtain ⟨found, ⟨-, q, m, hm, -⟩, -⟩ := himports (hcoherent.within u key p pkey hload.2 hp hpkey)
    have hbefore := ht.precedes m hm.mem
    obtain rfl := (hbefore.holds q pkey hm.holds).unique hpkey
    exact hm.complete.later hbefore (hcoherent.deepens m hm.mem) hscripted hc.linked hcoherent.within
      hm.holds v vkey key' hrest hv hgraph

theorem Coherent.filled (hfollows : Follows graph k (T ++ c.history))
    (hstack : c.stack = .load k u key (.filling env code time) :: s)
    (hstack' : c'.stack = .load k u key (.settled (.done (.ok env))) :: s) :
    Sure graph (T ++ c'.history) c'.world k key env := by
  have hmem : .load k u key (.filling env code time) ∈ c.stack := hstack ▸ List.mem_cons_self
  have hscripted := (hc.sound.seated.workers k rfl).scripted
  have hcomplete := hcoherent.complete h hc ht hfollows hstack hstack'
  obtain ⟨m, hm, hmu, habreast, hstamp⟩ := h.stamps_filled hc ht hstack hstack'
  have hbefore := ht.precedes m (List.mem_append_right _ hm)
  refine ⟨?_, u, m, ⟨h.history_subset (List.mem_append_right _ hm), hmu, hstamp,
    habreast.complete hbefore hscripted hcomplete⟩, fun v hlead => ?_⟩
  · rcases h.filling hc.sound.seated hmem with hmem' | ⟨o, s', hsettled, hget⟩
    · rw [hstack'] at hmem'
      have hbelow : .load k u key (.filling env code time) ∈ s := by simpa using hmem'
      obtain ⟨stack, H, w⟩ := c
      obtain rfl : _ = _ := hstack
      exact (hc.sound.nested.sole rfl hbelow).elim
    · rw [hstack'] at hsettled
      cases hsettled
      exact hget env rfl
  · obtain ⟨vkey, hv⟩ := hlead.holds hbefore.linked hmu
    exact ((h.grows haside hc.sound.seated).versions v vkey (hbefore.holds v vkey hv)).trans
      (habreast.grows.versions v vkey hv)

theorem Coherent.given_step (hd : c.Delivers k) (hacyclic : ∀ key, ¬ TransGen graph key key)
    (hdistinct : Distinguished k (T ++ c'.history)) (hfollows : Follows graph k (T ++ c.history))
    (hgiven : c'.Given k u key env) : Sure graph (T ++ c'.history) c'.world k key env := by
  have hscripted := (hc.sound.seated.workers k rfl).scripted
  have hbefore {v} (hgiven : c.Given k v key env) := h.sure haside hc ht hcoherent (hcoherent.given v key env hgiven)
  rcases h.of_given hc.sound.nested hgiven with hgiven | ⟨stage, s, hstack, hstack', hcomes⟩
  · exact hbefore hgiven
  · generalize hworld : c'.world = w' at hcomes
    cases hcomes with
    | found hpeek =>
      rcases hd.found hc.sound hc.reloading hstack hpeek with hgiven | ⟨code, time, hmem⟩
      · exact hworld ▸ hbefore hgiven
      · -- a load of a key in progress would be in a circle
        have hdescends := hcoherent.descends
        rw [hstack] at hdescends
        exact (hacyclic key (hdescends.below (Activity.mem_progress hmem rfl))).elim
    | reused hget hfresh =>
      have hload : k = k ∧ c.world.Holds k u key :=
        hc.sound.seated.known (.load k u key .opened) (hstack ▸ List.mem_cons_self)
      obtain ⟨l, hl, hlu, habreast⟩ := hc.noted u key .opened s hstack fun _ h => nomatch h
      obtain ⟨v, m, hm⟩ := hcoherent.stamped key env hget
      obtain rfl := ((ht.precedes m hm.mem).holds v key hm.holds).unique hload.2
      have hsure := hm.sure hget (hdistinct.mono h.history_subset) ht.precedes hscripted hc.linked
        (List.mem_append_right _ hl) hlu habreast hfresh
      exact hworld ▸ h.sure haside hc ht hcoherent hsure
    | filled => exact hworld ▸ hcoherent.filled haside h hc ht hfollows hstack hstack'

theorem Coherent.bound_step (hdistinct : Distinguished k (T ++ c'.history))
    (hsure : Sure graph (T ++ c'.history) c'.world k key env)
    (hb : Binds (T ++ c'.history) k env key' found) :
    Sure graph (T ++ c'.history) c'.world k key' found ∧
      ∃ u v, c'.world.Holds k u key ∧ c'.world.Holds k v key' ∧ v ∈ c'.world.dependencies u := by
  have hbeside : ∀ w w', aside w w' → w.Beside w' := fun _ _ h => (haside _ _ h).beside
  have hseat := hc.sound.seated
  have hgrows := h.grows haside hseat
  have hmode : (c.world.worker k).cache.mode = .development := by
    rw [(hseat.workers k rfl).mode, hc.reloading]
    rfl
  have hkeep {u v} (hs : Sure graph (T ++ c.history) c.world k key' found) (hu : c.world.Holds k u key)
      (hv : c.world.Holds k v key') (hmem : v ∈ c.world.dependencies u) :
      Sure graph (T ++ c'.history) c'.world k key' found ∧
        ∃ u v, c'.world.Holds k u key ∧ c'.world.Holds k v key' ∧ v ∈ c'.world.dependencies u :=
    ⟨h.sure haside hc ht hcoherent hs, u, v, hgrows.holds u key hu, hgrows.holds v key' hv,
      hgrows.dependencies u hmem⟩
  rcases h.get? hbeside hseat hsure.1 with hbefore | ⟨hrelease, -⟩ | ⟨u, code, time, s, hstack, hstack'⟩
  · rcases h.binds hb with hold | ⟨p, hstack, -, hfilled⟩
    · obtain ⟨hs, u, v, hu, hv, hmem⟩ := hcoherent.bound key env key' found
        (h.of_sure haside hc ht hcoherent hdistinct hbefore hsure) hold
      exact hkeep hs hu hv hmem
    · -- what a body fills is not stored
      obtain ⟨q, qkey, code, time, hmem, -⟩ := hc.sound.importer hstack hfilled
      have hmem' := List.mem_cons_of_mem (.load k p key' (.settled (.done (.ok found)))) hmem
      rw [← hstack] at hmem'
      obtain rfl := (hc.alone q qkey _ env hmem' rfl).2 key (.inl hbefore)
      exact (hc.sound.unfinished k q key _ env hmem' rfl hmode hbefore).elim
  · cases hmode.symm.trans hrelease
  · have hmem : .load k u key (.filling env code time) ∈ c.stack := hstack ▸ List.mem_cons_self
    have hload : k = k ∧ c.world.Holds k u key := hseat.known _ hmem
    rcases h.binds hb with hold | ⟨p, hsettled, -⟩
    · obtain ⟨hs, v, hv, hheld⟩ := hcoherent.filling u key env code time key' found hmem hold
      exact hkeep hs hload.2 hheld hv
    · rw [hstack] at hsettled
      cases hsettled

theorem Coherent.filling_step (hacyclic : ∀ key, ¬ TransGen graph key key)
    (hmem : .load k u key (.filling env code time) ∈ c'.stack)
    (hb : Binds (T ++ c'.history) k env key' found) :
    Sure graph (T ++ c'.history) c'.world k key' found ∧
      ∃ v ∈ c'.world.dependencies u, c'.world.Holds k v key' := by
  have hseat := hc.sound.seated
  have hgrows := h.grows haside hseat
  have hkeep {v} (hs : Sure graph (T ++ c.history) c.world k key' found)
      (hv : v ∈ c.world.dependencies u) (hheld : c.world.Holds k v key') :
      Sure graph (T ++ c'.history) c'.world k key' found ∧
        ∃ v ∈ c'.world.dependencies u, c'.world.Holds k v key' :=
    ⟨h.sure haside hc ht hcoherent hs, v, hgrows.dependencies u hv, hgrows.holds v key' hheld⟩
  rcases h.of_filling_mem hmem with hbefore | ⟨s, hstack, -⟩
  · rcases h.binds hb with hold | ⟨v, hstack, -, hfilled⟩
    · obtain ⟨hs, v, hv, hheld⟩ := hcoherent.filling u key env code time key' found hbefore hold
      exact hkeep hs hv hheld
    · obtain ⟨p, pkey, pcode, ptime, hparent, hscript⟩ := hc.sound.importer hstack hfilled
      have hparent' := List.mem_cons_of_mem (.load k v key' (.settled (.done (.ok found)))) hparent
      rw [← hstack] at hparent'
      -- one load fills the module
      obtain ⟨x, hran, -⟩ := ht.filling u key env code time hbefore
      obtain ⟨y, hran', -⟩ := ht.filling p pkey env pcode ptime hparent'
      obtain ⟨rfl, -⟩ := ht.sole env u key code x p pkey pcode y hran hran'
      have hload : k = k ∧ c.world.Holds k v key' :=
        hseat.known (.load k v key' (.settled (.done (.ok found)))) (hstack ▸ List.mem_cons_self)
      have hsure := hcoherent.given v key' found (.inr ⟨_, hstack⟩)
      rcases hc.imported v key' _ _ p hstack hscript with hdepends | rfl
      · exact hkeep hsure hdepends hload.2
      · have hdescends := hcoherent.descends
        rw [hstack] at hdescends
        have hscripted := (hseat.workers k rfl).scripted
        have hown : k = k ∧ c.world.Holds k v pkey := hseat.known _ hparent'
        obtain rfl : pkey = key' := (hown.2.unitKey hscripted).symm.trans (hload.2.unitKey hscripted)
        exact (hacyclic pkey (hdescends.below (Activity.mem_progress hparent rfl))).elim
  · exact (h.unbound ht hstack hb).elim

theorem Coherent.stale_step (hdistinct : Distinguished k (T ++ c'.history)) {stage : Stage L}
    (hmem : .load k u key stage ∈ c'.stack) (hrenewing : stage.isRenewing) :
    ¬ Sure graph (T ++ c'.history) c'.world k key env := by
  have hbeside : ∀ w w', aside w w' → w.Beside w' := fun _ _ h => (haside _ _ h).beside
  have hseat := hc.sound.seated
  intro hsure
  rcases h.get? hbeside hseat hsure.1 with hget | ⟨hrelease, -⟩ | ⟨v, code, time, s, hstack, hstack'⟩
  · have hbefore := h.of_sure haside hc ht hcoherent hdistinct hget hsure
    rcases h.renewing hmem hrenewing with ⟨stage', hmem', hrenewing'⟩ | ⟨s, hstack, hstale⟩
    · exact hcoherent.stale u key stage' env hmem' hrenewing' hbefore
    · have hload : k = k ∧ c.world.Holds k u key :=
        hseat.known (.load k u key .opened) (hstack ▸ List.mem_cons_self)
      exact hstale env hget (hbefore.isFresh ht.precedes hcoherent.deepens (hseat.workers k rfl).scripted
        hc.linked hcoherent.within hload.2)
  · rw [(hseat.workers k rfl).mode, hc.reloading] at hrelease
    cases hrelease
  · rw [hstack'] at hmem
    have hbelow : .load k u key stage ∈ s := by
      rcases List.mem_cons.1 hmem with heq | hmem
      · cases heq
        cases hrenewing
      · exact hmem
    obtain ⟨stack, H, w⟩ := c
    obtain rfl : _ = _ := hstack
    exact (hc.sound.nested.sole rfl hbelow).elim

theorem Step.coherent (hd : c.Delivers k) (hacyclic : ∀ key, ¬ TransGen graph key key)
    (hdistinct : Distinguished k (T ++ c'.history)) (hfollows : Follows graph k (T ++ c'.history)) :
    c'.Coherent graph T k := by
  have hbeside : ∀ w w', aside w w' → w.Beside w' := fun _ _ h => (haside _ _ h).beside
  have hseat := hc.sound.seated
  have hbefore := h.follows hfollows
  constructor
  case within => exact h.within haside hc hcoherent.descends hcoherent.within
  case deepens =>
    intro m hm p
    have hgrows := (h.grows haside hseat).dependencies p
    rcases h.history with hsame | ⟨m', hadded⟩
    · exact List.Subset.trans (hcoherent.deepens m (hsame ▸ hm) p) hgrows
    · rw [hadded, ← List.append_assoc] at hm
      rcases List.mem_append.1 hm with hm | hm
      · exact List.Subset.trans (hcoherent.deepens m hm p) hgrows
      · rw [List.mem_singleton.1 hm, (h.moment hadded).1]
        exact hgrows
  case descends => exact h.descends hc.sound.nested hfollows hcoherent.descends
  case stamped =>
    intro key env hget
    rcases h.get? hbeside hseat hget with hold | ⟨hrelease, -⟩ | ⟨u, code, time, s, hstack, hstack'⟩
    · obtain ⟨u, m, hm⟩ := hcoherent.stamped key env hold
      exact ⟨u, m, h.history_subset hm.mem, hm.holds, (h.stamp_stored haside hc hold).trans hm.stamp,
        hm.complete⟩
    · rw [(hseat.workers k rfl).mode, hc.reloading] at hrelease
      cases hrelease
    · obtain ⟨-, u, m, hm, -⟩ := hcoherent.filled haside h hc ht hbefore hstack hstack'
      exact ⟨u, m, hm⟩
  case bound => exact fun _ _ _ _ => hcoherent.bound_step haside h hc ht hdistinct
  case given => exact fun _ _ _ => hcoherent.given_step haside h hc ht hd hacyclic hdistinct hbefore
  case filling => exact fun _ _ _ _ _ _ _ => hcoherent.filling_step haside h hc ht hacyclic
  case stale => exact fun _ _ _ _ => hcoherent.stale_step haside h hc ht hdistinct

end Steps

end Config

end ScriptWorker
