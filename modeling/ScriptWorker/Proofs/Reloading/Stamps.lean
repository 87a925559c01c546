import ScriptWorker.Proofs.Reloading.Amending

/-!
# What a stamp counts

A body is kept with the time that its source had before it was read, and a module that the body fills is
stamped with that time for its own key. For the keys of what it imported the stamp takes the times that the
sources have when it is taken, which are those of the imported modules only as long as no edit has come
in between.
-/

namespace ScriptWorker

open Relation World

variable {L : Language}

def Built (T : List (Moment L)) (k : WorkerId) (u : UnitId) (key : String) (env : EnvironmentId)
    (time : UInt64) : Prop :=
  ∃ code x, Ran T k u key env code x ∧ x.compiled u = some (code, time)

/-- The stamp of a module whose body has come back: when it was taken and what it counts, with what the body
had imported by then. -/
structure Counts (edits : Storage → Storage → Prop) (T : List (Moment L)) (k : WorkerId) (u : UnitId)
    (key : String) (env : EnvironmentId) (x y : World L) (time : UInt64) (storage : Storage)
    (counted : List (String × UInt64)) : Prop where
  built : Built T k u key env time
  before : ReflTransGen (Storage.Passes edits) x.storage storage
  after : ReflTransGen (Storage.Passes edits) storage y.storage
  stamp : (y.environment env).checksum = some (DependencyGraph.total entryHash counted)
  distinct : (counted.map Prod.fst).Nodup
  entries : ∀ key' version, (key', version) ∈ counted ↔ key' = key ∧ version = time ∨
    key' ≠ key ∧ ∃ p resource, x.LeadsTo u p ∧ x.Script p key' resource ∧
      version = storage.modified resource
  imports : ∀ key' found, Binds T k env key' found → key' ≠ key → ∃ d resource time',
    x.LeadsTo u d ∧ x.Script d key' resource ∧ Built T k d key' found time' ∧
    (∀ v key'' time'', Built T k v key'' found time'' → v = d ∧ key'' = key' ∧ time'' = time') ∧
    ((key', time') ∈ counted ↔ storage.modified resource = time')

namespace World

structure Cold (w : World L) (k : WorkerId) : Prop where
  rests : w.Rests (· = k)
  stored : ∀ key, (w.worker k).cache.get? key = none
  linked : w.Linked k
  keyed : w.Keyed

/-- A checksum counts one version for each key that its unit leads to, its own with the version given. -/
theorem exists_counted {w : World L} {k : WorkerId} {u : UnitId} {key : String}
    (hscripted : w.Scripted k) (hlinked : w.Linked k) (hu : w.Holds k u key) (time : UInt64) :
    ∃ keys : List String, keys.Nodup ∧
      (∀ key', key' ∈ keys ↔ key' ≠ key ∧ ∃ p, w.LeadsTo u p ∧ w.Holds k p key') ∧
      w.checksumAt u time = DependencyGraph.total entryHash
        ((key, time) :: keys.map fun key' => (key', w.keyVersion k key')) := by
  have hagree := agrees_of_linked hscripted hlinked
  have hnode := hu.node hscripted
  obtain ⟨keys, hnodup, hkeys, hsum⟩ :=
    DependencyGraph.checksum_eq_past entryHash hagree key time fun d hd => hlinked u key d hu hd
  refine ⟨keys, hnodup, fun key' => ?_, ?_⟩
  · rw [hkeys, ← reaches_iff hscripted hlinked hu]
    constructor
    · rintro ⟨d, hd, hreach⟩
      exact ⟨fun heq => hreach.not_seen (heq ▸ List.mem_singleton_self _),
        .there hnode List.not_mem_nil hd hreach.of_cons⟩
    · rintro ⟨hne, hreach⟩
      -- past its own key a unit leads on over its dependencies
      rcases hreach.past hagree ⟨key, hu⟩ hnode ⟨key, hu⟩ with heq | hpast | ⟨d, hd, hbehind⟩
      · exact (hne heq).elim
      · obtain ⟨node, hnode', hunseen⟩ := hpast.exists_node
        cases hnode.symm.trans hnode'
        exact (hunseen List.mem_cons_self).elim
      · exact ⟨d, hd, hbehind⟩
  · unfold checksumAt
    rw [hu.unitKey hscripted]
    exact hsum

section Retains

variable {edits : Storage → Storage → Prop} {w z y : World L} {k : WorkerId} {u p : UnitId}
  {key key' : String} {resource : Resource} {env : EnvironmentId}

theorem Retains.keyVersion (h : w.Retains edits z) (hscripted : w.Scripted k) (hlinked : w.Linked k)
    (hu : w.Holds k u key) (hlead : w.LeadsTo u p) (hscript : w.Script p key' resource) :
    w.Holds k p key' ∧ z.keyVersion k key' = z.storage.modified resource := by
  obtain ⟨key'', hp⟩ := hlead.holds hlinked hu
  obtain rfl : key'' = key' := (hp.unitKey hscripted).symm.trans (Script.unitKey hscript)
  exact ⟨hp, (h.beside.holds hp).keyVersion.trans (h.beside.script p key'' resource hscript).unitVersion⟩

theorem Retains.exists_counted (h : w.Retains edits z) (hscripted : w.Scripted k) (hlinked : w.Linked k)
    (hu : w.Holds k u key) (time : UInt64) : ∃ counted : List (String × UInt64),
      z.checksumAt u time = DependencyGraph.total entryHash counted ∧ (counted.map Prod.fst).Nodup ∧
      ∀ key' version, (key', version) ∈ counted ↔ key' = key ∧ version = time ∨
        key' ≠ key ∧ ∃ p resource, w.LeadsTo u p ∧ w.Script p key' resource ∧
          version = z.storage.modified resource := by
  have hscripted' := h.beside.scripted hscripted
  obtain ⟨keys, hnodup, hkeys, hsum⟩ :=
    World.exists_counted hscripted' (h.linked k hlinked) (h.beside.holds hu) time
  refine ⟨_, hsum, ?_, fun key' version => ?_⟩
  · rw [List.map_cons, List.map_map]
    refine List.nodup_cons.2 ⟨fun hkey => ?_, ?_⟩
    · exact ((hkeys key).1 (by simpa using hkey)).1 rfl
    · simpa [Function.comp_def] using hnodup
  · rw [List.mem_cons, Prod.mk.injEq]
    refine or_congr_right ⟨fun hmem => ?_, fun ⟨hne, p, resource, hlead, hscript, heq⟩ => ?_⟩
    · obtain ⟨_, hkey', heq⟩ := List.mem_map.1 hmem
      cases heq
      obtain ⟨hne, p, hlead, hp⟩ := (hkeys key').1 hkey'
      have hlead := h.leadsTo_iff.1 hlead
      obtain ⟨key'', hp'⟩ := hlead.holds hlinked hu
      obtain rfl : key'' = key' :=
        ((h.beside.holds hp').unitKey hscripted').symm.trans (hp.unitKey hscripted')
      obtain ⟨resource, hscript⟩ := hscripted.script hp'
      exact ⟨hne, p, resource, hlead, hscript, (h.keyVersion hscripted hlinked hu hlead hscript).2⟩
    · obtain ⟨hp, hsame⟩ := h.keyVersion hscripted hlinked hu hlead hscript
      exact List.mem_map.2 ⟨key', (hkeys key').2 ⟨hne, p, h.leadsTo_iff.2 hlead, h.beside.holds hp⟩,
        by rw [hsame, heq]⟩

theorem Retains.stamped {sum : UInt64} {parent : Option UnitId} {answer : Answer EnvironmentId}
    (h : ((z.stamp env sum).closed k u key parent answer).Retains edits y)
    (henv : env < z.environments.size) (hkind : (z.environment env).kind = .module) :
    (y.environment env).checksum = some sum ∧
      ReflTransGen (Storage.Passes edits) z.storage y.storage := by
  have hsize : env < ((z.stamp env sum).closed k u key parent answer).environments.size := by
    rw [environments_closed]
    exact Nat.lt_of_lt_of_eq henv (Table.size_modify ..).symm
  constructor
  · rw [(h.environment env hsize).1, ← Config.checksum_stamp henv hkind]
    unfold World.environment
    rw [environments_closed]
  · have hpasses := h.passes
    unfold World.closed at hpasses
    cases parent <;> exact hpasses

end Retains

end World

namespace Config

/-- What the moments tell of the modules that there are. -/
structure Told (T : List (Moment L)) (k : WorkerId) (c : Config L) : Prop where
  bounded : ∀ u key env code x, Ran (T ++ c.history) k u key env code x →
    env < c.world.environments.size
  unrun : ∀ u key env code time v key' code' x, .load k u key (.registered env code time) ∈ c.stack →
    ¬ Ran (T ++ c.history) k v key' env code' x
  sole : ∀ env u key code x v key' code' x', Ran (T ++ c.history) k u key env code x →
    Ran (T ++ c.history) k v key' env code' x' → v = u ∧ key' = key ∧ code' = code ∧ x' = x
  ran : ∀ u key env code x, Ran (T ++ c.history) k u key env code x →
    c.world.Holds k u key ∧ ∃ time, x.compiled u = some (code, time)
  registered : ∀ u key env code time s, c.stack = .load k u key (.registered env code time) :: s →
    c.world.compiled u = some (code, time)
  filling : ∀ u key env code time, .load k u key (.filling env code time) ∈ c.stack →
    ∃ x, Ran (T ++ c.history) k u key env code x ∧ x.compiled u = some (code, time)
  shown : ∀ key env, c.Shows k key env → (∃ u code x, Ran (T ++ c.history) k u key env code x) ∨
    ∃ u code time s, c.stack = .load k u key (.registered env code time) :: s
  bound : ∀ env key found, Binds (T ++ c.history) k env key found → ∃ p key' code x d code' x',
    Ran (T ++ c.history) k p key' env code x ∧ Ran (T ++ c.history) k d key found code' x' ∧
      (d ∈ c.world.dependencies p ∨ d = p)

section Steps

variable {thread : ThreadId} {edits : Storage → Storage → Prop} {c c' : Config L} {k : WorkerId}
  {u v : UnitId} {key : String} {env found : EnvironmentId} {s : List (Activity L)} {code : L.Body}
  {time : UInt64} {T : List (Moment L)}

theorem Step.keeps_registered (h : Step (· = k) thread (World.Amends edits) c c') (hn : c.Nested)
    (hbefore : ∀ s, c.stack = .load k u key (.registered env code time) :: s →
      c.world.compiled u = some (code, time))
    (hstack : c'.stack = .load k u key (.registered env code time) :: s) :
    c'.world.compiled u = some (code, time) := by
  rcases h.amends with hstep | ⟨storage, rfl⟩
  · cases hstep with
    | aside hmove =>
      have hcompiled := hbefore s hstack
      unfold World.compiled at hcompiled ⊢
      obtain ⟨unit, hunit, hsource⟩ := Option.bind_eq_some_iff.1 hcompiled
      rw [hmove.units u unit hunit]
      exact hsource
    | fill hscript hcompiled =>
      cases hstack
      exact hcompiled
    | leave =>
      subst hstack
      exact hn.shaped.1.elim
    | leaveInvoke =>
      subst hstack
      exact hn.shaped.1.elim
    | @comeBack s' H w callee o =>
      subst hstack
      have hfits := hn.shaped.1
      cases callee with
      | compile path source =>
        obtain ⟨_, _, _, _, _, _, hbelow⟩ := hfits
        cases hbelow
      | execute code' i env' =>
        obtain ⟨_, _, _, _, hbelow⟩ := hfits
        cases hbelow
      | call closure i this args =>
        obtain ⟨_, _, hbelow⟩ := hfits
        cases hbelow
      | _ => exact hfits.elim
    | _ => cases hstack
  · exact hbefore s hstack

theorem Step.told (h : Step (· = k) thread (World.Amends edits) c c') (hc : c.Standing thread k)
    (ht : c.Told T k) : c'.Told T k := by
  have hbeside : ∀ w w' : World L, World.Amends edits w w' → w.Beside w' := fun _ _ hmove => hmove.beside
  have hseat := hc.sound.seated
  have hsubset : T ++ c.history ⊆ T ++ c'.history := h.history_subset
  have hknown {u key stage s} (hstack : c.stack = .load k u key stage :: s) :
      c.world.Holds k u key :=
    (hseat.known (.load k u key stage) (hstack ▸ List.mem_cons_self)).2
  have hran {u key env code x} (hran : Ran (T ++ c'.history) k u key env code x) :
      c.world.Holds k u key ∧ ∃ time, x.compiled u = some (code, time) := by
    rcases h.ran hran with hbefore | ⟨time, s, hstack, -, rfl⟩
    · exact ht.ran u key env code x hbefore
    · exact ⟨hknown hstack, time, ht.registered u key env code time s hstack⟩
  constructor
  case bounded => exact fun _ _ _ _ _ hran => h.bounded_ran hbeside hc.sound ht.bounded hran
  case unrun => exact fun _ _ _ _ _ _ _ _ _ hmem => h.unrun hc.sound ht.bounded ht.unrun hmem
  case sole =>
    intro env u key code x v key' code' x' hran hran'
    rcases h.ran_sole ht.unrun hran hran' with ⟨hbefore, hbefore'⟩ | hsame
    · exact ht.sole env u key code x v key' code' x' hbefore hbefore'
    · exact hsame
  case ran => exact fun _ _ _ _ _ hr => (hran hr).imp_left (h.holds hbeside)
  case registered =>
    exact fun u key env code time s => h.keeps_registered hc.sound.nested (ht.registered u key env code time)
  case filling =>
    intro u key env code time hmem
    rcases h.of_filling_mem hmem with hmem' | ⟨s, hstack, frames, hadded⟩
    · obtain ⟨x, hran, hcompiled⟩ := ht.filling u key env code time hmem'
      exact ⟨x, hran.mono hsubset, hcompiled⟩
    · refine ⟨c.world, ⟨frames, ?_⟩, ht.registered u key env code time s hstack⟩
      rw [hadded]
      exact List.mem_append_right _ (List.mem_append_right _ (List.mem_singleton_self _))
  case shown =>
    intro key env hshows
    rcases h.shows hbeside hseat hshows with hbefore | ⟨rfl, -⟩
    · rcases ht.shown key env hbefore with ⟨u, code, x, hran⟩ | ⟨u, code, time, s, hstack⟩
      · exact .inl ⟨u, code, x, hran.mono hsubset⟩
      · rcases h.of_registered hc.unbroken hstack with ⟨s', hstack'⟩ | ⟨frames, hadded⟩
        · exact .inr ⟨u, code, time, s', hstack'⟩
        · refine .inl ⟨u, code, c.world, frames, ?_⟩
          rw [hadded]
          exact List.mem_append_right _ (List.mem_append_right _ (List.mem_singleton_self _))
    · exact .inr (h.newcomer hbeside hseat hc.sound.bounded rfl (Nat.le_refl _) hshows).2
  case bound =>
    intro env key found hbinds
    rcases h.binds hbinds with hbefore | ⟨u, hstack, hworld, hfilled⟩
    · obtain ⟨p, key', code, x, d, code', x', hp, hd, hdepends⟩ := ht.bound env key found hbefore
      exact ⟨p, key', code, x, d, code', x', hp.mono hsubset, hd.mono hsubset,
        hdepends.imp_left fun hmem => h.dependencies_subset p hmem⟩
    · obtain ⟨p, key', code, time, hmem, hscript⟩ := hc.sound.importer hstack hfilled
      obtain ⟨x, hp, -⟩ := ht.filling p key' env code time (hstack ▸ List.mem_cons_of_mem _ hmem)
      have hshows : c.Shows k key found := .inr (.inr ⟨u, _, hstack ▸ List.mem_cons_self, .inr rfl⟩)
      rcases ht.shown key found hshows with ⟨d, code', x', hd⟩ | ⟨_, _, _, _, hstack'⟩
      · obtain rfl := (ht.ran d key found code' x' hd).1.unique (hknown hstack)
        refine ⟨p, key', code, x, d, code', x', hp.mono hsubset, hd.mono hsubset, ?_⟩
        rw [hworld]
        exact hc.imported d key _ _ p hstack hscript
      · rw [hstack] at hstack'
        cases hstack'

theorem Path.told (h : Path (· = k) thread (World.Amends edits) c c') (hc : c.Standing thread k)
    (ht : c.Told T k) : c'.Standing thread k ∧ c'.Told T k := by
  induction h with
  | refl => exact ⟨hc, ht⟩
  | tail _ hstep ih => exact ⟨ih.1.step hstep, hstep.told ih.1 ih.2⟩

theorem Path.stamps {H : List (Moment L)} {w : World L} {value : Value} {crew : WorkerId → Prop}
    {aside : World L → World L → Prop}
    (h : Path crew thread aside ⟨.load k u key (.filling env code time) :: s, H, w⟩ c')
    (hreturned : Returned H (.execute code k env) (.done (.ok value))) (hend : c'.stack = []) :
    ∃ z y after, ReflTransGen aside w z ∧
      ReflTransGen aside
        ((z.stamp env (z.checksumAt u time)).closed k u key (Activity.script k s) (.ok env)) y ∧
      c'.history = H ++ ⟨Activity.frames s, .left (.load k u key) (.done (.ok env)), y⟩ :: after := by
  generalize hc : (⟨.load k u key (.filling env code time) :: s, H, w⟩ : Config L) = c at h
  induction h using ReflTransGen.head_induction_on generalizing w with
  | refl =>
    rw [← hc] at hend
    cases hend
  | head hstep hrest ih =>
    subst hc
    rcases hstep.of_filling hreturned with ⟨v, hv, rfl⟩ | ⟨_, -, rfl⟩ | ⟨_, hfailed, -⟩ | ⟨_, hfailed, -⟩
    · obtain ⟨z, y, after, hz, hy, hafter⟩ := ih rfl
      exact ⟨z, y, after, hz.head hv, hy, hafter⟩
    · obtain ⟨y, after, hy, hafter⟩ := Path.leaves hrest hend
      exact ⟨w, y, after, .refl, hy, hafter⟩
    · cases hfailed
    · cases hfailed

/-- A module that a body has obtained from an import was filled by a body that was kept with one time, and
the importing unit leads to its unit. -/
theorem Told.imports (ht : c.Told T k) (hc : c.Standing thread k)
    (hmem : .load k u key (.filling env code time) ∈ c.stack) {key' : String}
    (hbinds : Binds (T ++ c.history) k env key' found) (hne : key' ≠ key) :
    ∃ d time', c.world.Holds k d key' ∧ c.world.LeadsTo u d ∧
      Built (T ++ c.history) k d key' found time' ∧
      ∀ v key'' time'', Built (T ++ c.history) k v key'' found time'' →
        v = d ∧ key'' = key' ∧ time'' = time' := by
  have hscripted := (hc.sound.seated.workers k rfl).scripted
  have hload : k = k ∧ c.world.Holds k u key := hc.sound.seated.known _ hmem
  obtain ⟨x, hran, -⟩ := ht.filling u key env code time hmem
  obtain ⟨p, key₁, code₁, x₁, d, code', x', hp, hd, hdepends⟩ := ht.bound env key' found hbinds
  obtain ⟨rfl, -⟩ := ht.sole env u key code x p key₁ code₁ x₁ hran hp
  obtain ⟨hheld, time', hcompiled⟩ := ht.ran d key' found code' x' hd
  refine ⟨d, time', hheld, ?_, ⟨code', x', hd, hcompiled⟩, ?_⟩
  · rcases hdepends with hmem | rfl
    · exact .single hmem
    · exact (hne ((hheld.unitKey hscripted).symm.trans (hload.2.unitKey hscripted))).elim
  · rintro v key'' time'' ⟨code'', x'', hran'', hcompiled''⟩
    obtain ⟨rfl, rfl, rfl, rfl⟩ := ht.sole found d key' code' x' v key'' code'' x'' hd hran''
    rw [hcompiled] at hcompiled''
    cases hcompiled''
    exact ⟨rfl, rfl, rfl⟩

theorem Told.counts (ht : c.Told T k) (hc : c.Standing thread k)
    (hmem : .load k u key (.filling env code time) ∈ c.stack) {z y : World L} {parent : Option UnitId}
    {answer : Answer EnvironmentId} (hz : c.world.Retains edits z)
    (hy : ((z.stamp env (z.checksumAt u time)).closed k u key parent answer).Retains edits y) :
    ∃ counted, Counts edits (T ++ c.history) k u key env c.world y time z.storage counted := by
  have hscripted := (hc.sound.seated.workers k rfl).scripted
  have hload : k = k ∧ c.world.Holds k u key := hc.sound.seated.known _ hmem
  have henv : env < c.world.environments.size := hc.sound.bounded k key env rfl (.of_module? hmem rfl)
  obtain ⟨x, hran, hcompiled⟩ := ht.filling u key env code time hmem
  obtain ⟨counted, hsum, hdistinct, hentries⟩ := hz.exists_counted hscripted hc.linked hload.2 time
  obtain ⟨hstamp, hafter⟩ := hy.stamped (Nat.lt_of_lt_of_le henv hz.beside.environments)
    ((hz.environment env henv).2.trans (hc.alone u key _ env hmem rfl).1)
  refine ⟨counted, ⟨⟨code, x, hran, hcompiled⟩, hz.passes, hafter, hsum ▸ hstamp, hdistinct, hentries, ?_⟩⟩
  intro key' found hbinds hne
  obtain ⟨d, time', hheld, hlead, hbuilt, hsole⟩ := ht.imports hc hmem hbinds hne
  obtain ⟨resource, hscript⟩ := hscripted.script hheld
  refine ⟨d, resource, time', hlead, hscript, hbuilt, hsole, ?_⟩
  rw [hentries]
  constructor
  · rintro (⟨heq, -⟩ | ⟨-, q, resource', hlead', hscript', rfl⟩)
    · exact (hne heq).elim
    · exact (hz.keyVersion hscripted hc.linked hload.2 hlead hscript).2.symm.trans
        (hz.keyVersion hscripted hc.linked hload.2 hlead' hscript').2
  · exact fun heq => .inr ⟨hne, d, resource, hlead, hscript, heq.symm⟩

theorem standing_of_rests {w : World L} (thread : ThreadId) (hrests : w.Rests (· = k))
    (hlinked : w.Linked k) (hkeyed : w.Keyed) : Standing thread k ⟨[], [], w⟩ where
  sound := hrests.sound
  linked := hlinked
  keyed := hkeyed
  alone _ _ _ _ hmem := nomatch hmem
  imported _ _ _ _ _ hstack := nomatch hstack
  unbroken _ _ _ _ _ _ _ hstack := nomatch hstack

theorem told_of_cold {w : World L} (h : w.Cold k) : Told [] k ⟨[], [], w⟩ where
  bounded _ _ _ _ _ := fun ⟨_, hmem⟩ => nomatch hmem
  unrun _ _ _ _ _ _ _ _ _ hmem := nomatch hmem
  sole _ _ _ _ _ _ _ _ _ := fun ⟨_, hmem⟩ => nomatch hmem
  ran _ _ _ _ _ := fun ⟨_, hmem⟩ => nomatch hmem
  registered _ _ _ _ _ _ hstack := nomatch hstack
  filling _ _ _ _ _ hmem := nomatch hmem
  shown key env := by
    rintro (hget | ⟨-, hpos⟩ | ⟨_, _, hmem, -⟩)
    · rw [h.stored] at hget
      cases hget
    · cases hpos
    · cases hmem
  bound _ _ _ hbinds := by
    obtain ⟨_, _, _, hmem, -⟩ := hbinds
    cases hmem

theorem Told.rests {t : List (Moment L)} {w : World L} (h : Told T k ⟨[], t, w⟩) :
    Told (T ++ t) k ⟨[], [], w⟩ where
  bounded := by simpa using h.bounded
  unrun _ _ _ _ _ _ _ _ _ hmem := nomatch hmem
  sole := by simpa using h.sole
  ran := by simpa using h.ran
  registered _ _ _ _ _ _ hstack := nomatch hstack
  filling _ _ _ _ _ hmem := nomatch hmem
  shown key env hshows := by simpa using h.shown key env hshows
  bound := by simpa using h.bound

end Steps

theorem Path.counts {thread : ThreadId} {edits : Storage → Storage → Prop} {k : WorkerId}
    {T t before after : List (Moment L)} {w w' : World L} {frames : List (Frame L)} {u : UnitId}
    {key : String} {code : L.Body} {env : EnvironmentId} {value : Value} {x : World L}
    (h : Path (· = k) thread (World.Amends edits) ⟨[], [], w⟩ ⟨[], t, w'⟩)
    (hc : Standing thread k ⟨[], [], w⟩) (ht : Told T k ⟨[], [], w⟩)
    (heq : t = before ++
      ⟨.load k u key :: frames, .left (.call (.execute code k env)) (.done (.ok value)), x⟩ :: after) :
    ∃ y after', after = ⟨frames, .left (.load k u key) (.done (.ok env)), y⟩ :: after' ∧
      ∃ time storage counted, Counts edits (T ++ before) k u key env x y time storage counted := by
  obtain hlt | ⟨c₁, ⟨stack, H, v⟩, h₁, hstep, rfl, hadded, h₂⟩ := Path.split h heq
  · cases hlt
  obtain ⟨hc₁, ht₁⟩ := Path.told h₁ hc ht
  obtain ⟨hstack, rfl, hframes, rfl⟩ := hstep.of_left_call hadded
  obtain rfl : H = _ := hadded
  -- below the body its load fills the module
  have hshaped := hc₁.sound.nested.shaped
  rw [hstack] at hshaped
  obtain ⟨u', key', time, below, rfl⟩ := hshaped.1
  cases hframes
  have hmem : .load k u key (.filling env code time) ∈ c₁.stack :=
    hstack ▸ List.mem_cons_of_mem _ List.mem_cons_self
  obtain ⟨z, y, after', hz, hy, hafter⟩ := Path.stamps h₂ ⟨_, _, _, rfl⟩ rfl
  refine ⟨y, after', ?_, time, z.storage,
    ht₁.counts hc₁ hmem (retains_of_amends hz) (retains_of_amends hy)⟩
  have hsame := heq.symm.trans hafter
  simpa [Activity.frames] using hsame

end Config

/-- Whenever the body that fills a module has come back, the load of the module leaves next, and the stamp
that it leaves counts the time with which the body was kept and the times that sources have when it is
taken. -/
def StampsCount (edits : Storage → Storage → Prop) (k : WorkerId) (T : List (Moment L)) : Prop :=
  ∀ before after frames u key code env value x, T = before ++
      ⟨.load k u key :: frames, .left (.call (.execute code k env)) (.done (.ok value)), x⟩ :: after →
    ∃ y after', after = ⟨frames, .left (.load k u key) (.done (.ok env)), y⟩ :: after' ∧
      ∃ time storage counted, Counts edits before k u key env x y time storage counted

theorem StampsCount.append {edits : Storage → Storage → Prop} {k : WorkerId} {T t : List (Moment L)}
    (hT : StampsCount edits k T)
    (ht : ∀ before after frames u key code env value x, t = before ++
        ⟨.load k u key :: frames, .left (.call (.execute code k env)) (.done (.ok value)), x⟩ :: after →
      ∃ y after', after = ⟨frames, .left (.load k u key) (.done (.ok env)), y⟩ :: after' ∧
        ∃ time storage counted, Counts edits (T ++ before) k u key env x y time storage counted) :
    StampsCount edits k (T ++ t) := by
  intro before after frames u key code env value x heq
  rcases List.append_eq_append_iff.1 heq with ⟨early, rfl, hlate⟩ | ⟨late, hearly, hlate⟩
  · exact ht early after frames u key code env value x hlate
  · cases late with
    | nil =>
      obtain rfl : T = before := by simpa using hearly
      simpa using ht [] after frames u key code env value x hlate.symm
    | cons m late =>
      obtain ⟨rfl, rfl⟩ := List.cons.inj hlate
      obtain ⟨y, after', rfl, hcounts⟩ := hT before late frames u key code env value x hearly
      exact ⟨y, after' ++ t, rfl, hcounts⟩

namespace Setting

variable {S : Setting L} {k : WorkerId} {names : String → Prop} {start w : World L}
  {operations : List (List (Moment L))}

theorem Operates.stampsCount (hS : S.interpreter.Scripting (· = k) names (Request.Amending S.edits))
    (hstart : start.Cold k)
    (h : S.Operates (World.Amends S.edits) (Request.CallsOn (· = k) names) start operations w) :
    StampsCount S.edits k operations.flatten := by
  have hall : (w.Rests (· = k) ∧ w.Linked k ∧ w.Keyed ∧ Config.Told operations.flatten k ⟨[], [], w⟩) ∧
      StampsCount S.edits k operations.flatten := by
    induction h with
    | start =>
      refine ⟨⟨hstart.rests, hstart.linked, hstart.keyed, Config.told_of_cold hstart⟩, ?_⟩
      intro before after frames u key code env value x heq
      simp at heq
    | between _ hmove ih =>
      obtain ⟨⟨hrests, hlinked, hkeyed, htold⟩, hcounts⟩ := ih
      have hstep : Config.Step (· = k) (.caller 0) _ ⟨[], [], _⟩ ⟨[], [], _⟩ := .aside hmove
      have hc := Config.standing_of_rests (.caller 0) hrests hlinked hkeyed
      have hc' := hc.step hstep
      exact ⟨⟨hc'.sound.rests, hc'.linked, hc'.keyed, hstep.told hc htold⟩, hcounts⟩
    | @operation operations w w' thread depth request o t _ hasks hrun ih =>
      obtain ⟨⟨hrests, hlinked, hkeyed, htold⟩, hcounts⟩ := ih
      have hpath := path_operation (suits_amends hS) hrests hasks hrun
      have hc := Config.standing_of_rests thread hrests hlinked hkeyed
      obtain ⟨hc', htold'⟩ := Config.Path.told hpath hc htold
      rw [List.flatten_append, List.flatten_singleton]
      exact ⟨⟨hc'.sound.rests, hc'.linked, hc'.keyed, htold'.rests⟩,
        hcounts.append fun _ _ _ _ _ _ _ _ _ heq => Config.Path.counts hpath hc htold heq⟩
  exact hall.2

/-- Whenever and by whomever sources are edited, a stamp counts for each import the time that its source has
when the stamp is taken. So it counts the time of the module that was imported if and only if the source has
that time again or still. -/
theorem Serves.stamps_count (hS : S.interpreter.Scripting (· = k) names (Request.Amending S.edits))
    (hstart : start.Cold k)
    (h : S.Serves (World.Amends S.edits) (Request.CallsOn (· = k) names) start w) :
    S.Shows (World.Amends S.edits) (Request.CallsOn (· = k) names) start w fun operations =>
      StampsCount S.edits k operations.flatten :=
  h.shows fun _ hshown => hshown.stampsCount hS hstart

end Setting

namespace Importing

def touched : Repository := .memory 1 "two" ""

def touching {L : Language} {α : Type} : Code L α → Code L α
  | .ended outcome => .ask (.edit touched .touch) fun _ => .ended outcome
  | .ask request next => .ask request fun outcome => touching (next outcome)

def importOther (source : String) : List (Line String) := if source.isEmpty then [.imports "b"] else []

def touchInterpreter : Interpreter (language String) where
  code
    | .execute [] k env => body id k env []
    | .execute (line :: rest) k env => touching (body id k env (line :: rest))
    | callee => (interpreter id importOther).code callee
  effect effect := nomatch (effect : Empty)

def touchHost : Setting (language String) :=
  ⟨touchInterpreter, fun s s' => ∃ now, s' = s.bump 1 now⟩

def twoStores : World (language String) :=
  let (one, storage) := Storage.empty.createStore "one" 0
  let (two, storage) := storage.createStore "two" 0
  let storage := (storage.writeEntry 0 "" "a.yx" ByteArray.empty).writeEntry 1 "" "b.yx" ⟨#[98]⟩
  let w : World (language String) :=
    { World.create Files.Tree.empty 0 1 0 () with storage := storage }
  let (r, w) := w.createResolver (.repositories [one, two] "yx" Dictionary.empty) Environment.globalScope
  let (counter, w) := w.addCounter
  (w.addWorker r { WorkerConfig.defaults with reloading := true } counter).2

theorem cold_twoStores : twoStores.Cold 0 where
  rests := by
    constructor
    case row =>
      rintro k rfl
      exact Nat.one_pos
    case scripted =>
      rintro k rfl
      exact ⟨Dictionary.empty, rfl, fun _ _ h => nomatch h⟩
    case serializer =>
      rintro k rfl
      rfl
    case mode =>
      rintro k rfl
      rfl
    case stored =>
      rintro k key env rfl hget
      cases hget
  stored _ := rfl
  linked u key v h := by
    obtain ⟨scripts, hs, hu⟩ := h
    cases hs
    cases hu
  keyed p unit key v hp := by cases hp

theorem only_touching {L : Language} {α : Type} {P : Request L → Prop} {code : Code L α} (h : code.Only P)
    (hedit : P (.edit touched .touch)) : (touching code).Only P := by
  induction code with
  | ended outcome => exact ⟨hedit, fun _ => trivial⟩
  | ask request next ih => exact ⟨h.1, fun outcome => ih outcome (h.2 outcome)⟩

theorem scripting_touch :
    touchInterpreter.Scripting (· = 0) (fun _ => True) (Request.Amending touchHost.edits) where
  compiling _ _ := trivial
  executing lines k env hk := by
    have hbody (lines : List (Line String)) : (body id k env lines).Only fun request =>
        request.CallsOn (· = 0) (fun _ => True) ∨ request.Amending touchHost.edits :=
      only_body id (fun _ => .inl ⟨hk, trivial⟩) (fun _ _ => .inr (.inl trivial)) lines
    have hedit : (Request.edit touched .touch : Request (language String)).Amending touchHost.edits :=
      .inr ⟨touched, .touch, rfl, Program.Moves.bind
        (Program.moves_modify fun w => ⟨_, ⟨w.wallClock, rfl⟩, rfl⟩) fun _ => trivial⟩
    cases lines with
    | nil => exact hbody []
    | cons line rest => exact only_touching (hbody (line :: rest)) (.inr hedit)
  calling closure := nomatch (closure : Empty)

instance : DecidableEq (language String).Body := inferInstanceAs (DecidableEq (List (Line String)))

def built? (k : WorkerId) :
    Moment (language String) → Option (UnitId × String × EnvironmentId × UInt64)
  | ⟨.load j u key :: _, .entered (.call (.execute code i env)), x⟩ =>
    if j = k ∧ i = k then
      (x.compiled u).bind fun kept => if kept.1 = code then some (u, key, env, kept.2) else none
    else none
  | _ => none

theorem built_of_mem {k : WorkerId} {u : UnitId} {key : String} {env : EnvironmentId} {time : UInt64}
    {t : List (Moment (language String))} (h : (u, key, env, time) ∈ t.filterMap (built? k)) :
    Built t k u key env time := by
  obtain ⟨m, hmem, hm⟩ := List.mem_filterMap.1 h
  unfold built? at hm
  split at hm
  · split at hm
    · next hk =>
      obtain ⟨⟨code, time'⟩, hkept, hsame⟩ := Option.bind_eq_some_iff.1 hm
      obtain ⟨rfl, rfl⟩ := hk
      split at hsame
      · next hcode =>
        cases hcode
        cases hsame
        exact ⟨code, _, ⟨_, hmem⟩, hkept⟩
      · cases hsame
    · cases hm
  · cases hm

def countsLate (w : World (language String)) : List (List (Moment (language String))) → Bool
  | [t, t'] =>
    (w.environment 1).checksum =
      some (DependencyGraph.total entryHash [("memory:one/a.yx", 0), ("memory:two/b.yx", 1)]) &&
    t.filterMap (Moment.binding? 0) = [(1, "memory:two/b.yx", 2)] &&
    t.filterMap (built? 0) = [(0, "memory:one/a.yx", 1, 0), (1, "memory:two/b.yx", 2, 0)] &&
    t'.filterMap (ended? 0) = [(0, "memory:one/a.yx", some 1)] && t'.filterMap (built? 0) = []
  | _ => false

/-- A body touches the source of a module that it has imported. Its own module is stamped as if the import had
been filled since, and from then on loads come to it. -/
theorem touched_import_counted_late : ∃ t t' w,
    touchHost.Operates (World.Amends touchHost.edits) (Request.CallsOn (· = 0) fun _ => True) twoStores
      [t, t'] w ∧
    StampsCount touchHost.edits 0 [t, t'].flatten ∧
    Binds t 0 1 "memory:two/b.yx" 2 ∧ Built t 0 1 "memory:two/b.yx" 2 0 ∧
    (w.environment 1).checksum =
      some (DependencyGraph.total entryHash [("memory:one/a.yx", 0), ("memory:two/b.yx", 1)]) ∧
    Loaded t' 0 0 "memory:one/a.yx" 1 ∧ t'.filterMap (built? 0) = [] := by
  have heval : ((touchHost.playOperations (.caller 0) 3
      [.loadModule 0 none "a", .loadModule 0 none "a"] twoStores).any
      fun played => countsLate played.2 played.1) = true := by
    decide +kernel
  obtain ⟨⟨operations, w⟩, hplay, hshown⟩ := (Option.any_eq_true _ _).1 heval
  dsimp only [countsLate] at hshown
  split at hshown
  case h_2 => cases hshown
  case h_1 t t' =>
  simp only [Bool.and_eq_true, decide_eq_true_eq] at hshown
  obtain ⟨⟨⟨⟨hsum, hbound⟩, hbuilt⟩, hended⟩, hnone⟩ := hshown
  have hasks : ∀ request ∈ [(Request.loadModule 0 none "a" : Request (language String)),
      .loadModule 0 none "a"], request.CallsOn (· = 0) fun _ => True := by
    intro request hrequest
    obtain rfl : request = .loadModule 0 none "a" := by simpa using hrequest
    exact ⟨rfl, trivial⟩
  have hoperates : touchHost.Operates (World.Amends touchHost.edits)
      (Request.CallsOn (· = 0) fun _ => True) twoStores [t, t'] w :=
    Setting.operates_of_play hasks hplay
  have hcounts := Setting.Serves.stamps_count scripting_touch cold_twoStores hoperates.serves
  exact ⟨t, t', w, hoperates, hcounts.2 _ hoperates, binds_iff.2 (by simp [hbound]), built_of_mem (by simp [hbuilt]), hsum,
    loaded_of_mem (by simp [hended]), hnone⟩

end Importing

end ScriptWorker
