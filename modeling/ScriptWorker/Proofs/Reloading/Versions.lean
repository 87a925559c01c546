import ScriptWorker.Proofs.Reloading.Traces

/-!
# Modules of the versions that sources have

A module that a call offers was filled by a body of the version that its source has, and so was every
module to which its bindings lead. The stamp of a stored module vouches for the versions of a moment of
the past; if it is fresh, these are the versions of now.
-/

namespace ScriptWorker

open Relation World

variable {L : Language}

/-- Wherever the bindings of a module lead, a body of the version of now has filled the module of a unit
to which its unit leads. -/
def Current (T : List (Moment L)) (w : World L) (k : WorkerId) (u : UnitId) (env : EnvironmentId) :
    Prop :=
  ∀ found, Reaches T k env found → ∃ v key code x, Ran T k v key found code x ∧ w.Holds k v key ∧
    w.LeadsTo u v ∧ x.unitVersion v = w.unitVersion v

/-- Wherever the bindings of a module lead, a body of the version of a moment has filled the module of a
unit to which its unit leads, if there was the unit at that moment; and the stamp is that of the moment. -/
def Vouched (T : List (Moment L)) (w : World L) (k : WorkerId) (u : UnitId) (key : String)
    (env : EnvironmentId) : Prop :=
  ∃ m ∈ T, m.world.Holds k u key ∧ (w.environment env).checksum = some (m.world.unitChecksum u) ∧
    ∀ found, Reaches T k env found → ∃ v key code x, Ran T k v key found code x ∧ w.Holds k v key ∧
      w.LeadsTo u v ∧ (m.world.Holds k v key → x.unitVersion v = m.world.unitVersion v)

section Vouched

variable {T : List (Moment L)} {w : World L} {k : WorkerId} {u : UnitId} {key : String}
  {env : EnvironmentId} {m l : Moment L}

/-- What a unit leads to now, at the versions of now, it led to when a checksum was taken that is right
now. -/
theorem Distinguished.version (hdistinct : Distinguished k T) (hm : m ∈ T) (hl : l ∈ T)
    (hprecedes : ∀ m ∈ T, m.world.Precedes k w) (hmu : m.world.Holds k u key)
    (hlu : l.world.Holds k u key) (hsame : m.world.unitChecksum u = l.world.unitChecksum u)
    {v : UnitId} {key' : String} (hlead : l.world.LeadsTo u v) (hv : l.world.Holds k v key') :
    m.world.Holds k v key' ∧ m.world.LeadsTo u v ∧ m.world.unitVersion v = l.world.unitVersion v := by
  have hbefore := hprecedes m hm
  have hcovers : m.world.Covers u key' (l.world.unitVersion v) :=
    (hdistinct m hm l hl u key hmu hlu hsame key' _).2 (hv.covers (hprecedes l hl).scripted hlead)
  obtain ⟨p, hlead', hp, hversion⟩ := hcovers.exists_holds hbefore.scripted hbefore.linked hmu
  obtain rfl := (hbefore.holds p key' hp).unique ((hprecedes l hl).holds v key' hv)
  exact ⟨hp, hlead', hversion⟩

/-- A stamp that is right now vouches for the versions of now. -/
theorem Vouched.current (hv : Vouched T w k u key env) (hdistinct : Distinguished k T)
    (hprecedes : ∀ m ∈ T, m.world.Precedes k w) (hscripted : w.Scripted k) (hlinked : w.Linked k)
    (hl : l ∈ T) (hlu : l.world.Holds k u key) (habreast : l.world.Abreast k w)
    (hfresh : w.isFresh u env) : Current T w k u env := by
  obtain ⟨m, hm, hmu, hstamp, hreaches⟩ := hv
  have hnow := hprecedes l hl
  have hlsum : w.unitChecksum u = l.world.unitChecksum u :=
    habreast.unitChecksum_eq hnow.scripted hnow.linked hscripted hlinked hlu
  have hsame : m.world.unitChecksum u = l.world.unitChecksum u := by
    have hright : (w.environment env).checksum = some (w.unitChecksum u) := of_decide_eq_true hfresh
    exact Option.some.inj (hstamp.symm.trans (hright.trans (congrArg some hlsum)))
  intro found hfound
  obtain ⟨v, key', code, x, hran, hheld, hlead, hversion⟩ := hreaches found hfound
  have hlead' := habreast.leadsTo_iff.1 hlead
  obtain ⟨key'', hlv⟩ := hlead'.holds hnow.linked hlu
  obtain rfl : key'' = key' :=
    ((hnow.holds v key'' hlv).unitKey hscripted).symm.trans (hheld.unitKey hscripted)
  obtain ⟨hmv, -, hversion'⟩ := hdistinct.version hm hl hprecedes hmu hlu hsame hlead' hlv
  exact ⟨v, key'', code, x, hran, hheld, hlead,
    (hversion hmv).trans (hversion'.trans (habreast.grows.versions v key'' hlv).symm)⟩

end Vouched

namespace Config

/-- What a call offers is current, and what is stored is so too or was vouched for before the call. -/
structure Upheld (T : List (Moment L)) (start : World L) (k : WorkerId) (c : Config L) : Prop where
  offered : ∀ key env, c.Offers k key env → ∃ u, c.world.Holds k u key ∧
    (Current (T ++ c.history) c.world k u env ∨
      ∃ code time s, c.stack = .load k u key (.registered env code time) :: s)
  stored : ∀ key env, (c.world.worker k).cache.get? key = some env → ∃ u, c.world.Holds k u key ∧
    (env < start.environments.size ∧ Vouched T start k u key env ∨
      (∃ m ∈ c.history, m.world.Holds k u key ∧
        (c.world.environment env).checksum = some (m.world.unitChecksum u)) ∧
      Current (T ++ c.history) c.world k u env)

section Steps

variable {thread : ThreadId} {aside : World L → World L → Prop} {c c' : Config L} {k : WorkerId}
  {u : UnitId} {key : String} {env : EnvironmentId} {s : List (Activity L)} {code : L.Body}
  {time : UInt64} {T : List (Moment L)} {start : World L}

theorem Regular.below (hc : c.Regular thread k) {stage stage' : Stage L} {v : UnitId} {key' : String}
    (hstack : c.stack = .load k u key stage :: s) (hmem : .load k v key' stage' ∈ s) :
    ∃ env code time, stage' = .filling env code time := by
  have hshaped := hc.sound.nested.shaped
  rw [hstack] at hshaped
  exact Activity.filling_of_mayLoad hshaped.2 hshaped.1 hmem

theorem Upheld.gives (hu : c.Upheld T start k) (hc : c.Regular thread k) {stage : Stage L}
    (hstack : c.stack = .load k u key stage :: s) (hgives : stage.Gives env)
    (hstage : ∀ code time, stage ≠ .registered env code time) :
    Current (T ++ c.history) c.world k u env := by
  have hmem : .load k u key stage ∈ c.stack := hstack ▸ List.mem_cons_self
  have hload : k = k ∧ c.world.Holds k u key := hc.sound.seated.known _ hmem
  obtain ⟨v, hv, hcurrent | ⟨code, time, s', hstack'⟩⟩ :=
    hu.offered key env (.inr (.inl ⟨u, stage, hmem, hgives⟩))
  · exact hv.unique hload.2 ▸ hcurrent
  · rw [hstack] at hstack'
    cases hstack'
    exact (hstage code time rfl).elim

theorem Step.current (haside : ∀ w w', aside w w' → w.Apart w') (h : Step (· = k) thread aside c c')
    (hc : c.Regular thread k) (ht : c.Traced T start k) (hu : c.Upheld T start k)
    (hcurrent : Current (T ++ c.history) c.world k u env) :
    Current (T ++ c'.history) c'.world k u env := by
  have hseat := hc.sound.seated
  have hgrows := h.grows haside hseat
  have hkeep {found v key' code x} (hran : Ran (T ++ c.history) k v key' found code x)
      (hheld : c.world.Holds k v key') (hlead : c.world.LeadsTo u v)
      (hversion : x.unitVersion v = c.world.unitVersion v) :
      ∃ v key' code x, Ran (T ++ c'.history) k v key' found code x ∧ c'.world.Holds k v key' ∧
        c'.world.LeadsTo u v ∧ x.unitVersion v = c'.world.unitVersion v :=
    ⟨v, key', code, x, hran.mono h.history_subset, hgrows.holds v key' hheld, hgrows.leadsTo hlead,
      hversion.trans (hgrows.versions v key' hheld).symm⟩
  intro found hfound
  by_cases hnew : ∃ p key' a b, c.stack = .load k p key' (.settled (.done (.ok b))) :: c'.stack ∧
      Frame.filled? (Activity.frames c'.stack) = some a
  · -- a module is bound, and the one to which it is bound leads to its unit
    obtain ⟨p, key', a, b, hstack, hfilled⟩ := hnew
    have hone env key found (hb : Binds (T ++ c'.history) k env key found) :
        Binds (T ++ c.history) k env key found ∨ env = a ∧ found = b := by
      refine (h.binds hb).imp_right fun ⟨p', hstack', _, hfilled'⟩ => ?_
      rw [hstack] at hstack'
      cases hstack'
      exact ⟨Option.some.inj (hfilled'.symm.trans hfilled), rfl⟩
    rcases reaches_insert hone hfound with hbefore | ⟨hto, hfrom⟩
    · obtain ⟨v, key₁, code, x, hran, hheld, hlead, hversion⟩ := hcurrent found hbefore
      exact hkeep hran hheld hlead hversion
    · obtain ⟨v, key₁, code, x, hran, -, hlead, -⟩ := hcurrent a hto
      obtain ⟨q, key₂, code', time, hmem, hscript⟩ := hc.sound.importer hstack hfilled
      obtain ⟨y, hran', -⟩ := ht.filling q key₂ a code' time (hstack ▸ List.mem_cons_of_mem _ hmem)
      obtain ⟨rfl, -⟩ := ht.sole a v key₁ code x q key₂ code' y hran hran'
      have hedge : c.world.LeadsTo q p := by
        rcases hc.imported p key' _ _ q hstack hscript with hmem | rfl
        · exact .single hmem
        · exact .refl
      have hbound := hu.gives hc hstack (.inr rfl) fun _ _ h => nomatch h
      obtain ⟨v', key₃, code₁, x', hran', hheld', hlead', hversion'⟩ := hbound found hfrom
      exact hkeep hran' hheld' (hlead.trans (hedge.trans hlead')) hversion'
  · have hsame env key found (hb : Binds (T ++ c'.history) k env key found) :
        Binds (T ++ c.history) k env key found :=
      (h.binds hb).elim id fun ⟨p, hstack, _, hfilled⟩ => (hnew ⟨p, key, env, found, hstack, hfilled⟩).elim
    obtain ⟨v, key₁, code, x, hran, hheld, hlead, hversion⟩ :=
      hcurrent found (reaches_of_binds hsame hfound)
    exact hkeep hran hheld hlead hversion

theorem Step.unbound (h : Step (· = k) thread aside c c') (ht : c.Traced T start k)
    (hstack : c.stack = .load k u key (.registered env code time) :: s) {key' : String}
    {found : EnvironmentId} : ¬ Binds (T ++ c'.history) k env key' found := by
  intro hb
  rcases h.binds hb with hbefore | ⟨p, hstack', -⟩
  · obtain ⟨v, key₁, code₁, x, hran⟩ := ht.bound env key' found hbefore
    exact ht.unrun u key env code time v key₁ code₁ x (hstack ▸ List.mem_cons_self) hran
  · rw [hstack] at hstack'
    cases hstack'

theorem Step.begins (h : Step (· = k) thread aside c c') (hc : c.Regular thread k)
    (ht : c.Traced T start k) (hstack : c.stack = .load k u key (.registered env code time) :: s)
    {frames : List (Frame L)} (hadded : c'.history = c.history ++
      [⟨.load k u key :: frames, .entered (.call (.execute code k env)), c.world⟩]) :
    Current (T ++ c'.history) c'.world k u env := by
  have htop : .load k u key (.registered env code time) ∈ c.stack := hstack ▸ List.mem_cons_self
  have hload : k = k ∧ c.world.Holds k u key := hc.sound.seated.known _ htop
  have hworld := (h.moment hadded).2
  intro found hfound
  rcases hfound.cases_head with rfl | ⟨_, ⟨key', hb⟩, -⟩
  · refine ⟨u, key, code, c.world, ⟨frames, ?_⟩, hworld ▸ hload.2, .refl, by rw [hworld]⟩
    rw [hadded]
    exact List.mem_append_right _ (List.mem_append_right _ (List.mem_singleton_self _))
  · exact (h.unbound ht hstack hb).elim

theorem Upheld.reused (hu : c.Upheld T start k) (hc : c.Regular thread k) (ht : c.Traced T start k)
    (hdistinct : Distinguished k (T ++ c.history))
    (hbound : ∀ env key found, Binds T k env key found → found < start.environments.size)
    (hstack : c.stack = .load k u key .opened :: s)
    (hget : (c.world.worker k).cache.get? key = some env) (hfresh : c.world.isFresh u env) :
    Current (T ++ c.history) c.world k u env := by
  have hload : k = k ∧ c.world.Holds k u key :=
    hc.sound.seated.known (.load k u key .opened) (hstack ▸ List.mem_cons_self)
  obtain ⟨u', hheld, ⟨henv, m, hm, hmu, hstamp, hreaches⟩ | ⟨-, hcurrent⟩⟩ := hu.stored key env hget
  · obtain rfl := hheld.unique hload.2
    obtain ⟨l, hl, hlu, habreast⟩ := hc.noted u' key .opened s hstack fun _ h => nomatch h
    have hvouched : Vouched (T ++ c.history) c.world k u' key env := by
      refine ⟨m, List.mem_append_left _ hm, hmu, (ht.stamps env henv).trans hstamp, ?_⟩
      intro found hfound
      obtain ⟨v, key', code, x, hran, hv, hlead, hversion⟩ :=
        hreaches found (ht.reaches hbound henv hfound).1
      exact ⟨v, key', code, x, hran.mono (List.subset_append_left _ _), ht.grows.holds v key' hv,
        ht.grows.leadsTo hlead, hversion⟩
    exact hvouched.current hdistinct ht.precedes (hc.sound.seated.workers k rfl).scripted hc.linked
      (List.mem_append_right _ hl) hlu habreast hfresh
  · exact hheld.unique hload.2 ▸ hcurrent

theorem Step.stamp_stored (haside : ∀ w w', aside w w' → w.Apart w')
    (h : Step (· = k) thread aside c c') (hc : c.Regular thread k)
    (hget : (c.world.worker k).cache.get? key = some env) :
    (c'.world.environment env).checksum = (c.world.environment env).checksum := by
  have hmode : (c.world.worker k).cache.mode = .development := by
    rw [(hc.sound.seated.workers k rfl).mode, hc.reloading]
    rfl
  rcases h.stamps haside (hc.sound.bounded k key env rfl (.inl hget)) with
    hsame | ⟨j, v, key', code, time, s, hstack⟩
  · exact hsame
  · have hmem : .load j v key' (.filling env code time) ∈ c.stack := hstack ▸ List.mem_cons_self
    obtain rfl := hc.sound.seated.crew_of_mem hmem
    obtain rfl := (hc.alone v key' _ env hmem rfl).2 key (.inl hget)
    exact (hc.sound.unfinished j v key _ env hmem rfl hmode hget).elim

theorem Step.stamps_filled (h : Step (· = k) thread aside c c') (hc : c.Regular thread k)
    (ht : c.Traced T start k) (hstack : c.stack = .load k u key (.filling env code time) :: s)
    (hstack' : c'.stack = .load k u key (.settled (.done (.ok env))) :: s) :
    ∃ m ∈ c.history, m.world.Holds k u key ∧ m.world.Abreast k c.world ∧
      (c'.world.environment env).checksum = some (m.world.unitChecksum u) := by
  have hmem : .load k u key (.filling env code time) ∈ c.stack := hstack ▸ List.mem_cons_self
  have hscripted := (hc.sound.seated.workers k rfl).scripted
  obtain ⟨m, hm, hmu, habreast⟩ := hc.noted u key _ s hstack fun _ h => nomatch h
  have hstamp : ((c.world.stamp env (c.world.unitChecksum u)).environment env).checksum =
      some (c.world.unitChecksum u) :=
    checksum_stamp (hc.sound.bounded k key env rfl (.of_module? hmem rfl)) (hc.alone u key _ env hmem rfl).1
  refine ⟨m, hm, hmu, habreast, ?_⟩
  have hnow : (c'.world.environment env).checksum = some (c.world.unitChecksum u) := by
    rcases h.comes hc.sound.nested hstack' with hsame | ⟨stage, hbefore, hcomes⟩
    · rw [hstack, hstack'] at hsame
      cases hsame
    · rw [hstack] at hbefore
      cases hbefore
      generalize c'.world = w' at hcomes ⊢
      cases hcomes
      unfold World.environment at hstamp ⊢
      rw [environments_closed, ← hc.dated k u key _ time hmem rfl]
      exact hstamp
  have hbefore := ht.precedes m (List.mem_append_right _ hm)
  rw [hnow, habreast.unitChecksum_eq hbefore.scripted hbefore.linked hscripted hc.linked hmu]

theorem Step.upheld (haside : ∀ w w', aside w w' → w.Apart w') (h : Step (· = k) thread aside c c')
    (hc : c.Regular thread k) (ht : c.Traced T start k) (hdistinct : Distinguished k (T ++ c.history))
    (hbound : ∀ env key found, Binds T k env key found → found < start.environments.size)
    (hu : c.Upheld T start k) : c'.Upheld T start k := by
  have hbeside : ∀ w w', aside w w' → w.Beside w' := fun _ _ h => (haside _ _ h).beside
  have hseat := hc.sound.seated
  have hholds {u key} (hheld : c.world.Holds k u key) : c'.world.Holds k u key := h.holds hbeside hheld
  have hknown {v key' stage s} (hstack : c.stack = .load k v key' stage :: s) :
      c.world.Holds k v key' :=
    (hseat.known (.load k v key' stage) (hstack ▸ List.mem_cons_self)).2
  constructor
  case offered =>
    intro key env hoffers
    rcases h.offers hbeside hseat hc.reloading hoffers with hbefore | hadmits
    · obtain ⟨u, hheld, hcurrent | ⟨code, time, s, hstack⟩⟩ := hu.offered key env hbefore
      · exact ⟨u, hholds hheld, .inl (h.current haside hc ht hu hcurrent)⟩
      · refine ⟨u, hholds hheld, ?_⟩
        rcases h.of_registered hc.unbroken hstack with ⟨s', hstack'⟩ | ⟨frames, hadded⟩
        · exact .inr ⟨code, time, s', hstack'⟩
        · exact .inl (h.begins hc ht hstack hadded)
    · cases hadmits with
      | @reused u s hstack hget hfresh hstack' =>
        exact ⟨u, hholds (hknown hstack),
          .inl (h.current haside hc ht hu (hu.reused hc ht hdistinct hbound hstack hget hfresh))⟩
      | @registered u code time s hstack hstack' henv =>
        exact ⟨u, hholds (hknown hstack), .inr ⟨code, time, s, hstack'⟩⟩
  case stored =>
    intro key env hget
    rcases h.get? hbeside hseat hget with hbefore | ⟨hrelease, -⟩ | ⟨u, code, time, s, hstack, hstack'⟩
    · obtain ⟨u, hheld, hold | ⟨⟨m, hm, hmu, hstamp⟩, hcurrent⟩⟩ := hu.stored key env hbefore
      · exact ⟨u, hholds hheld, .inl hold⟩
      · refine ⟨u, hholds hheld, .inr ⟨⟨m, h.history_subset (T := []) hm, hmu, ?_⟩,
          h.current haside hc ht hu hcurrent⟩⟩
        exact (h.stamp_stored haside hc hbefore).trans hstamp
    · rw [(hseat.workers k rfl).mode, hc.reloading] at hrelease
      cases hrelease
    · obtain ⟨m, hm, hmu, -, hstamp⟩ := h.stamps_filled hc ht hstack hstack'
      have hcurrent := hu.gives hc hstack (.inl rfl) fun _ _ h => nomatch h
      exact ⟨u, hholds (hknown hstack), .inr ⟨⟨m, h.history_subset (T := []) hm, hmu, hstamp⟩,
        h.current haside hc ht hu hcurrent⟩⟩

end Steps

end Config

end ScriptWorker
