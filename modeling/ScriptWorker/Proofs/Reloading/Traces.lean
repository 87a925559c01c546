import ScriptWorker.Proofs.Reloading.Offers

/-!
# What a call leaves of the past

The modules that a call fills are new, so it binds nothing to a module of an earlier call and stamps none.
What the moments of earlier calls tell stays true, and the moments of the call tell which unit each new
module was filled for, and in which version.
-/

namespace ScriptWorker

open Relation World

variable {L : Language}

def Stage.isPrompt : Stage L → Bool
  | compiling .. => false
  | filling .. => false
  | settled _ => false
  | _ => true

namespace Config

/-- No code from outside has panicked just before a load goes on that waits for none. -/
def Unbroken (c : Config L) : Prop :=
  ∀ k u key stage s callee payload, c.stack = .load k u key stage :: s → stage.isPrompt →
    ¬ Returned c.history callee (.panic payload)

/-- What holds of a call on a worker that reloads, whatever went before. -/
structure Regular (thread : ThreadId) (k : WorkerId) (c : Config L) : Prop where
  sound : c.Sound (· = k) thread
  reloading : (c.world.worker k).config.reloading = true
  linked : c.world.Linked k
  keyed : c.world.Keyed
  dated : c.Dated
  alone : c.Alone k
  noted : c.Noted k
  imported : c.Imported k
  unbroken : c.Unbroken

/-- What a call has come to, in a world from which it started, after what showed before. -/
structure Traced (T : List (Moment L)) (start : World L) (k : WorkerId) (c : Config L) : Prop where
  grows : start.Grows k c.world
  environments : start.environments.size ≤ c.world.environments.size
  precedes : ∀ m ∈ T ++ c.history, m.world.Precedes k c.world
  later : ∀ m ∈ c.history, m.world.Grows k c.world
  modules : ∀ u key stage env, .load k u key stage ∈ c.stack → stage.module? = some env →
    start.environments.size ≤ env
  bounded : ∀ u key env code x, Ran (T ++ c.history) k u key env code x →
    env < c.world.environments.size
  bound : ∀ env key found, Binds (T ++ c.history) k env key found →
    ∃ u key' code x, Ran (T ++ c.history) k u key' env code x
  unrun : ∀ u key env code time v key' code' x, .load k u key (.registered env code time) ∈ c.stack →
    ¬ Ran (T ++ c.history) k v key' env code' x
  sole : ∀ env u key code x v key' code' x', Ran (T ++ c.history) k u key env code x →
    Ran (T ++ c.history) k v key' env code' x' → v = u ∧ code' = code
  filling : ∀ u key env code time, .load k u key (.filling env code time) ∈ c.stack →
    ∃ x, Ran (T ++ c.history) k u key env code x ∧ x.unitVersion u = c.world.unitVersion u
  found : ∀ env key found, Binds (T ++ c.history) k env key found → found < c.world.environments.size
  old : ∀ env key found, Binds (T ++ c.history) k env key found → env < start.environments.size →
    Binds T k env key found
  stamps : ∀ env, env < start.environments.size →
    (c.world.environment env).checksum = (start.environment env).checksum

section Steps

variable {thread : ThreadId} {aside : World L → World L → Prop} {c c' : Config L} {k : WorkerId}
  {u v : UnitId} {key : String} {env found : EnvironmentId} {s : List (Activity L)} {code : L.Body}
  {time : UInt64} {T : List (Moment L)} {start : World L}

theorem Step.unbroken (h : Step (· = k) thread aside c c') (hn : c.Nested) (hunbroken : c.Unbroken) :
    c'.Unbroken := by
  intro j u key stage s callee payload hstack hstage
  have hbefore {stage' : Stage L} (hbefore : c.stack = .load j u key stage' :: s)
      (hstage' : stage'.isPrompt) : ¬ Returned c.history callee (.panic payload) :=
    hunbroken j u key stage' s callee payload hbefore hstage'
  cases h with
  | aside h => exact hbefore hstack hstage
  | arrive hk hload hholds =>
    rintro ⟨before, frames, x, heq⟩
    have hlast := (List.append_inj' heq rfl).2
    cases hlast
  | compiled hscript hreturned =>
    intro hpanicked
    cases hreturned.eq hpanicked
  | leave =>
    subst hstack
    exact hn.shaped.1.elim
  | leaveInvoke =>
    subst hstack
    exact hn.shaped.1.elim
  | @comeBack s' H w callee' o =>
    subst hstack
    have hfits := hn.shaped.1
    cases callee' with
    | compile path source =>
      obtain ⟨_, _, _, _, _, _, hbelow⟩ := hfits
      cases hbelow
      cases hstage
    | execute code i env =>
      obtain ⟨_, _, _, _, hbelow⟩ := hfits
      cases hbelow
      cases hstage
    | call closure i this args =>
      obtain ⟨_, _, hbelow⟩ := hfits
      cases hbelow
    | _ => exact hfits.elim
  | _ =>
    first
    | (cases hstack; done)
    | (cases hstack; exact hbefore rfl rfl)
    | (cases hstack; cases hstage)

theorem Step.regular (haside : ∀ w w', aside w w' → w.Apart w') (h : Step (· = k) thread aside c c')
    (hc : c.Regular thread k) : c'.Regular thread k := by
  have hbeside : ∀ w w', aside w w' → w.Beside w' := fun _ _ h => (haside _ _ h).beside
  have hseat := hc.sound.seated
  exact ⟨h.sound hbeside hc.sound, h.config hbeside k ▸ hc.reloading,
    h.linked (fun _ _ hw => (haside _ _ hw).linked) hseat hc.linked, h.keyed haside hseat hc.keyed,
    h.dated haside hseat hc.dated, h.alone haside hc.sound rfl hc.alone,
    h.noted haside hseat hc.noted,
    h.imported haside hseat hc.sound.nested hc.keyed hc.linked hc.imported,
    h.unbroken hc.sound.nested hc.unbroken⟩

theorem Step.registered (h : Step (· = k) thread aside c c')
    (hmem : .load k u key (.registered env code time) ∈ c'.stack) :
    .load k u key (.registered env code time) ∈ c.stack ∨ env = c.world.environments.size := by
  cases h <;> grind

theorem Step.of_filling_mem (h : Step (· = k) thread aside c c')
    (hmem : .load k u key (.filling env code time) ∈ c'.stack) :
    .load k u key (.filling env code time) ∈ c.stack ∨
      ∃ s, c.stack = .load k u key (.registered env code time) :: s ∧ ∃ frames,
        c'.history = c.history ++
          [⟨.load k u key :: frames, .entered (.call (.execute code k env)), c.world⟩] := by
  cases h
  case execute s H w j u' key' env' code' time' =>
    rcases List.mem_cons.1 hmem with heq | hmem
    · cases heq
    · rcases List.mem_cons.1 hmem with heq | hmem
      · cases heq
        exact .inr ⟨s, rfl, _, rfl⟩
      · exact .inl (List.mem_cons_of_mem _ hmem)
  all_goals
    left
    grind

theorem Sound.importer (hc : c.Sound (· = k) thread) {stage : Stage L}
    (hstack : c.stack = .load k u key stage :: s)
    (hfilled : Frame.filled? (Activity.frames s) = some env) :
    ∃ p key' code time, .load k p key' (.filling env code time) ∈ s ∧ Activity.script k s = some p := by
  have hshaped := hc.nested.shaped
  rw [hstack] at hshaped
  refine Activity.script_of_filled? hshaped.2 hshaped.1 (fun j p key' stage' hmem => ?_) hfilled
  exact hc.seated.crew_of_mem (hstack ▸ List.mem_cons_of_mem _ hmem)

theorem Step.of_registered (h : Step (· = k) thread aside c c') (hunbroken : c.Unbroken)
    (hstack : c.stack = .load k u key (.registered env code time) :: s) :
    (∃ s, c'.stack = .load k u key (.registered env code time) :: s) ∨ ∃ frames, c'.history = c.history ++
      [⟨.load k u key :: frames, .entered (.call (.execute code k env)), c.world⟩] := by
  obtain ⟨stack, H, w⟩ := c
  obtain rfl : _ = _ := hstack
  cases h with
  | aside h => exact .inl ⟨s, rfl⟩
  | execute => exact .inr ⟨_, rfl⟩
  | arrive hk hload hholds => exact hload.elim
  | refuse hstage => cases hstage
  | crash hstage hreturned => exact (hunbroken k u key _ s _ _ rfl rfl hreturned).elim
  | arriveInvoke hk hcall => exact hcall.elim

theorem Step.bounded_ran (hbeside : ∀ w w', aside w w' → w.Beside w')
    (h : Step (· = k) thread aside c c') (hc : c.Sound (· = k) thread)
    (hbounded : ∀ u key env code x, Ran (T ++ c.history) k u key env code x →
      env < c.world.environments.size) {x : World L}
    (hran : Ran (T ++ c'.history) k u key env code x) : env < c'.world.environments.size := by
  have hsize := h.size hbeside
  rcases h.ran hran with hbefore | ⟨time, s, hstack, -⟩
  · exact Nat.lt_of_lt_of_le (hbounded u key env code x hbefore) hsize
  · have hmem : .load k u key (.registered env code time) ∈ c.stack := hstack ▸ List.mem_cons_self
    exact Nat.lt_of_lt_of_le (hc.bounded k key env rfl (.of_module? hmem rfl)) hsize

theorem Step.unrun (h : Step (· = k) thread aside c c') (hc : c.Sound (· = k) thread)
    (hbounded : ∀ u key env code x, Ran (T ++ c.history) k u key env code x →
      env < c.world.environments.size)
    (hunrun : ∀ u key env code time v key' code' x, .load k u key (.registered env code time) ∈ c.stack →
      ¬ Ran (T ++ c.history) k v key' env code' x) {key' : String} {code' : L.Body} {x : World L}
    (hmem : .load k u key (.registered env code time) ∈ c'.stack) :
    ¬ Ran (T ++ c'.history) k v key' env code' x := by
  intro hran
  rcases h.ran hran with hbefore | ⟨time', s, hstack, hstack', -⟩
  · rcases h.registered hmem with hmem' | rfl
    · exact hunrun u key env code time v key' code' x hmem' hbefore
    · exact Nat.lt_irrefl _ (hbounded v key' _ code' x hbefore)
  · -- below a body that has just begun every load fills its module
    have hshaped := hc.nested.shaped
    rw [hstack] at hshaped
    have hbelow : .load k u key (.registered env code time) ∈ s := by
      rw [hstack'] at hmem
      simpa using hmem
    obtain ⟨_, _, _, heq⟩ := Activity.filling_of_mayLoad hshaped.2 hshaped.1 hbelow
    cases heq

theorem Step.ran_sole (h : Step (· = k) thread aside c c')
    (hunrun : ∀ u key env code time v key' code' x, .load k u key (.registered env code time) ∈ c.stack →
      ¬ Ran (T ++ c.history) k v key' env code' x) {key' : String} {code' : L.Body} {x x' : World L}
    (hran : Ran (T ++ c'.history) k u key env code x)
    (hran' : Ran (T ++ c'.history) k v key' env code' x') :
    Ran (T ++ c.history) k u key env code x ∧ Ran (T ++ c.history) k v key' env code' x' ∨
      v = u ∧ key' = key ∧ code' = code ∧ x' = x := by
  rcases h.ran hran with hbefore | ⟨time, s, hstack, -, rfl⟩ <;>
    rcases h.ran hran' with hbefore' | ⟨time', s', hstack', -, rfl⟩
  · exact .inl ⟨hbefore, hbefore'⟩
  · exact (hunrun v key' env code' time' u key code x (hstack' ▸ List.mem_cons_self) hbefore).elim
  · exact (hunrun u key env code time v key' code' x' (hstack ▸ List.mem_cons_self) hbefore').elim
  · rw [hstack] at hstack'
    cases hstack'
    exact .inr ⟨rfl, rfl, rfl, rfl⟩

theorem Step.traced (haside : ∀ w w', aside w w' → w.Apart w') (h : Step (· = k) thread aside c c')
    (hc : c.Regular thread k) (ht : c.Traced T start k) : c'.Traced T start k := by
  have hbeside : ∀ w w', aside w w' → w.Beside w' := fun _ _ h => (haside _ _ h).beside
  have hseat := hc.sound.seated
  have hsize := h.size hbeside
  have hsubset : T ++ c.history ⊆ T ++ c'.history := h.history_subset
  -- a new binding is one of a module that is being filled
  have hbinds {env key found} (hbinds : Binds (T ++ c'.history) k env key found) :
      Binds (T ++ c.history) k env key found ∨
        ∃ p key' code time, .load k p key' (.filling env code time) ∈ c.stack := by
    refine (h.binds hbinds).imp_right fun ⟨u, hstack, _, hfilled⟩ => ?_
    obtain ⟨p, key', code, time, hmem, -⟩ := hc.sound.importer hstack hfilled
    exact ⟨p, key', code, time, hstack ▸ List.mem_cons_of_mem _ hmem⟩
  constructor
  case grows => exact ht.grows.trans (h.grows haside hseat)
  case environments => exact Nat.le_trans ht.environments hsize
  case precedes => exact h.precedes haside hseat hc.linked ht.precedes
  case later => exact h.later haside hseat ht.later
  case modules =>
    intro u key stage env hmem hmodule
    rcases h.module? hmem hmodule with ⟨stage', hmem', hmodule'⟩ | ⟨rfl, -⟩
    · exact ht.modules u key stage' env hmem' hmodule'
    · exact ht.environments
  case bounded => exact fun _ _ _ _ _ hran => h.bounded_ran hbeside hc.sound ht.bounded hran
  case bound =>
    intro env key found hb
    rcases hbinds hb with hbefore | ⟨p, key', code, time, hmem⟩
    · obtain ⟨u, key', code, x, hran⟩ := ht.bound env key found hbefore
      exact ⟨u, key', code, x, hran.mono hsubset⟩
    · obtain ⟨x, hran, -⟩ := ht.filling p key' env code time hmem
      exact ⟨p, key', code, x, hran.mono hsubset⟩
  case unrun => exact fun _ _ _ _ _ _ _ _ _ hmem => h.unrun hc.sound ht.bounded ht.unrun hmem
  case sole =>
    intro env u key code x v key' code' x' hran hran'
    rcases h.ran_sole ht.unrun hran hran' with ⟨hbefore, hbefore'⟩ | ⟨hv, -, hcode, -⟩
    · exact ht.sole env u key code x v key' code' x' hbefore hbefore'
    · exact ⟨hv, hcode⟩
  case filling =>
    intro u key env code time hmem
    rcases h.of_filling_mem hmem with hmem' | ⟨s, hstack, frames, hadded⟩
    · obtain ⟨x, hran, hversion⟩ := ht.filling u key env code time hmem'
      exact ⟨x, hran.mono hsubset, hversion.trans (h.unitVersion haside (hseat.lt hmem')).symm⟩
    · refine ⟨c.world, ⟨frames, ?_⟩, ?_⟩
      · rw [hadded]
        exact List.mem_append_right _ (List.mem_append_right _ (List.mem_singleton_self _))
      · rw [(h.moment hadded).2]
  case found =>
    intro env key found hb
    rcases h.binds hb with hbefore | ⟨u, hstack, -⟩
    · exact Nat.lt_of_lt_of_le (ht.found env key found hbefore) hsize
    · have hmem : .load k u key (.settled (.done (.ok found))) ∈ c.stack := hstack ▸ List.mem_cons_self
      have hshows : c.Shows k key found := .inr (.inr ⟨u, _, hmem, .inr rfl⟩)
      exact Nat.lt_of_lt_of_le (hc.sound.bounded k key found rfl hshows) hsize
  case old =>
    intro env key found hb henv
    rcases hbinds hb with hbefore | ⟨p, key', code, time, hmem⟩
    · exact ht.old env key found hbefore henv
    · exact (Nat.not_lt.2 (ht.modules p key' _ env hmem rfl) henv).elim
  case stamps =>
    intro env henv
    rcases h.stamps haside (Nat.lt_of_lt_of_le henv ht.environments) with
      hsame | ⟨j, u, key, code, time, s, hstack⟩
    · exact hsame.trans (ht.stamps env henv)
    · have hmem : .load j u key (.filling env code time) ∈ c.stack := hstack ▸ List.mem_cons_self
      obtain rfl := hseat.crew_of_mem hmem
      exact (Nat.not_lt.2 (ht.modules u key _ env hmem rfl) henv).elim

theorem Traced.reaches (ht : c.Traced T start k)
    (hbound : ∀ env key found, Binds T k env key found → found < start.environments.size)
    (henv : env < start.environments.size) (h : Reaches (T ++ c.history) k env found) :
    Reaches T k env found ∧ found < start.environments.size := by
  induction h with
  | refl => exact ⟨.refl, henv⟩
  | tail _ hlast ih =>
    obtain ⟨key, hlast⟩ := hlast
    have hbefore := ht.old _ key _ hlast ih.2
    exact ⟨ih.1.tail ⟨key, hbefore⟩, hbound _ key _ hbefore⟩

end Steps

end Config

end ScriptWorker
