import ScriptWorker.Proofs.Loading.Caches
import ScriptWorker.Proofs.Loading.Histories

/-!
# Where a module can come from

A load answers with a module that its worker has stored under the key, or has checked since it was
entered, or that a load of the key under way has registered. A module that none of them knows is not
known again later, since only a new module becomes known.
-/

namespace ScriptWorker

open Relation World

variable {L : Language}

def Stage.Gives (stage : Stage L) (env : EnvironmentId) : Prop :=
  stage.module? = some env ∨ stage = .settled (.done (.ok env))

namespace World

theorem config_modifyWorker {w : World L} {k j : WorkerId} {f : Worker → Worker}
    (hf : ∀ x, (f x).config = x.config) :
    ((w.modifyWorker k f).worker j).config = (w.worker j).config := by
  rw [worker_modifyWorker]
  split
  · next h => rw [hf, h.1]
  · rfl

theorem environments_closed {w : World L} {k : WorkerId} {u : UnitId} {key : String}
    {parent : Option UnitId} {answer : Answer EnvironmentId} :
    (w.closed k u key parent answer).environments = w.environments := by
  cases parent <;> rfl

theorem environments_answered {w : World L} {thread : ThreadId} {k : WorkerId} {u : UnitId}
    {key : String} {parent : Option UnitId} :
    (w.answered thread k u key parent).environments = w.environments := by
  cases parent <;> rfl

end World

namespace Config

/-- A worker can answer a load of a key with a module, now or once it is not entered any more. -/
def Shows (c : Config L) (k : WorkerId) (key : String) (env : EnvironmentId) : Prop :=
  (c.world.worker k).cache.get? key = some env ∨
  (c.world.worker k).cache.peek key = some env ∧ 0 < Activity.depth k c.stack ∨
  ∃ u stage, .load k u key stage ∈ c.stack ∧ stage.Gives env

section Shows

variable {crew : WorkerId → Prop} {thread : ThreadId} {aside : World L → World L → Prop}
  {k : WorkerId} {u : UnitId} {key : String} {env : EnvironmentId} {stage : Stage L}
  {c c' : Config L}

theorem Shows.of_module? (hmem : .load k u key stage ∈ c.stack) (h : stage.module? = some env) :
    c.Shows k key env := .inr (.inr ⟨u, stage, hmem, .inl h⟩)

theorem Seated.shows (hseat : c.Seated crew thread) (hk : crew k)
    (hpeek : ((c.world.worker k).entered thread).cache.peek key = some env) : c.Shows k key env := by
  rcases Worker.of_peek_entered (hseat.workers k hk).mode hpeek with hget | ⟨hpeek, hdepth⟩
  · exact .inl hget
  · rw [(hseat.workers k hk).serializer] at hdepth
    exact .inr (.inl ⟨hpeek, hdepth⟩)

theorem Step.size (haside : ∀ w w', aside w w' → w.Beside w') (h : Step crew thread aside c c') :
    c.world.environments.size ≤ c'.world.environments.size := by
  cases h with
  | aside h => exact (haside _ _ h).environments
  | hit hpeek => exact Nat.le_of_eq (by rw [environments_answered])
  | reuse hget hfresh => exact Nat.le_of_eq (by rw [environments_closed]; rfl)
  | refuse hstage => exact Nat.le_of_eq (by rw [environments_closed])
  | fill hscript hcompiled => exact (beside_addModule _ _ _).environments
  | @finish s H w k u key env code time value hreturned =>
    rw [environments_closed]
    exact (w.beside_stamp env (w.checksumAt u time)).environments
  | fail hreturned => exact Nat.le_of_eq (by rw [environments_closed])
  | _ => exact Nat.le_refl _

/-- A load that has a registered module had it before, or has just made it. -/
theorem Step.module? (h : Step crew thread aside c c') (hmem : .load k u key stage ∈ c'.stack)
    (hmodule : stage.module? = some env) :
    (∃ stage', .load k u key stage' ∈ c.stack ∧ stage'.module? = some env) ∨
      Registers c c' k key env := by
  cases h
  case fill =>
    rcases List.mem_cons.1 hmem with heq | hmem
    · cases heq
      cases hmodule
      exact .inr (registers_fill ..)
    · exact .inl ⟨stage, List.mem_cons_of_mem _ hmem, hmodule⟩
  all_goals
    left
    grind [Stage.module?]

/-- The stored module of a key was stored before, or is new, or is the one that its load has filled. -/
theorem Step.get? (haside : ∀ w w', aside w w' → w.Beside w') (h : Step crew thread aside c c')
    (hseat : c.Seated crew thread) (hget : (c'.world.worker k).cache.get? key = some env) :
    (c.world.worker k).cache.get? key = some env ∨
      (c.world.worker k).cache.mode = .release ∧ Registers c c' k key env ∨
      ∃ u code time s, c.stack = .load k u key (.filling env code time) :: s ∧
        c'.stack = .load k u key (.settled (.done (.ok env))) :: s := by
  cases h.cacheStep haside hseat k with
  | same hcache hdepth => exact .inl (hcache ▸ hget)
  | entered hstack hstack' hcache =>
    rw [hcache, Worker.get?_entered] at hget
    exact .inl hget
  | consulted hstack hstack' hcache =>
    rw [hcache, ModuleCache.get?_checked, Worker.get?_entered] at hget
    exact .inl hget
  | reused hstack hstack' hstored hfresh hcache =>
    rw [hcache, ModuleCache.get?_put_mark hstored] at hget
    exact .inl hget
  | registered hregisters hcache =>
    rw [hcache, ModuleCache.get?_mark] at hget
    split at hget
    · next hmark =>
      cases hget
      obtain ⟨hmode, rfl⟩ := hmark
      exact .inr (.inl ⟨hmode, hregisters⟩)
    · exact .inl hget
  | filled hstack hstack' hcache =>
    rw [hcache, ModuleCache.get?_put] at hget
    split at hget
    · next hkey =>
      cases hget
      subst hkey
      exact .inr (.inr ⟨_, _, _, _, hstack, hstack'⟩)
    · exact .inl hget
  | failed hstack hrenewing hstack' hcache =>
    rw [hcache, ModuleCache.get?_uncheck] at hget
    split at hget
    · cases hget
    · exact .inl hget

theorem Step.shows_of_peek (haside : ∀ w w', aside w w' → w.Beside w')
    (h : Step crew thread aside c c') (hseat : c.Seated crew thread)
    (hpeek : (c'.world.worker k).cache.peek key = some env) (hdepth : 0 < Activity.depth k c'.stack) :
    c.Shows k key env ∨ Registers c c' k key env := by
  have hinside {u key' stage s} (hstack : c.stack = .load k u key' stage :: s)
      (hstage : stage.isInside) (hpeek : (c.world.worker k).cache.peek key = some env) :
      c.Shows k key env :=
    .inr (.inl ⟨hpeek, Activity.depth_pos (hstack ▸ List.mem_cons_self) hstage⟩)
  cases h.cacheStep haside hseat k with
  | same hcache hle =>
    exact .inl (.inr (.inl ⟨hcache ▸ hpeek, Nat.lt_of_lt_of_le hdepth hle⟩))
  | entered hstack hstack' hcache =>
    rw [hcache] at hpeek
    exact .inl (hseat.shows (hseat.known (.invoke k .arriving) (hstack ▸ List.mem_cons_self)) hpeek)
  | consulted hstack hstack' hcache =>
    rw [hcache, ModuleCache.peek_checked] at hpeek
    exact .inl (hseat.shows (hseat.crew_of_mem (hstack ▸ List.mem_cons_self)) hpeek)
  | reused hstack hstack' hstored hfresh hcache =>
    rw [hcache, ModuleCache.peek_put_mark] at hpeek
    split at hpeek
    · next hkey =>
      cases hpeek
      subst hkey
      exact .inl (.inl hstored)
    · exact .inl (hinside hstack rfl hpeek)
  | registered hregisters hcache =>
    rw [hcache, ModuleCache.peek_mark] at hpeek
    split at hpeek
    · next hkey =>
      cases hpeek
      subst hkey
      exact .inr hregisters
    · obtain ⟨_, _, _, _, hstack, -⟩ := hregisters.stack
      exact .inl (hinside hstack rfl hpeek)
  | filled hstack hstack' hcache =>
    rw [hcache, ModuleCache.peek_put] at hpeek
    split at hpeek
    · next hkey =>
      cases hpeek
      obtain ⟨-, rfl⟩ := hkey
      exact .inl (.of_module? (hstack ▸ List.mem_cons_self) rfl)
    · exact .inl (hinside hstack rfl hpeek)
  | failed hstack hrenewing hstack' hcache =>
    rw [hcache, ModuleCache.peek_uncheck] at hpeek
    split at hpeek
    · cases hpeek
    · exact .inl (hinside hstack (Stage.isInside_of_isRenewing hrenewing) hpeek)

/-- A load comes to a module that it has filled, that was stored or that it finds checked. -/
theorem Step.settled_ok (h : Step crew thread aside c c')
    (hmem : .load k u key (.settled (.done (.ok env))) ∈ c'.stack) :
    .load k u key (.settled (.done (.ok env))) ∈ c.stack ∨
      (∃ code time, .load k u key (.filling env code time) ∈ c.stack) ∨
      (c.world.worker k).cache.get? key = some env ∨
      ∃ s, c.stack = .load k u key .arriving :: s ∧
        ((c.world.worker k).entered thread).cache.peek key = some env := by
  cases h <;> grind

theorem Step.shows (haside : ∀ w w', aside w w' → w.Beside w') (h : Step crew thread aside c c')
    (hseat : c.Seated crew thread) (hshows : c'.Shows k key env) :
    c.Shows k key env ∨ Registers c c' k key env := by
  rcases hshows with hget | ⟨hpeek, hdepth⟩ | ⟨u, stage, hmem, hmodule | rfl⟩
  · rcases h.get? haside hseat hget with hstored | ⟨-, hnew⟩ | ⟨u, code, time, s, hstack, -⟩
    · exact .inl (.inl hstored)
    · exact .inr hnew
    · exact .inl (.of_module? (hstack ▸ List.mem_cons_self) rfl)
  · exact h.shows_of_peek haside hseat hpeek hdepth
  · rcases h.module? hmem hmodule with ⟨stage', hbefore, hmodule'⟩ | hnew
    · exact .inl (.of_module? hbefore hmodule')
    · exact .inr hnew
  · left
    rcases h.settled_ok hmem with hbefore | ⟨code, time, hfilling⟩ | hstored | ⟨s, hstack, hpeek⟩
    · exact .inr (.inr ⟨u, _, hbefore, .inr rfl⟩)
    · exact .of_module? hfilling rfl
    · exact .inl hstored
    · exact hseat.shows (hseat.crew_of_mem (hstack ▸ List.mem_cons_self)) hpeek

theorem Step.config (haside : ∀ w w', aside w w' → w.Beside w') (h : Step crew thread aside c c')
    (k : WorkerId) : (c'.world.worker k).config = (c.world.worker k).config := by
  cases h with
  | aside h => exact (haside _ _ h).config k
  | hit hpeek =>
    exact ((beside_recorded _ _ _).config k).trans (config_modifyWorker fun _ => rfl)
  | miss hpeek => exact config_modifyWorker fun _ => rfl
  | reuse hget hfresh =>
    refine ((beside_recorded _ _ _).config k).trans
      ((config_modifyWorker ?_).trans (config_modifyWorker ?_)) <;> exact fun _ => rfl
  | refuse hstage =>
    exact ((beside_recorded _ _ _).config k).trans (config_modifyWorker fun _ => rfl)
  | fill hscript hcompiled => exact config_modifyWorker fun _ => rfl
  | finish hreturned =>
    exact ((beside_recorded _ _ _).config k).trans (config_modifyWorker fun _ => rfl)
  | fail hreturned =>
    exact ((beside_recorded _ _ _).config k).trans (config_modifyWorker fun _ => rfl)
  | crash hstage hreturned => exact config_modifyWorker fun _ => rfl
  | enterInvoke => exact config_modifyWorker fun _ => rfl
  | settleInvoke => exact config_modifyWorker fun _ => rfl
  | _ => rfl

theorem Step.inside (h : Step crew thread aside c c') (hmem : .load k u key stage ∈ c'.stack)
    (hinside : stage.isInside) :
    (∃ stage', .load k u key stage' ∈ c.stack ∧ stage'.isInside) ∨
      ∃ s, c.stack = .load k u key .arriving :: s ∧
        ((c.world.worker k).entered thread).cache.peek key = none := by
  cases h <;> grind [Stage.isInside]

theorem Step.settled {outcome : Outcome (Answer EnvironmentId)} (h : Step crew thread aside c c')
    (hmem : .load k u key (.settled outcome) ∈ c'.stack) :
    .load k u key (.settled outcome) ∈ c.stack ∨
    (∃ stage, .load k u key stage ∈ c.stack ∧ stage.isInside) ∨
      ∃ env, outcome = .done (.ok env) ∧
        ((c.world.worker k).entered thread).cache.peek key = some env := by
  cases h <;> grind [Stage.isInside, Stage.isInside_of_isReading]

/-- Only the innermost load changes what is stored under its key, and only if what is stored does not
do. -/
theorem Step.get?_beneath (haside : ∀ w w', aside w w' → w.Beside w')
    (h : Step crew thread aside c c') (hseat : c.Seated crew thread)
    (houtside : ∀ u stage s, c.stack = .load k u key stage :: s → ¬ stage.isRenewing) :
    (c'.world.worker k).cache.get? key = (c.world.worker k).cache.get? key := by
  have hne {u key' stage s} (hstack : c.stack = .load k u key' stage :: s)
      (hrenewing : stage.isRenewing) : key' ≠ key := by
    rintro rfl
    exact houtside u stage s hstack hrenewing
  cases h.cacheStep haside hseat k with
  | same hcache hdepth => rw [hcache]
  | entered hstack hstack' hcache => rw [hcache, Worker.get?_entered]
  | consulted hstack hstack' hcache =>
    rw [hcache, ModuleCache.get?_checked, Worker.get?_entered]
  | reused hstack hstack' hstored hfresh hcache => rw [hcache, ModuleCache.get?_put_mark hstored]
  | registered hregisters hcache =>
    obtain ⟨_, _, _, _, hstack, -⟩ := hregisters.stack
    rw [hcache, ModuleCache.get?_mark, if_neg fun hmark => hne hstack rfl hmark.2]
  | filled hstack hstack' hcache =>
    rw [hcache, ModuleCache.get?_put, if_neg (hne hstack rfl)]
  | failed hstack hrenewing hstack' hcache =>
    rw [hcache, ModuleCache.get?_uncheck, if_neg fun hkey => hne hstack hrenewing hkey.2]

theorem Step.get?_outside (haside : ∀ w w', aside w w' → w.Beside w')
    (h : Step crew thread aside c c') (hseat : c.Seated crew thread)
    (houtside : ∀ u stage, .load k u key stage ∈ c.stack → ¬ stage.isRenewing) :
    (c'.world.worker k).cache.get? key = (c.world.worker k).cache.get? key :=
  h.get?_beneath haside hseat fun u stage _ hstack => houtside u stage (hstack ▸ List.mem_cons_self)

end Shows

/-- What workers know was there before. -/
def Bounded (crew : WorkerId → Prop) (c : Config L) : Prop :=
  ∀ k key env, crew k → c.Shows k key env → env < c.world.environments.size

/-- While a worker that reloads fills a module, it is not stored. -/
def Unfinished (c : Config L) : Prop :=
  ∀ k u key stage env, .load k u key stage ∈ c.stack → stage.module? = some env →
    (c.world.worker k).cache.mode = .development → (c.world.worker k).cache.get? key ≠ some env

section Sound

variable {crew : WorkerId → Prop} {thread : ThreadId} {aside : World L → World L → Prop}
  {s : List (Activity L)} {k : WorkerId} {u : UnitId} {key : String} {env : EnvironmentId}
  {stage : Stage L} {c c' : Config L}

theorem Step.bounded (haside : ∀ w w', aside w w' → w.Beside w') (h : Step crew thread aside c c')
    (hseat : c.Seated crew thread) (hbound : c.Bounded crew) : c'.Bounded crew := by
  intro k key env hk hshows
  rcases h.shows haside hseat hshows with hbefore | hnew
  · exact Nat.lt_of_lt_of_le (hbound k key env hk hbefore) (h.size haside)
  · exact hnew.size

theorem Step.mode (haside : ∀ w w', aside w w' → w.Beside w') (h : Step crew thread aside c c')
    (hseat : c.Seated crew thread) (hk : crew k) :
    (c'.world.worker k).cache.mode = (c.world.worker k).cache.mode := by
  have hseat' := h.seated haside hseat
  rw [(hseat'.workers k hk).mode, (hseat.workers k hk).mode, h.config haside]

/-- Of two loads of one key only the outer one is inside its serializer. -/
theorem Nested.outside (hn : c.Nested) {stage' : Stage L} {v : UnitId}
    (hstack : c.stack = .load k u key stage :: s) (hstage : stage.isInside)
    (hmem : .load k v key stage' ∈ s) : ¬ stage'.isInside := by
  intro hinside
  have hdistinct := hn.distinct k
  rw [hstack, Activity.progress_load_inside hstage] at hdistinct
  exact (List.nodup_cons.1 hdistinct).1 (Activity.mem_progress hmem hinside)

theorem Step.unfinished (haside : ∀ w w', aside w w' → w.Beside w')
    (h : Step crew thread aside c c') (hseat : c.Seated crew thread) (hn : c.Nested)
    (hbound : c.Bounded crew) (hunfinished : c.Unfinished) : c'.Unfinished := by
  intro k u key stage env hmem hmodule hdev hget
  have hk : crew k := (h.seated haside hseat).crew_of_mem hmem
  rw [h.mode haside hseat hk] at hdev
  rcases h.module? hmem hmodule with ⟨stage', hmem', hmodule'⟩ | ⟨rfl, -⟩
  · have hold : env < c.world.environments.size :=
      hbound k key env hk (.of_module? hmem' hmodule')
    rcases h.get? haside hseat hget with hstored | ⟨hrelease, -⟩ | ⟨v, code, time, s, hs, hs'⟩
    · exact hunfinished k u key stage' env hmem' hmodule' hdev hstored
    · rw [hdev] at hrelease
      cases hrelease
    · rw [hs'] at hmem
      rcases List.mem_cons.1 hmem with heq | hmem
      · cases heq
        cases hmodule
      · exact hn.outside hs rfl hmem (Stage.isInside_of_module? hmodule)
  · rcases h.get? haside hseat hget with hstored | ⟨hrelease, -⟩ | ⟨v, code, time, s, hs, -⟩
    · exact Nat.lt_irrefl _ (hbound k key _ hk (.inl hstored))
    · rw [hdev] at hrelease
      cases hrelease
    · have hshows : c.Shows k key c.world.environments.size :=
        .inr (.inr ⟨v, .filling _ code time, hs ▸ List.mem_cons_self, .inl rfl⟩)
      exact Nat.lt_irrefl _ (hbound k key _ hk hshows)

/-- A configuration that the loads of a crew can come to. -/
structure Sound (crew : WorkerId → Prop) (thread : ThreadId) (c : Config L) : Prop where
  seated : c.Seated crew thread
  nested : c.Nested
  bounded : c.Bounded crew
  unfinished : c.Unfinished

theorem Step.sound (haside : ∀ w w', aside w w' → w.Beside w') (h : Step crew thread aside c c')
    (hc : c.Sound crew thread) : c'.Sound crew thread where
  seated := h.seated haside hc.seated
  nested := h.nested haside hc.seated hc.nested
  bounded := h.bounded haside hc.seated hc.bounded
  unfinished := h.unfinished haside hc.seated hc.nested hc.bounded hc.unfinished

theorem Path.sound (haside : ∀ w w', aside w w' → w.Beside w') (h : Path crew thread aside c c')
    (hc : c.Sound crew thread) : c'.Sound crew thread := by
  induction h with
  | refl => exact hc
  | tail _ hstep ih => exact hstep.sound haside ih

theorem Path.not_shows (haside : ∀ w w', aside w w' → w.Beside w')
    (h : Path crew thread aside c c') (hc : c.Sound crew thread)
    (henv : env < c.world.environments.size) (hshows : ¬ c.Shows k key env) :
    env < c'.world.environments.size ∧ ¬ c'.Shows k key env := by
  induction h with
  | refl => exact ⟨henv, hshows⟩
  | tail hpath hstep ih =>
    refine ⟨Nat.lt_of_lt_of_le ih.1 (hstep.size haside), fun hafter => ?_⟩
    rcases hstep.shows haside (Path.sound haside hpath hc).seated hafter with hbefore | ⟨rfl, -⟩
    · exact ih.2 hbefore
    · exact Nat.lt_irrefl _ ih.1

theorem Path.config (haside : ∀ w w', aside w w' → w.Beside w') (h : Path crew thread aside c c')
    (k : WorkerId) : (c'.world.worker k).config = (c.world.worker k).config := by
  induction h with
  | refl => rfl
  | tail _ hstep ih => exact (hstep.config haside k).trans ih

end Sound

end Config

end ScriptWorker
