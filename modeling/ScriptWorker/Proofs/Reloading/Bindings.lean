import ScriptWorker.Proofs.Loading.Reuse

/-!
# What bodies obtain from imports

An import is a load made while a body runs. If it comes to a module, the module that the body fills is
bound to it. The moments of a run tell which modules are bound to which, and so which modules can be
reached from one of them.
-/

namespace ScriptWorker

open Relation World

variable {L : Language}

def Frame.filled? : List (Frame L) → Option EnvironmentId
  | [] => none
  | .call (.execute _ _ env) :: _ => some env
  | _ :: rest => filled? rest

/-- A body that filled a module obtained another one from an import of a key. -/
def Binds (t : List (Moment L)) (k : WorkerId) (env : EnvironmentId) (key : String)
    (found : EnvironmentId) : Prop :=
  ∃ frames u x, ⟨frames, .left (.load k u key) (.done (.ok found)), x⟩ ∈ t ∧
    Frame.filled? frames = some env

/-- What a moment binds: a module, and the key and the module that it obtained from an import. -/
def Moment.binding? (k : WorkerId) : Moment L → Option (EnvironmentId × String × EnvironmentId)
  | ⟨frames, .left (.load j _ key) (.done (.ok found)), _⟩ =>
    if j = k then (Frame.filled? frames).map (·, key, found) else none
  | _ => none

/-- A module is another one, or its bindings lead there. -/
def Reaches (t : List (Moment L)) (k : WorkerId) : EnvironmentId → EnvironmentId → Prop :=
  ReflTransGen fun env found => ∃ key, Binds t k env key found

def Ran (t : List (Moment L)) (k : WorkerId) (u : UnitId) (key : String) (env : EnvironmentId)
    (code : L.Body) (x : World L) : Prop :=
  ∃ frames, ⟨.load k u key :: frames, .entered (.call (.execute code k env)), x⟩ ∈ t

section Moments

variable {t t' : List (Moment L)} {k : WorkerId} {u : UnitId} {key : String}
  {env found : EnvironmentId} {code : L.Body} {x : World L}

theorem binds_iff : Binds t k env key found ↔ (env, key, found) ∈ t.filterMap (Moment.binding? k) := by
  rw [List.mem_filterMap]
  constructor
  · rintro ⟨frames, u, x, hmem, hfilled⟩
    exact ⟨_, hmem, by simp [Moment.binding?, hfilled]⟩
  · rintro ⟨m, hmem, hm⟩
    unfold Moment.binding? at hm
    split at hm
    · split at hm
      · next hj =>
        obtain ⟨_, hfilled, heq⟩ := Option.map_eq_some_iff.1 hm
        cases heq
        exact ⟨_, _, _, hj ▸ hmem, hfilled⟩
      · cases hm
    · cases hm

theorem Binds.mono (h : Binds t k env key found) (ht : t ⊆ t') : Binds t' k env key found := by
  obtain ⟨frames, u, x, hmem, hfilled⟩ := h
  exact ⟨frames, u, x, ht hmem, hfilled⟩

theorem Ran.mono (h : Ran t k u key env code x) (ht : t ⊆ t') : Ran t' k u key env code x := by
  obtain ⟨frames, hmem⟩ := h
  exact ⟨frames, ht hmem⟩

theorem reaches_insert {a b env' : EnvironmentId}
    (hbinds : ∀ env key found, Binds t' k env key found → Binds t k env key found ∨ env = a ∧ found = b)
    (h : Reaches t' k env env') : Reaches t k env env' ∨ Reaches t k env a ∧ Reaches t k b env' := by
  induction h with
  | refl => exact .inl .refl
  | @tail p q _ hlast ih =>
    obtain ⟨key, hlast⟩ := hlast
    rcases hbinds p key q hlast with hold | ⟨rfl, rfl⟩
    · exact ih.imp (fun h => h.tail ⟨key, hold⟩) fun h => ⟨h.1, h.2.tail ⟨key, hold⟩⟩
    · exact .inr ⟨ih.elim id (·.1), .refl⟩

theorem reaches_of_binds
    (hbinds : ∀ env key found, Binds t' k env key found → Binds t k env key found)
    (h : Reaches t' k env found) : Reaches t k env found :=
  ReflTransGen.mono (fun env found ⟨key, h⟩ => ⟨key, hbinds env key found h⟩) _ _ h

end Moments

namespace Activity

theorem script_of_filled? {k : WorkerId} {env : EnvironmentId} {s : List (Activity L)}
    (hs : Shaped s) (hmay : MayLoad s) (hk : ∀ j u key stage, load j u key stage ∈ s → j = k)
    (h : Frame.filled? (frames s) = some env) :
    ∃ u key code time, load k u key (.filling env code time) ∈ s ∧ script k s = some u := by
  match s with
  | [] => cases h
  | load .. :: _ => exact hmay.elim
  | invoke _ _ :: rest =>
    obtain ⟨u, key, code, time, hmem, hscript⟩ := script_of_filled? hs.2 hs.1.mayLoad
      (fun j u key stage hmem => hk j u key stage (List.mem_cons_of_mem _ hmem)) h
    exact ⟨u, key, code, time, List.mem_cons_of_mem _ hmem, hscript⟩
  | call callee :: rest =>
    match callee with
    | .execute code i env' =>
      obtain ⟨u, key, time, below, rfl⟩ := hs.1
      obtain rfl : env' = env := Option.some.inj h
      obtain rfl := hk i u key _ (List.mem_cons_of_mem _ List.mem_cons_self)
      have hscript : script i (load i u key (.filling env' code time) :: below) = some u :=
        script_load_inside rfl
      exact ⟨u, key, code, time, List.mem_cons_of_mem _ List.mem_cons_self, hscript⟩
    | .call .. =>
      obtain ⟨i, below, rfl⟩ := hs.1
      obtain ⟨u, key, code, time, hmem, hscript⟩ := script_of_filled? hs.2 trivial
        (fun j u key stage hmem => hk j u key stage (List.mem_cons_of_mem _ hmem)) h
      exact ⟨u, key, code, time, List.mem_cons_of_mem _ hmem, hscript⟩
    | .compile .. => exact hmay.elim
    | .load .. => exact hmay.elim
    | .evaluate .. => exact hmay.elim
    | .depend .. => exact hmay.elim
    | .resolve .. => exact hmay.elim
    | .job .. => exact hmay.elim

end Activity

namespace Config

variable {crew : WorkerId → Prop} {thread : ThreadId} {aside : World L → World L → Prop}
  {c c' : Config L} {k : WorkerId} {u : UnitId} {key : String} {env found : EnvironmentId}
  {code : L.Body} {x : World L} {m : Moment L} {T : List (Moment L)}

theorem Step.moment (h : Step crew thread aside c c') (hadded : c'.history = c.history ++ [m]) :
    m.world = c.world ∧ c'.world = c.world := by
  cases h <;> simp at hadded <;> subst hadded <;> exact ⟨rfl, rfl⟩

theorem Step.of_entered_execute {frames : List (Frame L)} (h : Step crew thread aside c c')
    (hadded : c'.history = c.history ++ [⟨frames, .entered (.call (.execute code k env)), x⟩]) :
    ∃ u key time s, c.stack = .load k u key (.registered env code time) :: s ∧
      c'.stack = .call (.execute code k env) :: .load k u key (.filling env code time) :: s ∧
      frames = .load k u key :: Activity.frames s ∧ x = c.world := by
  cases h <;> simp at hadded
  case execute s H w k u key env code time =>
    obtain ⟨rfl, ⟨rfl, rfl, rfl⟩, rfl⟩ := hadded
    exact ⟨u, key, time, s, rfl, rfl, rfl, rfl⟩

/-- A module is bound when its load leaves, and not else. -/
theorem Step.binds (h : Step crew thread aside c c') (hbinds : Binds (T ++ c'.history) k env key found) :
    Binds (T ++ c.history) k env key found ∨
      ∃ u, c.stack = .load k u key (.settled (.done (.ok found))) :: c'.stack ∧
        c'.world = c.world ∧ Frame.filled? (Activity.frames c'.stack) = some env := by
  obtain ⟨frames, u, x, hmem, hfilled⟩ := hbinds
  rcases h.history with hsame | ⟨m, hadded⟩
  · exact .inl ⟨frames, u, x, hsame ▸ hmem, hfilled⟩
  · rw [hadded, ← List.append_assoc] at hmem
    rcases List.mem_append.1 hmem with hmem | hmem
    · exact .inl ⟨frames, u, x, hmem, hfilled⟩
    · cases List.mem_singleton.1 hmem
      obtain ⟨hstack, hworld, rfl, -⟩ := h.of_left_load hadded
      exact .inr ⟨u, hstack, hworld, hfilled⟩

theorem Step.ran (h : Step crew thread aside c c') (hran : Ran (T ++ c'.history) k u key env code x) :
    Ran (T ++ c.history) k u key env code x ∨
      ∃ time s, c.stack = .load k u key (.registered env code time) :: s ∧
        c'.stack = .call (.execute code k env) :: .load k u key (.filling env code time) :: s ∧
        x = c.world := by
  obtain ⟨frames, hmem⟩ := hran
  rcases h.history with hsame | ⟨m, hadded⟩
  · exact .inl ⟨frames, hsame ▸ hmem⟩
  · rw [hadded, ← List.append_assoc] at hmem
    rcases List.mem_append.1 hmem with hmem | hmem
    · exact .inl ⟨frames, hmem⟩
    · cases List.mem_singleton.1 hmem
      obtain ⟨u', key', time, s, hstack, hstack', hframes, rfl⟩ := h.of_entered_execute hadded
      cases hframes
      exact .inr ⟨time, s, hstack, hstack', rfl⟩

theorem Step.history_subset (h : Step crew thread aside c c') :
    T ++ c.history ⊆ T ++ c'.history := by
  rcases h.history with hsame | ⟨m, hadded⟩
  · exact hsame ▸ List.Subset.refl _
  · rw [hadded, ← List.append_assoc]
    exact List.subset_append_left _ _

end Config

end ScriptWorker
