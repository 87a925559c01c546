import ScriptWorker.Proofs.Loading.Importing

/-!
# Modules whose body stopped

A load whose body ends in a failure takes its module out of the cache. If the body ends in a panic,
nothing is taken out: a worker that reloads forgets the module at its next outermost call, and any
other worker keeps it as the loaded module of the key.
-/

namespace ScriptWorker

open Relation World

variable {L : Language}

namespace Config

/-- A module that is neither stored under a key nor about to be. -/
structure Dropped (c : Config L) (k : WorkerId) (key : String) (env : EnvironmentId) : Prop where
  size : env < c.world.environments.size
  stored : (c.world.worker k).cache.get? key ≠ some env
  filled : ∀ u stage, .load k u key stage ∈ c.stack → stage.module? ≠ some env

section Steps

variable {crew : WorkerId → Prop} {thread : ThreadId} {aside : World L → World L → Prop}
  {s : List (Activity L)} {k : WorkerId} {u : UnitId} {key : String} {env : EnvironmentId}
  {code : L.Body} {time : UInt64} {stage : Stage L} {c c' : Config L}

theorem Step.dropped (haside : ∀ w w', aside w w' → w.Beside w') (h : Step crew thread aside c c')
    (hseat : c.Seated crew thread) (hdropped : c.Dropped k key env) : c'.Dropped k key env where
  size := Nat.lt_of_lt_of_le hdropped.size (h.size haside)
  stored hget := by
    rcases h.get? haside hseat hget with hstored | ⟨-, rfl, -⟩ | ⟨u, code, time, s, hs, -⟩
    · exact hdropped.stored hstored
    · exact Nat.lt_irrefl _ hdropped.size
    · exact hdropped.filled u (.filling env code time) (hs ▸ List.mem_cons_self) rfl
  filled u stage hmem hmodule := by
    rcases h.module? hmem hmodule with ⟨stage', hmem', hmodule'⟩ | ⟨rfl, -⟩
    · exact hdropped.filled u stage' hmem' hmodule'
    · exact Nat.lt_irrefl _ hdropped.size

end Steps

section Paths

variable {crew : WorkerId → Prop} {thread : ThreadId} {aside : World L → World L → Prop}
  {s : List (Activity L)} {k : WorkerId} {u : UnitId} {key : String} {env : EnvironmentId}
  {code : L.Body} {time : UInt64} {stage : Stage L} {c c' : Config L}

theorem Path.dropped (haside : ∀ w w', aside w w' → w.Beside w') (h : Path crew thread aside c c')
    (hc : c.Sound crew thread) (hdropped : c.Dropped k key env) : c'.Dropped k key env := by
  induction h with
  | refl => exact hdropped
  | tail hpath hstep ih => exact hstep.dropped haside (Path.sound haside hpath hc).seated ih

/-- A load whose body stopped ends without an answer of its own. -/
theorem Path.stops {H : List (Moment L)} {w : World L} {o : Outcome (Answer Value)}
    (h : Path crew thread aside ⟨.load k u key (.filling env code time) :: s, H, w⟩ c')
    (hreturned : Returned H (.execute code k env) o) (hstop : ∀ value, o ≠ .done (.ok value))
    (hend : c'.stack = []) :
    ∃ v c₁, Path crew thread aside ⟨.load k u key (.filling env code time) :: s, H, w⟩
        ⟨.load k u key (.filling env code time) :: s, H, v⟩ ∧
      Step crew thread aside ⟨.load k u key (.filling env code time) :: s, H, v⟩ c₁ ∧
      Path crew thread aside c₁ c' ∧
      ((∃ cause, o = .done (.error cause) ∧
          c₁ = ⟨.load k u key (.settled (.done (.error cause))) :: s, H,
            v.closed k u key (Activity.script k s) (.error cause)⟩) ∨
        ∃ payload, o = .panic payload ∧
          c₁ = ⟨.load k u key (.settled (.panic payload)) :: s, H,
            v.modifyWorker k (Worker.unwound (Activity.script k s))⟩) := by
  generalize hc : (⟨.load k u key (.filling env code time) :: s, H, w⟩ : Config L) = c at h
  induction h using ReflTransGen.head_induction_on generalizing w with
  | refl =>
    rw [← hc] at hend
    cases hend
  | @head _ c₁ hstep hrest ih =>
    subst hc
    rcases hstep.of_filling hreturned with ⟨v, hv, rfl⟩ | ⟨value, hok, -⟩ | hfail | hcrash
    · obtain ⟨v', c₂, hpath, hsettle, hafter, hcases⟩ := ih rfl
      exact ⟨v', c₂, .head hstep hpath, hsettle, hafter, hcases⟩
    · exact (hstop value hok).elim
    · exact ⟨w, c₁, .refl, hstep, hrest, .inl hfail⟩
    · exact ⟨w, c₁, .refl, hstep, hrest, .inr hcrash⟩

section Settled

variable {H T : List (Moment L)} {w w' : World L} {outcome : Outcome (Answer EnvironmentId)}

theorem Sound.dropped
    (hc : Sound crew thread ⟨.load k u key (.filling env code time) :: s, H, w⟩)
    (hsize : w'.environments.size = w.environments.size)
    (hstored : (w'.worker k).cache.get? key ≠ some env) :
    Dropped ⟨.load k u key (.settled outcome) :: s, T, w'⟩ k key env where
  size := by
    have hk : crew k := hc.seated.crew_of_mem List.mem_cons_self
    have hold : env < w.environments.size :=
      hc.bounded k key env hk (.of_module? List.mem_cons_self rfl)
    exact hsize ▸ hold
  stored := hstored
  filled v stage hmem hmodule := by
    rcases List.mem_cons.1 hmem with heq | hmem
    · cases heq
      cases hmodule
    · exact hc.nested.outside rfl rfl hmem (Stage.isInside_of_module? hmodule)

/-- A body that fails leaves its module in neither part of the cache. -/
theorem Sound.dropped_closed {cause : Failure}
    (hc : Sound crew thread ⟨.load k u key (.filling env code time) :: s, H, w⟩) :
    Dropped ⟨.load k u key (.settled (.done (.error cause))) :: s, T,
      w.closed k u key (Activity.script k s) (.error cause)⟩ k key env := by
  have hk : crew k := hc.seated.crew_of_mem List.mem_cons_self
  apply hc.dropped (by rw [environments_closed])
  unfold World.closed
  rw [cache_recorded, cache_modifyWorker (hc.seated.workers k hk).row, if_pos rfl]
  change ((w.worker k).cache.uncheck key).get? key ≠ some env
  rw [ModuleCache.get?_uncheck]
  cases hmode : (w.worker k).cache.mode with
  | release => simp
  | development =>
    simp only [reduceCtorEq, false_and, if_false]
    exact hc.unfinished k u key _ env List.mem_cons_self rfl hmode

/-- A body that panics leaves its module checked, but a worker that reloads has not stored it. -/
theorem Sound.dropped_unwound {payload : Option String}
    (hc : Sound crew thread ⟨.load k u key (.filling env code time) :: s, H, w⟩)
    (hmode : (w.worker k).cache.mode = .development) :
    Dropped ⟨.load k u key (.settled (.panic payload)) :: s, T,
      w.modifyWorker k (Worker.unwound (Activity.script k s))⟩ k key env := by
  have hk : crew k := hc.seated.crew_of_mem List.mem_cons_self
  refine hc.dropped ?_ ?_
  · rfl
  rw [cache_modifyWorker (hc.seated.workers k hk).row, if_pos rfl]
  exact hc.unfinished k u key _ env List.mem_cons_self rfl hmode

end Settled

end Paths

/-! ## Modules that stay -/

/-- A worker that never forgets has a module stored under a key, and no load of the key is inside its
serializer. -/
structure Stuck (c : Config L) (k : WorkerId) (key : String) (env : EnvironmentId) : Prop where
  release : (c.world.worker k).cache.mode = .release
  stored : (c.world.worker k).cache.get? key = some env
  outside : ∀ u stage, .load k u key stage ∈ c.stack → ¬ stage.isInside

structure Serves (c : Config L) (k : WorkerId) (key : String) (env : EnvironmentId) : Prop
    extends c.Stuck k key env where
  settled : ∀ u outcome, .load k u key (.settled outcome) ∈ c.stack → outcome = .done (.ok env)

section Serving

variable {crew : WorkerId → Prop} {thread : ThreadId} {aside : World L → World L → Prop}
  {k : WorkerId} {key : String} {env : EnvironmentId} {c c' : Config L}

theorem Stuck.peek_entered (hstuck : c.Stuck k key env) (hseat : c.Seated crew thread) (hk : crew k) :
    ((c.world.worker k).entered thread).cache.peek key = some env := by
  have hmode := (hseat.workers k hk).mode
  rw [hstuck.release] at hmode
  cases hreload : (c.world.worker k).config.reloading with
  | true =>
    rw [hreload] at hmode
    cases hmode
  | false =>
    unfold Worker.entered
    simp only [hreload, Bool.false_eq_true, and_false, if_false]
    rw [ModuleCache.peek_eq_get? _ _ hstuck.release, hstuck.stored]

theorem Step.stuck (haside : ∀ w w', aside w w' → w.Beside w') (h : Step crew thread aside c c')
    (hseat : c.Seated crew thread) (hk : crew k) (hstuck : c.Stuck k key env) :
    c'.Stuck k key env where
  release := (h.mode haside hseat hk).trans hstuck.release
  stored := (h.get?_outside haside hseat fun v stage hmem hrenewing =>
    hstuck.outside v stage hmem (Stage.isInside_of_isRenewing hrenewing)).trans hstuck.stored
  outside u stage hmem hinside := by
    rcases h.inside hmem hinside with ⟨stage', hmem', hinside'⟩ | ⟨-, -, hpeek⟩
    · exact hstuck.outside u stage' hmem' hinside'
    · rw [hstuck.peek_entered hseat hk] at hpeek
      cases hpeek

theorem Path.stuck (haside : ∀ w w', aside w w' → w.Beside w') (h : Path crew thread aside c c')
    (hc : c.Sound crew thread) (hk : crew k) (hstuck : c.Stuck k key env) : c'.Stuck k key env := by
  induction h with
  | refl => exact hstuck
  | tail hpath hstep ih => exact hstep.stuck haside (Path.sound haside hpath hc).seated hk ih

theorem Step.serves (haside : ∀ w w', aside w w' → w.Beside w') (h : Step crew thread aside c c')
    (hseat : c.Seated crew thread) (hk : crew k) (hserves : c.Serves k key env) :
    c'.Serves k key env where
  toStuck := h.stuck haside hseat hk hserves.toStuck
  settled u outcome hmem := by
    rcases h.settled hmem with hbefore | ⟨stage, hmem', hinside⟩ | ⟨found, rfl, hpeek⟩
    · exact hserves.settled u outcome hbefore
    · exact (hserves.outside u stage hmem' hinside).elim
    · rw [hserves.toStuck.peek_entered hseat hk] at hpeek
      cases hpeek
      rfl

theorem Path.serves (haside : ∀ w w', aside w w' → w.Beside w') (h : Path crew thread aside c c')
    (hc : c.Sound crew thread) (hk : crew k) (hserves : c.Serves k key env) :
    c'.Serves k key env := by
  induction h with
  | refl => exact hserves
  | tail hpath hstep ih => exact hstep.serves haside (Path.sound haside hpath hc).seated hk ih

theorem Sound.stuck_unwound {s : List (Activity L)} {u : UnitId} {code : L.Body} {time : UInt64}
    {H T : List (Moment L)} {w : World L} {payload : Option String}
    (hc : Sound crew thread ⟨.load k u key (.filling env code time) :: s, H, w⟩)
    (hmode : (w.worker k).cache.mode = .release) :
    Stuck ⟨.load k u key (.settled (.panic payload)) :: s, T,
      w.modifyWorker k (Worker.unwound (Activity.script k s))⟩ k key env := by
  have hk : crew k := hc.seated.crew_of_mem List.mem_cons_self
  have hcache : ((w.modifyWorker k (Worker.unwound (Activity.script k s))).worker k).cache =
      (w.worker k).cache := by
    rw [cache_modifyWorker (hc.seated.workers k hk).row, if_pos rfl]
    rfl
  refine ⟨hcache ▸ hmode, ?_, fun v stage hmem hinside => ?_⟩
  · rw [hcache, ← ModuleCache.peek_eq_get? _ _ hmode]
    exact hc.nested.filled k u key _ env List.mem_cons_self rfl
  · rcases List.mem_cons.1 hmem with heq | hmem
    · cases heq
      cases hinside
    · exact hc.nested.outside rfl rfl hmem hinside

end Serving

end Config

namespace Setting

variable {S : Setting L} {crew : WorkerId → Prop} {names : String → Prop} {thread : ThreadId}
  {aside : World L → World L → Prop} {w w' x : World L} {t : List (Moment L)} {depth : Nat}
  {request : Request L} {o : Outcome request.Reply} {k : WorkerId} {u : UnitId} {key : String}
  {env : EnvironmentId} {code : L.Body} {frames : List (Frame L)}

/-- Whether the module that a body was filling when it stopped is stored after the operation. -/
theorem stored_of_stopped (hS : S.Suits crew names thread aside) (hw : w.Rests crew)
    (hrequest : request.CallsOn crew names)
    (h : S.answers thread (S.calls thread depth) [] request w o w' t)
    {outcome : Outcome (Answer Value)}
    (hm : ⟨.load k u key :: frames, .left (.call (.execute code k env)) outcome, x⟩ ∈ t)
    (hstop : ∀ value, outcome ≠ .done (.ok value)) :
    crew k ∧ env < w'.environments.size ∧ (w'.worker k).config = (x.worker k).config ∧
      ((w'.worker k).cache.get? key = some env ↔
        (x.worker k).config.reloading = false ∧ ∃ payload, outcome = .panic payload) := by
  have hbeside := hS.beside
  have hpath := path_operation hS hw hrequest h
  obtain ⟨c₁, c₂, h₁, hstep, hadded, h₂⟩ := hpath.step_of_mem rfl hm
  obtain ⟨hstack, hworld, hframes, rfl⟩ := hstep.of_left_call hadded
  have hc₁ := Config.Path.sound hbeside h₁ hw.sound
  have hfits : (Activity.call (.execute code k env)).Fits c₂.stack := by
    have hshaped := hc₁.nested.shaped
    rw [hstack] at hshaped
    exact hshaped.1
  obtain ⟨v, key', time, s, hs⟩ := hfits
  rw [hs] at hframes
  cases hframes
  have hc₂ := hstep.sound hbeside hc₁
  obtain ⟨_, H, _⟩ := c₂
  obtain rfl : _ = _ := hs
  obtain rfl : _ = _ := hworld
  have hk : crew k := hc₂.seated.crew_of_mem List.mem_cons_self
  have hreturned : Config.Returned H (.execute code k env) outcome :=
    ⟨c₁.history, _, c₁.world, hadded⟩
  have hconfig := Config.Path.config hbeside h₂ k
  obtain ⟨v, c₃, hfilling, hsettle, hrest, hstopped⟩ := h₂.stops hreturned hstop rfl
  have hv := Config.Path.sound hbeside hfilling hc₂
  have hreload : (v.worker k).config = (c₁.world.worker k).config := hfilling.config hbeside k
  have hmode := (hv.seated.workers k hk).mode
  rw [hreload] at hmode
  have hsettled := hsettle.sound hbeside hv
  rcases hstopped with ⟨cause, rfl, rfl⟩ | ⟨payload, rfl, rfl⟩
  · have hdropped := Config.Path.dropped hbeside hrest hsettled hv.dropped_closed
    refine ⟨hk, hdropped.size, hconfig, fun hget => (hdropped.stored hget).elim, ?_⟩
    rintro ⟨-, payload, hpanic⟩
    cases hpanic
  · cases hreloading : (c₁.world.worker k).config.reloading with
    | true =>
      rw [hreloading] at hmode
      have hdropped := Config.Path.dropped hbeside hrest hsettled (hv.dropped_unwound hmode)
      refine ⟨hk, hdropped.size, hconfig, fun hget => (hdropped.stored hget).elim, ?_⟩
      rintro ⟨hfalse, -⟩
      cases hfalse
    | false =>
      rw [hreloading] at hmode
      have hstuck := Config.Path.stuck hbeside hrest hsettled hk (hv.stuck_unwound hmode)
      have hrests := rests_operation hS hw hrequest h
      exact ⟨hk, hrests.stored k key env hk hstuck.stored, hconfig,
        fun _ => ⟨rfl, payload, rfl⟩, fun _ => hstuck.stored⟩

theorem not_answered (hS : S.Suits crew names thread aside) (hw : w.Rests crew)
    (hrequest : request.CallsOn crew names)
    (h : S.answers thread (S.calls thread depth) [] request w o w' t)
    (henv : env < w.environments.size) (hstored : (w.worker k).cache.get? key ≠ some env)
    {outcome : Outcome (Answer EnvironmentId)}
    (hm : ⟨frames, .left (.load k u key) outcome, x⟩ ∈ t) : outcome ≠ .done (.ok env) := by
  rintro rfl
  obtain ⟨c₁, c₂, h₁, hstep, hadded, -⟩ := (path_operation hS hw hrequest h).step_of_mem rfl hm
  have hstack := (hstep.of_left_load hadded).1
  have hunknown : ¬ Config.Shows ⟨[], [], w⟩ k key env := by
    rintro (hget | ⟨-, hpos⟩ | ⟨_, _, hmem, -⟩)
    · exact hstored hget
    · cases hpos
    · cases hmem
  apply (h₁.not_shows hS.beside hw.sound henv hunknown).2
  exact .inr (.inr ⟨u, _, hstack ▸ List.mem_cons_self, .inr rfl⟩)

theorem answered_of_stored (hS : S.Suits crew names thread aside) (hw : w.Rests crew)
    (hrequest : request.CallsOn crew names)
    (h : S.answers thread (S.calls thread depth) [] request w o w' t) (hk : crew k)
    (hmode : (w.worker k).cache.mode = .release) (hstored : (w.worker k).cache.get? key = some env)
    {outcome : Outcome (Answer EnvironmentId)}
    (hm : ⟨frames, .left (.load k u key) outcome, x⟩ ∈ t) : outcome = .done (.ok env) := by
  obtain ⟨c₁, c₂, h₁, hstep, hadded, -⟩ := (path_operation hS hw hrequest h).step_of_mem rfl hm
  have hstack := (hstep.of_left_load hadded).1
  have hserves : Config.Serves ⟨[], [], w⟩ k key env :=
    ⟨⟨hmode, hstored, fun _ _ hmem => nomatch hmem⟩, fun _ _ hmem => nomatch hmem⟩
  exact (Config.Path.serves hS.beside h₁ hw.sound hk hserves).settled u outcome
    (hstack ▸ List.mem_cons_self)

theorem Operates.not_stored {between : World L → World L → Prop} {start : World L}
    {operations : List (List (Moment L))} (hS : ∀ thread, S.Suits crew names thread aside)
    (hbetween : ∀ w w', between w w' → w.Beside w') (hstart : start.Rests crew)
    (h : S.Operates between (Request.CallsOn crew names) start operations w)
    (henv : env < start.environments.size) (hstored : (start.worker k).cache.get? key ≠ some env) :
    w.Rests crew ∧ env < w.environments.size ∧ (w.worker k).cache.get? key ≠ some env := by
  refine h.induct (P := fun w => w.Rests crew ∧ env < w.environments.size ∧
    (w.worker k).cache.get? key ≠ some env) ⟨hstart, henv, hstored⟩ ?_ ?_
  · rintro w w' ⟨hw, henv, hstored⟩ hmove
    have hbeside := hbetween w w' hmove
    refine ⟨hw.beside hbeside, Nat.lt_of_lt_of_le henv hbeside.environments, ?_⟩
    rw [hbeside.cache]
    exact hstored
  · rintro w w' thread depth request o t ⟨hw, henv, hstored⟩ hasks hrun
    have hpath := path_operation (hS thread) hw hasks hrun
    have hunknown : ¬ Config.Shows ⟨[], [], w⟩ k key env := by
      rintro (hget | ⟨-, hpos⟩ | ⟨_, _, hmem, -⟩)
      · exact hstored hget
      · cases hpos
      · cases hmem
    obtain ⟨henv', hunknown'⟩ := hpath.not_shows (hS thread).beside hw.sound henv hunknown
    exact ⟨rests_operation (hS thread) hw hasks hrun, henv', fun hget => hunknown' (.inl hget)⟩

theorem Operates.stored {between : World L → World L → Prop} {start : World L}
    {operations : List (List (Moment L))} (hS : ∀ thread, S.Suits crew names thread aside)
    (hbetween : ∀ w w', between w w' → w.Beside w') (hstart : start.Rests crew)
    (h : S.Operates between (Request.CallsOn crew names) start operations w) (hk : crew k)
    (hmode : (start.worker k).cache.mode = .release)
    (hstored : (start.worker k).cache.get? key = some env) :
    w.Rests crew ∧ (w.worker k).cache.mode = .release ∧
      (w.worker k).cache.get? key = some env := by
  refine h.induct (P := fun w => w.Rests crew ∧ (w.worker k).cache.mode = .release ∧
    (w.worker k).cache.get? key = some env) ⟨hstart, hmode, hstored⟩ ?_ ?_
  · rintro w w' ⟨hw, hmode, hstored⟩ hmove
    have hbeside := hbetween w w' hmove
    rw [hbeside.cache]
    exact ⟨hw.beside hbeside, hmode, hstored⟩
  · rintro w w' thread depth request o t ⟨hw, hmode, hstored⟩ hasks hrun
    have hpath := path_operation (hS thread) hw hasks hrun
    have hstuck : Config.Stuck ⟨[], [], w⟩ k key env :=
      ⟨hmode, hstored, fun _ _ hmem => nomatch hmem⟩
    have hstuck' := Config.Path.stuck (hS thread).beside hpath hw.sound hk hstuck
    exact ⟨rests_operation (hS thread) hw hasks hrun, hstuck'.release, hstuck'.stored⟩

/-- After an operation in which a body stopped, by a failure or a panic, a later load of its key
answers with the module that the body was filling if and only if the body panicked and the worker
does not reload. -/
def AnswersStopped (operations : List (List (Moment L))) : Prop :=
  ∀ ⦃before t after t' k u u' key env code stopped outcome frames frames' x x'⦄,
    operations = before ++ t :: after →
    ⟨.load k u key :: frames, .left (.call (.execute code k env)) stopped, x⟩ ∈ t →
    (∀ value, stopped ≠ .done (.ok value)) → t' ∈ after →
    ⟨frames', .left (.load k u' key) outcome, x'⟩ ∈ t' →
    (outcome = .done (.ok env) ↔
      (x.worker k).config.reloading = false ∧ ∃ payload, stopped = .panic payload)

theorem Operates.answersStopped {start : World L} {operations : List (List (Moment L))}
    (hS : S.interpreter.Scripting crew names Request.LeavesWorkers) (hstart : start.Rests crew)
    (h : S.Operates World.Beside (Request.CallsOn crew names) start operations w) :
    AnswersStopped operations := by
  intro before t after t' k u u' key env code stopped outcome frames frames' x x' hparts hstopped hstop
    hlater hload
  subst hparts
  have hsuits : ∀ thread, S.Suits crew names thread World.Beside := fun _ => suits_beside hS
  have hbeside : ∀ w w' : World L, w.Beside w' → w.Beside w' := fun _ _ h => h
  obtain ⟨v, v', thread, depth, request, o, hbefore, hasks, hrun, hafter⟩ := h.split
  have hv := hbefore.rests hsuits hbeside hstart
  have hv' := rests_operation (hsuits thread) hv hasks hrun
  obtain ⟨hk, henv, hconfig, hiff⟩ := stored_of_stopped (hsuits thread) hv hasks hrun hstopped hstop
  obtain ⟨middle, rest, rfl⟩ := List.append_of_mem hlater
  obtain ⟨y, y', thread', depth', request', o', hmiddle, hasks', hrun', -⟩ := hafter.split
  constructor
  · rintro rfl
    refine Classical.byContradiction fun hnot => ?_
    obtain ⟨hy, henv', hstored⟩ := hmiddle.not_stored hsuits hbeside hv' henv (mt hiff.1 hnot)
    exact not_answered (hsuits thread') hy hasks' hrun' henv' hstored hload rfl
  · intro hpanic
    have hmode : (v'.worker k).cache.mode = .release := by
      rw [hv'.mode k hk, hconfig, hpanic.1]
      rfl
    obtain ⟨hy, hmode', hstored⟩ := hmiddle.stored hsuits hbeside hv' hk hmode (hiff.2 hpanic)
    exact answered_of_stored (hsuits thread') hy hasks' hrun' hk hmode' hstored hload

/-- Whatever operations there are, the panics of bodies decide what is answered afterwards. -/
theorem Serves.answered_iff {start : World L}
    (hS : S.interpreter.Scripting crew names Request.LeavesWorkers) (hstart : start.Rests crew)
    (h : S.Serves World.Beside (Request.CallsOn crew names) start w) :
    S.Shows World.Beside (Request.CallsOn crew names) start w AnswersStopped :=
  h.shows fun _ hshown => hshown.answersStopped hS hstart

end Setting

namespace Importing

def panicked (key : String) : Moment (language String) → Bool
  | ⟨[.load k u key'], .left (.call (.execute (lines : List (Line String)) j env)) (.panic none), x⟩ =>
    (k = 0 && u = 0 && j = 0 && env = 1 && lines = [.panics]) && key' = key &&
      !(x.worker 0).config.reloading
  | _ => false

def loaded (key : String) : Moment (language String) → Bool
  | ⟨[], .left (.load k u key') _, _⟩ => k = 0 && u = 0 && key' = key
  | _ => false

def panickedThenLoaded (key : String) : List (List (Moment (language String))) → Bool
  | [t, t'] => t.any (panicked key) && t'.any (loaded key)
  | _ => false

/-- A module whose body panicked is what a second load answers with. -/
theorem panicked_module_answered :
    ∃ t t' w x x', (setting id fun _ => [.panics]).Operates World.Beside
        (Request.CallsOn (· = 0) fun _ => True) (world String false [("m.yx", ByteArray.empty)]) [t, t'] w ∧
      ⟨[.load 0 0 "memory:app/m.yx"], .left (.call (.execute [.panics] 0 1)) (.panic none), x⟩ ∈ t ∧
      ⟨[], .left (.load 0 0 "memory:app/m.yx") (.done (.ok 1)), x'⟩ ∈ t' := by
  have heval : (((setting id fun _ => [.panics]).playOperations (.caller 0) 3
      [.loadModule 0 none "m", .loadModule 0 none "m"] (world String false [("m.yx", ByteArray.empty)])).any
      fun played => panickedThenLoaded "memory:app/m.yx" played.1) = true := by decide +kernel
  obtain ⟨⟨operations, w⟩, hplay, hshown⟩ := (Option.any_eq_true _ _).1 heval
  dsimp only [panickedThenLoaded] at hshown
  split at hshown
  case h_2 => cases hshown
  case h_1 _ t t' =>
  rw [Bool.and_eq_true, List.any_eq_true, List.any_eq_true] at hshown
  obtain ⟨⟨m, hm, hpanicked⟩, m', hm', hloaded⟩ := hshown
  have hruns : (setting id fun _ => [.panics]).Operates World.Beside
      (Request.CallsOn (· = 0) fun _ => True) (world String false [("m.yx", ByteArray.empty)]) [t, t'] w := by
    refine Setting.operates_of_play ?_ hplay
    intro request hrequest
    simp only [List.mem_cons, List.not_mem_nil, or_false, or_self] at hrequest
    subst hrequest
    exact ⟨rfl, trivial⟩
  unfold panicked at hpanicked
  unfold loaded at hloaded
  split at hpanicked
  case h_2 => cases hpanicked
  case h_1 k u key lines j env x =>
  split at hloaded
  case h_2 => cases hloaded
  case h_1 k' u' key' outcome x' =>
  simp only [Bool.and_eq_true, decide_eq_true_eq, Bool.not_eq_true'] at hpanicked hloaded
  obtain ⟨⟨⟨⟨⟨⟨rfl, rfl⟩, rfl⟩, rfl⟩, rfl⟩, rfl⟩, hreloading⟩ := hpanicked
  obtain ⟨⟨rfl, rfl⟩, rfl⟩ := hloaded
  have hall := Setting.Serves.answered_iff
    ((scripting id _ _ fun _ => trivial).mono fun _ h => h.leavesModules.leavesWorkers)
    (rests_world false _) hruns.serves
  have hparts : [t, t'] = [] ++ t :: [t'] := rfl
  have houtcome : outcome = .done (.ok 1) :=
    (hall.2 _ hruns hparts hm (fun _ h => nomatch h) List.mem_cons_self hm').2 ⟨hreloading, none, rfl⟩
  rw [houtcome] at hm'
  exact ⟨t, t', w, x, x', hruns, hm, hm'⟩

end Importing

end ScriptWorker
