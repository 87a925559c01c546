import ScriptWorker.Proofs.Loading.Circular
import ScriptWorker.Proofs.Loading.Windows

/-!
# What a call has loaded

While no load of a worker fails and the worker is not called anew from outside, a key for which a
load has come to a module keeps it. It is checked, and it is stored as soon as no load of the key is
still filling it; and nothing else is checked.
-/

namespace ScriptWorker

open Relation World

variable {L : Language}

def Loaded (t : List (Moment L)) (k : WorkerId) (u : UnitId) (key : String) (env : EnvironmentId) :
    Prop :=
  ∃ frames v, ⟨frames, .left (.load k u key) (.done (.ok env)), v⟩ ∈ t

def AllLoaded (t : List (Moment L)) (k : WorkerId) : Prop :=
  ∀ frames u key o v, ⟨frames, .left (.load k u key) o, v⟩ ∈ t → ∃ env, o = .done (.ok env)

namespace Config

/-- A load of a unit has come to a module, and has said so or is about to. -/
def Given (c : Config L) (k : WorkerId) (u : UnitId) (key : String) (env : EnvironmentId) : Prop :=
  Loaded c.history k u key env ∨ ∃ s, c.stack = .load k u key (.settled (.done (.ok env))) :: s

/-- How a load comes to a module: its key was checked, or the stored module is fresh, or its body has
filled a new one. -/
inductive Comes (thread : ThreadId) (k : WorkerId) (u : UnitId) (key : String) (env : EnvironmentId)
    (parent : Option UnitId) (w : World L) : Stage L → World L → Prop
  | found : ((w.worker k).entered thread).cache.peek key = some env →
    Comes thread k u key env parent w .arriving (w.answered thread k u key parent)
  | reused : (w.worker k).cache.get? key = some env → w.isFresh u env →
    Comes thread k u key env parent w .opened
      ((w.modifyWorker k (Worker.marked key env)).closed k u key parent (.ok env))
  | filled {code time} :
    Comes thread k u key env parent w (.filling env code time)
      ((w.stamp env (w.checksumAt u time)).closed k u key parent (.ok env))

/-- Only what is being loaded or was loaded shows as checked. -/
def Viewed (c : Config L) (k : WorkerId) : Prop :=
  ∀ key env, (c.world.worker k).cache.peek key = some env → 0 < Activity.depth k c.stack →
    key ∈ Activity.progress k c.stack ∨ ∃ u, c.Given k u key env

/-- How a module is offered anew: the stored one was fresh, or another one was registered. -/
inductive Admits (c c' : Config L) (k : WorkerId) (key : String) (env : EnvironmentId) : Prop
  | reused {u s} : c.stack = .load k u key .opened :: s →
    (c.world.worker k).cache.get? key = some env → c.world.isFresh u env →
    c'.stack = .load k u key (.settled (.done (.ok env))) :: s → Admits c c' k key env
  | registered {u code time s} : c.stack = .load k u key (.ready code time) :: s →
    c'.stack = .load k u key (.registered env code time) :: s →
    env = c.world.environments.size → Admits c c' k key env

/-- A step in a stretch in which no load of a worker fails and the worker is not called anew. -/
structure Smooth (k : WorkerId) (c c' : Config L) : Prop where
  opens : ∀ m, c'.history = c.history ++ [m] → m.opens k = false
  settles : ∀ u key o s, c'.stack = .load k u key (.settled o) :: s → ∃ env, o = .done (.ok env)

section Given

variable {crew : WorkerId → Prop} {thread : ThreadId} {aside : World L → World L → Prop}
  {s : List (Activity L)} {H : List (Moment L)} {w : World L} {k : WorkerId} {u : UnitId}
  {key : String} {env : EnvironmentId} {stage : Stage L} {c c' : Config L}

theorem Step.given (h : Step crew thread aside c c') (hgiven : c.Given k u key env) :
    c'.Given k u key env := by
  rcases hgiven with ⟨frames, v, hmem⟩ | ⟨s, hstack⟩
  · refine .inl ⟨frames, v, ?_⟩
    rcases h.history with hsame | ⟨m, hadded⟩
    · exact hsame ▸ hmem
    · exact hadded ▸ List.mem_append_left _ hmem
  · obtain ⟨stack, H, w⟩ := c
    obtain rfl : _ = _ := hstack
    cases h with
    | aside h => exact .inr ⟨s, rfl⟩
    | arrive hk hload hholds => exact hload.elim
    | refuse hstage => cases hstage
    | crash hstage hreturned => cases hstage
    | leave => exact .inl ⟨_, _, List.mem_append_right _ (List.mem_singleton_self _)⟩
    | arriveInvoke hk hcall => exact hcall.elim

theorem Step.comes (h : Step crew thread aside c c') (hn : c.Nested)
    (hstack : c'.stack = .load k u key (.settled (.done (.ok env))) :: s) :
    c.stack = c'.stack ∨ ∃ stage, c.stack = .load k u key stage :: s ∧
      Comes thread k u key env (Activity.script k s) c.world stage c'.world := by
  cases h with
  | aside h => exact .inl rfl
  | hit hpeek =>
    cases hstack
    exact .inr ⟨_, rfl, .found hpeek⟩
  | reuse hget hfresh =>
    cases hstack
    exact .inr ⟨_, rfl, .reused hget hfresh⟩
  | finish hreturned =>
    cases hstack
    exact .inr ⟨_, rfl, .filled⟩
  | leave =>
    subst hstack
    exact hn.shaped.1.elim
  | leaveInvoke =>
    subst hstack
    exact hn.shaped.1.elim
  | comeBack =>
    subst hstack
    rcases Activity.below_call hn.shaped.1 with ⟨_, _, _, _, _, hbelow, hinside⟩ | ⟨_, _, hbelow⟩
    · cases hbelow
      cases hinside
    · cases hbelow
  | _ => cases hstack

theorem Step.of_given (h : Step crew thread aside c c') (hn : c.Nested)
    (hgiven : c'.Given k u key env) :
    c.Given k u key env ∨ ∃ stage s, c.stack = .load k u key stage :: s ∧
      c'.stack = .load k u key (.settled (.done (.ok env))) :: s ∧
      Comes thread k u key env (Activity.script k s) c.world stage c'.world := by
  rcases hgiven with ⟨frames, v, hmem⟩ | ⟨s, hstack⟩
  · left
    rcases h.history with hsame | ⟨m, hadded⟩
    · exact .inl ⟨frames, v, hsame ▸ hmem⟩
    · rw [hadded] at hmem
      rcases List.mem_append.1 hmem with hmem | hmem
      · exact .inl ⟨frames, v, hmem⟩
      · cases List.mem_singleton.1 hmem
        exact .inr ⟨_, (h.of_left_load hadded).1⟩
  · rcases h.comes hn hstack with hsame | ⟨stage, hbefore, hcomes⟩
    · exact .inl (.inr ⟨s, hsame.trans hstack⟩)
    · exact .inr ⟨stage, s, hbefore, hstack, hcomes⟩

theorem Seated.of_peek_entered (hseat : Seated crew thread ⟨s, H, w⟩) (hk : crew k)
    (hreload : (w.worker k).config.reloading = true)
    (hpeek : ((w.worker k).entered thread).cache.peek key = some env) :
    (w.worker k).cache.peek key = some env ∧ 0 < Activity.depth k s := by
  have hserializer : (w.worker k).serializer.depth = Activity.depth k s := by
    rw [(hseat.workers k hk).serializer, Serializer.heldBy_depth]
  by_cases hdepth : Activity.depth k s = 0
  · have hmode : (w.worker k).cache.mode = .development := by
      rw [(hseat.workers k hk).mode, hreload]
      rfl
    rw [← hserializer] at hdepth
    simp [Worker.entered, hdepth, hreload, ModuleCache.peek_clear _ _ hmode] at hpeek
  · have hpos := Nat.pos_of_ne_zero hdepth
    rw [Worker.cache_entered (hserializer ▸ hpos)] at hpeek
    exact ⟨hpeek, hpos⟩

end Given

/-! ## What is checked -/

section Viewed

variable {thread : ThreadId} {aside : World L → World L → Prop} {k : WorkerId} {key : String}
  {env : EnvironmentId} {c c' : Config L}

theorem Step.peek (haside : ∀ w w', aside w w' → w.Beside w') (h : Step (· = k) thread aside c c')
    (hseat : c.Seated (· = k) thread) (hreload : (c.world.worker k).config.reloading = true)
    (hpeek : (c'.world.worker k).cache.peek key = some env) (hdepth : 0 < Activity.depth k c'.stack) :
    (c.world.worker k).cache.peek key = some env ∧ 0 < Activity.depth k c.stack ∨
      Admits c c' k key env := by
  have hinside {u key' stage s} (hstack : c.stack = .load k u key' stage :: s)
      (hstage : stage.isInside) : 0 < Activity.depth k c.stack :=
    Activity.depth_pos (hstack ▸ List.mem_cons_self) hstage
  cases h.cacheStep haside hseat k with
  | same hcache hle => exact .inl ⟨hcache ▸ hpeek, Nat.lt_of_lt_of_le hdepth hle⟩
  | entered hstack hstack' hcache =>
    rw [hcache] at hpeek
    exact .inl (hseat.of_peek_entered rfl hreload hpeek)
  | consulted hstack hstack' hcache =>
    rw [hcache, ModuleCache.peek_checked] at hpeek
    exact .inl (hseat.of_peek_entered rfl hreload hpeek)
  | reused hstack hstack' hstored hfresh hcache =>
    rw [hcache, ModuleCache.peek_put_mark] at hpeek
    split at hpeek
    · next hkey =>
      cases hpeek
      subst hkey
      exact .inr (.reused hstack hstored hfresh hstack')
    · exact .inl ⟨hpeek, hinside hstack rfl⟩
  | registered hregisters hcache =>
    obtain ⟨_, _, _, _, hstack, hstack'⟩ := hregisters.stack
    rw [hcache, ModuleCache.peek_mark] at hpeek
    split at hpeek
    · next hkey =>
      cases hpeek
      subst hkey
      exact .inr (.registered hstack hstack' hregisters.new)
    · exact .inl ⟨hpeek, hinside hstack rfl⟩
  | filled hstack hstack' hcache =>
    have hmode : (c.world.worker k).cache.mode = .development := by
      rw [(hseat.workers k rfl).mode, hreload]
      rfl
    rw [hcache, ModuleCache.peek_put, if_neg (by simp [hmode])] at hpeek
    exact .inl ⟨hpeek, hinside hstack rfl⟩
  | failed hstack hrenewing hstack' hcache =>
    rw [hcache, ModuleCache.peek_uncheck] at hpeek
    split at hpeek
    · cases hpeek
    · exact .inl ⟨hpeek, hinside hstack (Stage.isInside_of_isRenewing hrenewing)⟩

theorem Step.progress (h : Step (· = k) thread aside c c') (hkey : key ∈ Activity.progress k c.stack) :
    key ∈ Activity.progress k c'.stack ∨ ∃ u o s, c'.stack = .load k u key (.settled o) :: s := by
  cases h <;> grind [Activity.progress, Stage.isInside]

theorem Step.viewed (haside : ∀ w w', aside w w' → w.Beside w')
    (h : Step (· = k) thread aside c c') (hseat : c.Seated (· = k) thread)
    (hreload : (c.world.worker k).config.reloading = true) (hsmooth : Smooth k c c')
    (hanswered : c'.Answered) (hviewed : c.Viewed k) : c'.Viewed k := by
  intro key env hpeek hdepth
  rcases h.peek haside hseat hreload hpeek hdepth with ⟨hbefore, hpos⟩ | hadmits
  · rcases hviewed key env hbefore hpos with hkey | ⟨u, hgiven⟩
    · rcases h.progress hkey with hkey' | ⟨u, o, s, hstack⟩
      · exact .inl hkey'
      · -- the load has come to a module, and this module is what the key shows now
        obtain ⟨found, rfl⟩ := hsmooth.settles u key o s hstack
        have hchecked := (hanswered k u key found s hstack).checked
        cases hchecked.symm.trans hpeek
        exact .inr ⟨u, .inr ⟨s, hstack⟩⟩
    · exact .inr ⟨u, h.given hgiven⟩
  · cases hadmits with
    | reused hstack hstored hfresh hstack' => exact .inr ⟨_, .inr ⟨_, hstack'⟩⟩
    | registered hstack hstack' hnew =>
      left
      rw [hstack', Activity.progress_load_inside rfl]
      exact List.mem_cons_self

theorem Step.filling {u : UnitId} {key : String} {env : EnvironmentId} {code : L.Body} {time : UInt64}
    (h : Step (· = k) thread aside c c') (hseat : c.Seated (· = k) thread)
    (hmem : .load k u key (.filling env code time) ∈ c.stack) :
    .load k u key (.filling env code time) ∈ c'.stack ∨ ∃ o s,
      c'.stack = .load k u key (.settled o) :: s ∧
        (∀ found, o = .done (.ok found) → (c'.world.worker k).cache.get? key = some env) := by
  have hrow := (hseat.workers k rfl).row
  cases h
  case finish s H w j v key' found code' time' value hreturned =>
    rcases List.mem_cons.1 hmem with heq | hmem
    · cases heq
      refine .inr ⟨_, s, rfl, fun _ _ => ?_⟩
      have hrow' : k < (w.stamp env (w.checksumAt u time)).workers.size := hrow
      unfold World.closed
      rw [cache_recorded, cache_modifyWorker hrow', if_pos rfl]
      exact (ModuleCache.get?_put ..).trans (if_pos rfl)
    · exact .inl (List.mem_cons_of_mem _ hmem)
  case fail s H w j v key' found code' time' cause hreturned =>
    rcases List.mem_cons.1 hmem with heq | hmem
    · cases heq
      exact .inr ⟨_, s, rfl, fun _ h => nomatch h⟩
    · exact .inl (List.mem_cons_of_mem _ hmem)
  case crash s H w j v key' stage callee payload hstage hreturned =>
    rcases List.mem_cons.1 hmem with heq | hmem
    · cases heq
      exact .inr ⟨_, s, rfl, fun _ h => nomatch h⟩
    · exact .inl (List.mem_cons_of_mem _ hmem)
  all_goals
    left
    grind [Stage.isReading]

end Viewed

/-- What loads have come to is what their keys show, and nothing else shows. -/
structure Delivers (c : Config L) (k : WorkerId) : Prop where
  answered : c.Answered
  holds : ∀ u key env, c.Given k u key env → c.world.Holds k u key
  kept : ∀ u key env, c.Given k u key env → c.Kept k key env true
  viewed : c.Viewed k
  stored : ∀ u key env, c.Given k u key env → (c.world.worker k).cache.get? key = some env ∨
    ∃ code time, .load k u key (.filling env code time) ∈ c.stack

section Delivers

variable {thread : ThreadId} {aside : World L → World L → Prop} {k : WorkerId} {u : UnitId}
  {key : String} {env : EnvironmentId} {stage : Stage L} {s : List (Activity L)} {c c' : Config L}

theorem Delivers.filling (hd : c.Delivers k) (hseat : c.Seated (· = k) thread)
    (hgiven : c.Given k u key env) {v : UnitId} (hmem : .load k v key stage ∈ c.stack)
    (hinside : stage.isInside) : v = u ∧ ∃ code time, stage = .filling env code time := by
  have hload : k = k ∧ c.world.Holds k v key := hseat.known _ hmem
  refine ⟨hload.2.unique (hd.holds u key env hgiven), ?_⟩
  have hkeeps := (hd.kept u key env hgiven).loads v stage hmem
  cases stage with
  | filling found code time => exact ⟨code, time, by rw [hkeeps.2]⟩
  | arriving => cases hinside
  | settled o => cases hinside
  | _ => exact hkeeps.elim

theorem Delivers.stays (hd : c.Delivers k) (haside : ∀ w w', aside w w' → w.Beside w')
    (h : Step (· = k) thread aside c c') (hseat : c.Seated (· = k) thread) (hsmooth : Smooth k c c')
    (hgiven : c.Given k u key env) :
    (c'.world.worker k).cache.get? key = some env ∨
      ∃ code time, .load k u key (.filling env code time) ∈ c'.stack := by
  by_cases hprogress : ∃ v stage, .load k v key stage ∈ c.stack ∧ stage.isInside
  · obtain ⟨v, stage, hmem, hinside⟩ := hprogress
    obtain ⟨rfl, code, time, rfl⟩ := hd.filling hseat hgiven hmem hinside
    rcases h.filling hseat hmem with hmem | ⟨o, s, hstack, hget⟩
    · exact .inr ⟨code, time, hmem⟩
    · obtain ⟨found, rfl⟩ := hsmooth.settles _ _ _ _ hstack
      exact .inl (hget found rfl)
  · rcases hd.stored u key env hgiven with hget | ⟨code, time, hmem⟩
    · left
      rw [h.get?_outside haside hseat fun v stage hmem hrenewing =>
        hprogress ⟨v, stage, hmem, Stage.isInside_of_isRenewing hrenewing⟩]
      exact hget
    · exact (hprogress ⟨u, _, hmem, rfl⟩).elim

/-- What a load finds checked was given before, or is being filled by a load around it. -/
theorem Delivers.found (hd : c.Delivers k) (hc : c.Sound (· = k) thread)
    (hreload : (c.world.worker k).config.reloading = true)
    (hstack : c.stack = .load k u key .arriving :: s)
    (hpeek : ((c.world.worker k).entered thread).cache.peek key = some env) :
    c.Given k u key env ∨ ∃ code time, .load k u key (.filling env code time) ∈ s := by
  obtain ⟨stack, H, w⟩ := c
  obtain rfl : _ = _ := hstack
  have hload : k = k ∧ w.Holds k u key := hc.seated.known _ List.mem_cons_self
  obtain ⟨hview, hdepth⟩ := hc.seated.of_peek_entered rfl hreload hpeek
  rcases hd.viewed key env hview hdepth with hkey | ⟨v, hgiven⟩
  · rw [Activity.progress_load_outside rfl] at hkey
    obtain ⟨v, stage, hmem, -⟩ := Activity.exists_of_mem_progress hkey
    obtain ⟨found, code, time, rfl⟩ :=
      Activity.filling_of_mayLoad hc.nested.shaped.2 hc.nested.shaped.1 hmem
    have hmem' := List.mem_cons_of_mem (.load k u key .arriving) hmem
    have hfilled : (w.worker k).cache.peek key = some found :=
      hc.nested.filled k v key _ found hmem' rfl
    have hother : k = k ∧ w.Holds k v key := hc.seated.known _ hmem'
    obtain rfl := hother.2.unique hload.2
    cases hview.symm.trans hfilled
    exact .inr ⟨code, time, hmem⟩
  · obtain rfl := (hd.holds v key env hgiven).unique hload.2
    exact .inl hgiven

theorem Step.delivers (haside : ∀ w w', aside w w' → w.Beside w')
    (h : Step (· = k) thread aside c c') (hc : c.Sound (· = k) thread)
    (hreload : (c.world.worker k).config.reloading = true) (hsmooth : Smooth k c c')
    (hd : c.Delivers k) : c'.Delivers k := by
  have hanswered := h.answered haside hc.seated hc.nested hd.answered
  refine ⟨hanswered, fun u key env hgiven => ?_, fun u key env hgiven => ?_,
    h.viewed haside hc.seated hreload hsmooth hanswered hd.viewed, fun u key env hgiven => ?_⟩ <;>
    rcases h.of_given hc.nested hgiven with hbefore | ⟨stage, s, hstack, hstack', hcomes⟩
  · exact h.holds haside (hd.holds u key env hbefore)
  · have hmem : .load k u key stage ∈ c.stack := hstack ▸ List.mem_cons_self
    have hload : k = k ∧ c.world.Holds k u key := hc.seated.known _ hmem
    exact h.holds haside hload.2
  · rcases h.kept haside hc.seated hc.nested rfl (hd.kept u key env hbefore)
      (fun _ => hsmooth.opens) with hkept | ⟨v, cause, s, hstack⟩
    · exact hkept
    · obtain ⟨found, hfound⟩ := hsmooth.settles v key _ s hstack
      cases hfound
  · exact hanswered k u key env s hstack'
  · exact hd.stays haside h hc.seated hsmooth hbefore
  · have hrow := (hc.seated.workers k rfl).row
    generalize hworld : c'.world = w' at hcomes ⊢
    cases hcomes with
    | found hpeek =>
      rcases hd.found hc hreload hstack hpeek with hgiven | ⟨code, time, hmem⟩
      · have hstays := hd.stays haside h hc.seated hsmooth hgiven
        rwa [hworld] at hstays
      · exact .inr ⟨code, time, hstack' ▸ List.mem_cons_of_mem _ hmem⟩
    | reused hget hfresh =>
      left
      unfold World.closed
      rw [modifyWorker_modifyWorker, cache_recorded, cache_modifyWorker hrow, if_pos rfl]
      exact (ModuleCache.get?_put ..).trans (if_pos rfl)
    | @filled code time =>
      left
      have hrow' : k < (c.world.stamp env (c.world.checksumAt u time)).workers.size := hrow
      unfold World.closed
      rw [cache_recorded, cache_modifyWorker hrow', if_pos rfl]
      exact (ModuleCache.get?_put ..).trans (if_pos rfl)

/-- Along a path on which no load fails and the worker is not called anew, every step is smooth. -/
theorem Path.smooth {c₀ c₁ c₂ : Config L} {w : World L} {t : List (Moment L)}
    (h₁ : Path (· = k) thread aside c₀ c₁) (hstep : Step (· = k) thread aside c₁ c₂)
    (h₂ : Path (· = k) thread aside c₂ ⟨[], t, w⟩) (hstart : c₀.history ≠ [])
    (hopens : ∀ m ∈ t.tail, m.opens k = false) (hall : AllLoaded t k) : Smooth k c₁ c₂ := by
  constructor
  · intro m hadded
    obtain ⟨before, hbefore⟩ := h₁.history
    obtain ⟨after, hafter⟩ := h₂.history
    obtain ⟨first, rest, hfirst⟩ := List.exists_cons_of_ne_nil hstart
    refine hopens m ?_
    change t = _ at hafter
    rw [hafter, hadded, hbefore, hfirst]
    simp
  · intro u key o s hstack
    obtain ⟨stack, H, w₂⟩ := c₂
    obtain rfl : _ = _ := hstack
    obtain ⟨x, after, -, hafter⟩ := h₂.leaves rfl
    refine hall (Activity.frames s) u key o x ?_
    change t = _ at hafter
    rw [hafter]
    exact List.mem_append_right _ List.mem_cons_self

theorem Path.delivers (haside : ∀ w w', aside w w' → w.Beside w')
    (h : Path (· = k) thread aside c c') (hc : c.Sound (· = k) thread)
    (hreload : (c.world.worker k).config.reloading = true) (hd : c.Delivers k)
    (hsmooth : ∀ c₁ c₂, Path (· = k) thread aside c c₁ → Step (· = k) thread aside c₁ c₂ →
      Path (· = k) thread aside c₂ c' → Smooth k c₁ c₂) : c'.Delivers k := by
  induction h with
  | refl => exact hd
  | @tail b c' hpath hstep ih =>
    have hbefore := ih fun c₁ c₂ h₁ h h₂ => hsmooth c₁ c₂ h₁ h (h₂.tail hstep)
    have hconfig := Path.config haside hpath k
    exact hstep.delivers haside (Path.sound haside hpath hc) (hconfig ▸ hreload)
      (hsmooth b c' hpath hstep .refl) hbefore

end Delivers

end Config

end ScriptWorker
