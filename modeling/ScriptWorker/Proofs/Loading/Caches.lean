import ScriptWorker.Proofs.Loading.Nesting

/-!
# What steps make of a cache

Most steps of nested loads leave the cache of a worker alone. An entry may forget what was checked, a
load that comes to a module stores it, a registration checks the new module and a failed load takes
its key out of the checked view. Whatever is known of caches along a run follows from these cases.
-/

namespace ScriptWorker

open Relation World

variable {L : Language}

namespace ModuleCache

variable {cache : ModuleCache EnvironmentId} {key key' : String} {env : EnvironmentId}

theorem get?_put_mark (h : cache.get? key = some env) :
    ((cache.mark key env).put key env).get? key' = cache.get? key' := by
  rw [get?_put, get?_mark]
  by_cases hkey : key = key'
  · rw [if_pos hkey, ← hkey, h]
  · rw [if_neg hkey, if_neg fun hmark => hkey hmark.2]

theorem peek_put_mark :
    ((cache.mark key env).put key env).peek key' = if key = key' then some env else cache.peek key' := by
  rw [peek_put, peek_mark]
  by_cases hkey : key = key' <;> simp [hkey]

end ModuleCache

namespace Worker

variable {thread : ThreadId} {x : Worker} {key key' : String} {env : EnvironmentId}

theorem get?_entered : (x.entered thread).cache.get? key = x.cache.get? key := by
  unfold entered
  dsimp only
  split <;> simp

theorem of_peek_entered (hmode : x.cache.mode = .ofReloading x.config.reloading)
    (h : (x.entered thread).cache.peek key = some env) :
    x.cache.get? key = some env ∨ x.cache.peek key = some env ∧ 0 < x.serializer.depth := by
  by_cases hdepth : x.serializer.depth = 0
  · cases hreload : x.config.reloading with
    | true =>
      rw [hreload] at hmode
      simp [entered, hdepth, hreload, ModuleCache.peek_clear _ _ hmode] at h
    | false =>
      rw [hreload] at hmode
      left
      rw [← ModuleCache.peek_eq_get? _ _ hmode]
      simpa [entered, hreload] using h
  · rw [cache_entered (Nat.pos_of_ne_zero hdepth)] at h
    exact .inr ⟨h, Nat.pos_of_ne_zero hdepth⟩

end Worker

namespace World

theorem cache_modifyWorker {w : World L} {k j : WorkerId} {f : Worker → Worker}
    (hk : k < w.workers.size) :
    ((w.modifyWorker k f).worker j).cache =
      if k = j then (f (w.worker j)).cache else (w.worker j).cache := by
  rw [worker_modifyWorker]
  by_cases hj : k = j
  · subst hj
    rw [if_pos ⟨rfl, hk⟩, if_pos rfl]
  · rw [if_neg fun h => hj h.1, if_neg hj]

theorem cache_recorded {w : World L} {parent : Option UnitId} {u : UnitId} {j : WorkerId} :
    ((w.recorded parent u).worker j).cache = (w.worker j).cache :=
  (w.beside_recorded parent u).cache j

end World

namespace Activity

variable {s : List (Activity L)} {k j : WorkerId} {u : UnitId} {key : String}
  {stage stage' : Stage L}

theorem depth_le_cons (a : Activity L) : depth j s ≤ depth j (a :: s) := Nat.le_add_left ..

/-- Inside its serializer a load counts at least as often as anywhere else. -/
theorem depth_le_inside (h : stage.isInside) :
    depth j (load k u key stage' :: s) ≤ depth j (load k u key stage :: s) := by
  by_cases hj : k = j
  · subst hj
    by_cases h' : stage'.isInside
    · exact Nat.le_of_eq (by rw [depth_load_inside h, depth_load_inside h'])
    · rw [depth_load_inside h, depth_load_outside (Bool.not_eq_true _ ▸ h')]
      exact Nat.le_succ _
  · exact Nat.le_of_eq (by rw [depth_load_ne hj, depth_load_ne hj])

end Activity

namespace Config

structure Registers (c c' : Config L) (k : WorkerId) (key : String) (env : EnvironmentId) : Prop where
  new : env = c.world.environments.size
  size : env < c'.world.environments.size
  kind : (c'.world.environment env).kind = .module
  stack : ∃ u code time s, c.stack = .load k u key (.ready code time) :: s ∧
    c'.stack = .load k u key (.registered env code time) :: s

/-- What a step makes of the cache of a worker. -/
inductive CacheStep (thread : ThreadId) (k : WorkerId) (c c' : Config L) : Prop
  | same (cache : (c'.world.worker k).cache = (c.world.worker k).cache)
      (depth : Activity.depth k c'.stack ≤ Activity.depth k c.stack)
  | entered {s} (stack : c.stack = .invoke k .arriving :: s)
      (stack' : c'.stack = .invoke k .inside :: s)
      (cache : (c'.world.worker k).cache = ((c.world.worker k).entered thread).cache)
  /-- A load enters the worker and looks its key up. -/
  | consulted {u key stage s} (stack : c.stack = .load k u key .arriving :: s)
      (stack' : c'.stack = .load k u key stage :: s)
      (cache : (c'.world.worker k).cache =
        (((c.world.worker k).entered thread).cache.checked key).2)
  /-- A load comes to the stored module. -/
  | reused {u key env s} (stack : c.stack = .load k u key .opened :: s)
      (stack' : c'.stack = .load k u key (.settled (.done (.ok env))) :: s)
      (stored : (c.world.worker k).cache.get? key = some env) (fresh : c.world.isFresh u env)
      (cache : (c'.world.worker k).cache = ((c.world.worker k).cache.mark key env).put key env)
  | registered {key env} (registers : Registers c c' k key env)
      (cache : (c'.world.worker k).cache = (c.world.worker k).cache.mark key env)
  | filled {u key env code time s} (stack : c.stack = .load k u key (.filling env code time) :: s)
      (stack' : c'.stack = .load k u key (.settled (.done (.ok env))) :: s)
      (cache : (c'.world.worker k).cache = (c.world.worker k).cache.put key env)
  | failed {u key stage cause s} (stack : c.stack = .load k u key stage :: s)
      (renewing : stage.isRenewing)
      (stack' : c'.stack = .load k u key (.settled (.done (.error cause))) :: s)
      (cache : (c'.world.worker k).cache = (c.world.worker k).cache.uncheck key)

section CacheStep

variable {crew : WorkerId → Prop} {thread : ThreadId} {aside : World L → World L → Prop}
  {s : List (Activity L)} {H T : List (Moment L)} {w w' : World L} {k j : WorkerId} {u : UnitId}
  {key : String} {stage stage' : Stage L} {cache : ModuleCache EnvironmentId} {c c' : Config L}

theorem Seated.crew_of_mem (hseat : c.Seated crew thread) (hmem : .load k u key stage ∈ c.stack) :
    crew k := (hseat.known _ hmem).1

theorem registers_fill (s : List (Activity L)) (H : List (Moment L)) (w : World L) (k : WorkerId)
    (u : UnitId) (key : String) (resource : Resource) (code : L.Body) (time : UInt64) :
    Registers ⟨.load k u key (.ready code time) :: s, H, w⟩
      ⟨.load k u key (.registered w.environments.size code time) :: s, H,
        (w.addModule u resource).2.modifyWorker k (Worker.marked key w.environments.size)⟩
      k key w.environments.size where
  new := rfl
  size := by simp [World.addModule, World.addEnvironment, World.modifyWorker]
  kind := by
    unfold World.environment World.modifyWorker World.addModule World.addEnvironment
    dsimp only
    rw [Table.get?_push, if_pos rfl]
    rfl
  stack := ⟨u, code, time, s, rfl, rfl⟩

theorem CacheStep.of_load
    (hcache : (w'.worker k).cache = if j = k then cache else (w.worker k).cache)
    (hself : j = k → (w'.worker k).cache = cache →
      CacheStep thread k ⟨.load j u key stage :: s, H, w⟩ ⟨.load j u key stage' :: s, T, w'⟩) :
    CacheStep thread k ⟨.load j u key stage :: s, H, w⟩ ⟨.load j u key stage' :: s, T, w'⟩ := by
  by_cases hjk : j = k
  · exact hself hjk (hcache.trans (if_pos hjk))
  · refine .same (hcache.trans (if_neg hjk)) (Nat.le_of_eq ?_)
    rw [Activity.depth_load_ne hjk, Activity.depth_load_ne hjk]

theorem Step.cacheStep (haside : ∀ w w', aside w w' → w.Beside w')
    (h : Step crew thread aside c c') (hseat : c.Seated crew thread) (k : WorkerId) :
    CacheStep thread k c c' := by
  have hrow {j u key stage s} (hstack : c.stack = .load j u key stage :: s) :
      j < c.world.workers.size :=
    (hseat.workers j (hseat.crew_of_mem (hstack ▸ List.mem_cons_self))).row
  cases h with
  | aside h => exact .same ((haside _ _ h).cache k) (Nat.le_refl _)
  | arrive hk hload hholds => exact .same rfl (Nat.le_of_eq (Activity.depth_load_outside rfl))
  | hit hpeek =>
    refine .of_load (cache_recorded.trans (cache_modifyWorker (hrow rfl))) ?_
    rintro rfl hcache
    exact .consulted rfl rfl hcache
  | miss hpeek =>
    refine .of_load (cache_modifyWorker (hrow rfl)) ?_
    rintro rfl hcache
    exact .consulted rfl rfl hcache
  | @reuse s H w j u key env hget hfresh =>
    have hcache : (((w.modifyWorker j (Worker.marked key env)).closed j u key (Activity.script j s)
        (.ok env)).worker k).cache =
          if j = k then ((w.worker k).cache.mark key env).put key env else (w.worker k).cache := by
      unfold World.closed
      rw [cache_recorded, modifyWorker_modifyWorker, cache_modifyWorker (hrow rfl)]
      rfl
    refine .of_load hcache ?_
    rintro rfl hcache
    exact .reused rfl rfl hget hfresh hcache
  | refuse hstage =>
    refine .of_load (cache_recorded.trans (cache_modifyWorker (hrow rfl))) ?_
    rintro rfl hcache
    exact .failed rfl (Stage.isRenewing_of_isReading hstage) rfl hcache
  | fill hscript hcompiled =>
    refine .of_load (cache_modifyWorker (hrow rfl)) ?_
    rintro rfl hcache
    exact .registered (registers_fill ..) hcache
  | @finish s H w j u key env code time value hreturned =>
    have hrow' : j < (w.stamp env (w.checksumAt u time)).workers.size := hrow rfl
    refine .of_load (cache_recorded.trans (cache_modifyWorker hrow')) ?_
    rintro rfl hcache
    exact .filled rfl rfl hcache
  | fail hreturned =>
    refine .of_load (cache_recorded.trans (cache_modifyWorker (hrow rfl))) ?_
    rintro rfl hcache
    exact .failed rfl rfl rfl hcache
  | crash hstage hreturned =>
    refine .same ?_ (Activity.depth_le_inside hstage)
    rw [cache_modifyWorker (hrow rfl)]
    split <;> rfl
  | @enterInvoke s H w j =>
    have hcache : ((w.entered thread j).worker k).cache = _ :=
      cache_modifyWorker (hseat.workers j (hseat.known (.invoke j .arriving) List.mem_cons_self)).row
    by_cases hjk : j = k
    · subst hjk
      exact .entered rfl rfl (hcache.trans (if_pos rfl))
    · refine .same (hcache.trans (if_neg hjk)) (Nat.le_of_eq ?_)
      rw [Activity.depth_invoke_ne hjk, Activity.depth_invoke_ne hjk]
  | @settleInvoke s H w j =>
    refine .same ?_ ?_
    · rw [cache_modifyWorker (hseat.workers j (hseat.known (.invoke j .inside) List.mem_cons_self)).row]
      split <;> rfl
    · rw [Activity.depth_invoke_outside (by decide)]
      exact Activity.depth_le_cons _
  | arriveInvoke hk hcall =>
    exact .same rfl (Nat.le_of_eq (Activity.depth_invoke_outside (by decide)))
  | leave => exact .same rfl (Activity.depth_le_cons _)
  | leaveInvoke => exact .same rfl (Activity.depth_le_cons _)
  | _ => exact .same rfl (by simp [Activity.depth, Activity.entries, Stage.isInside])

end CacheStep

end Config

end ScriptWorker
