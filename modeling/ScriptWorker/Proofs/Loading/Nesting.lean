import ScriptWorker.Proofs.Loading.Requests

/-!
# Loads in progress

The keys whose loads are in progress on a worker are different from each other, and each of them is
in the checked view, with the module that its load fills, for as long as its body runs. Neither mode
of the cache and no nesting of other loads, failed ones included, can take it out.
-/

namespace ScriptWorker

open Relation World

variable {L : Language}

namespace Activity

/-- Whether an activity may stand on what is under way below it. -/
def Fits : Activity L → List (Activity L) → Prop
  | load .., rest => MayLoad rest
  | invoke .., rest => MayCall rest
  | call (.compile ..), rest => ∃ k u key time text below,
      rest = load k u key (.compiling time text) :: below
  | call (.execute code k env), rest => ∃ u key time below,
      rest = load k u key (.filling env code time) :: below
  | call (.call ..), rest => ∃ k below, rest = invoke k .inside :: below
  | call _, _ => False

def Shaped : List (Activity L) → Prop
  | [] => True
  | a :: rest => a.Fits rest ∧ Shaped rest

/-- The keys whose loads are in progress on a worker, the innermost first. -/
def progress (k : WorkerId) : List (Activity L) → List String
  | [] => []
  | load j _ key stage :: rest =>
    if j = k ∧ stage.isInside then key :: progress k rest else progress k rest
  | invoke .. :: rest => progress k rest
  | call _ :: rest => progress k rest

section Shapes

variable {k j : WorkerId} {u : UnitId} {key : String} {stage : Stage L} {s : List (Activity L)}

theorem MayCall.mayLoad (h : MayCall s) : MayLoad s := by
  cases s with
  | nil => trivial
  | cons a rest => cases a <;> first | exact h | exact h.elim

theorem filling_of_mayLoad {s : List (Activity L)} (hs : Shaped s) (hmay : MayLoad s)
    (hmem : load k u key stage ∈ s) : ∃ env code time, stage = .filling env code time := by
  match s with
  | [] => cases hmem
  | load .. :: _ => exact hmay.elim
  | invoke _ _ :: rest =>
    rcases List.mem_cons.1 hmem with h | h
    · cases h
    · exact filling_of_mayLoad hs.2 hs.1.mayLoad h
  | call callee :: rest =>
    have hrest : load k u key stage ∈ rest := by
      rcases List.mem_cons.1 hmem with h | h
      · cases h
      · exact h
    match callee with
    | .execute code i env =>
      obtain ⟨v, key', time, below, rfl⟩ := hs.1
      rcases List.mem_cons.1 hrest with h | h
      · cases h
        exact ⟨env, code, time, rfl⟩
      · exact filling_of_mayLoad hs.2.2 hs.2.1 h
    | .call .. =>
      obtain ⟨i, below, rfl⟩ := hs.1
      exact filling_of_mayLoad hs.2 trivial hrest
    | .compile .. => exact hmay.elim
    | .load .. => exact hmay.elim
    | .evaluate .. => exact hmay.elim
    | .depend .. => exact hmay.elim
    | .resolve .. => exact hmay.elim
    | .job .. => exact hmay.elim

theorem progress_load_inside (h : stage.isInside) :
    progress k (load k u key stage :: s) = key :: progress k s := by
  simp [progress, h]

theorem progress_load_outside (h : stage.isInside = false) :
    progress j (load k u key stage :: s) = progress j s := by
  simp [progress, h]

theorem progress_load_ne (h : k ≠ j) : progress j (load k u key stage :: s) = progress j s := by
  simp [progress, h]

theorem mem_progress (hmem : load k u key stage ∈ s) (h : stage.isInside) :
    key ∈ progress k s := by
  induction s with
  | nil => cases hmem
  | cons a rest ih =>
    rcases List.mem_cons.1 hmem with rfl | hrest
    · rw [progress_load_inside h]
      exact List.mem_cons_self
    · have hkey := ih hrest
      cases a with
      | load j u' key' stage' =>
        unfold progress
        split
        · exact List.mem_cons_of_mem _ hkey
        · exact hkey
      | invoke j progression => exact hkey
      | call callee => exact hkey

theorem exists_of_mem_progress (h : key ∈ progress k s) :
    ∃ u stage, load k u key stage ∈ s ∧ stage.isInside := by
  induction s with
  | nil => cases h
  | cons a rest ih =>
    have hrest : key ∈ progress k rest → ∃ u stage, load k u key stage ∈ a :: rest ∧
        stage.isInside := by
      intro hkey
      obtain ⟨u, stage, hmem, hinside⟩ := ih hkey
      exact ⟨u, stage, List.mem_cons_of_mem a hmem, hinside⟩
    cases a with
    | load j u key' stage =>
      unfold progress at h
      split at h
      · next hj =>
        rcases List.mem_cons.1 h with rfl | h
        · obtain ⟨rfl, hinside⟩ := hj
          exact ⟨u, stage, List.mem_cons_self, hinside⟩
        · exact hrest h
      · exact hrest h
    | invoke j progression => exact hrest h
    | call callee => exact hrest h

theorem depth_pos (hmem : load k u key stage ∈ s) (h : stage.isInside) : 0 < depth k s := by
  induction s with
  | nil => cases hmem
  | cons a rest ih =>
    rcases List.mem_cons.1 hmem with rfl | hrest
    · rw [depth_load_inside h]
      omega
    · have hpos := ih hrest
      unfold depth
      omega

end Shapes

end Activity

namespace Worker

variable {thread : ThreadId} {x : Worker} {key key' : String} {u : UnitId} {env : EnvironmentId}
  {parent : Option UnitId}

/-- Only the outermost entry can change what was checked. -/
theorem cache_entered (h : 0 < x.serializer.depth) : (x.entered thread).cache = x.cache := by
  have hdepth : x.serializer.depth ≠ 0 := by omega
  simp [entered, hdepth]

theorem peek_answered :
    (x.answered thread key).cache.peek key' = (x.entered thread).cache.peek key' :=
  ModuleCache.peek_checked ..

theorem peek_opened :
    (x.opened thread u key).cache.peek key' = (x.entered thread).cache.peek key' :=
  ModuleCache.peek_checked ..

theorem peek_marked :
    (x.marked key env).cache.peek key' = if key = key' then some env else x.cache.peek key' :=
  ModuleCache.peek_mark ..

theorem peek_closed_ne {answer : Answer EnvironmentId} (h : key ≠ key') :
    (x.closed key parent answer).cache.peek key' = x.cache.peek key' := by
  change (settledCache key answer x.cache).peek key' = x.cache.peek key'
  cases answer with
  | error cause =>
    change (x.cache.uncheck key).peek key' = _
    rw [ModuleCache.peek_uncheck, if_neg h]
  | ok env =>
    change (x.cache.put key env).peek key' = _
    rw [ModuleCache.peek_put, if_neg fun hkey => h hkey.2]

end Worker

namespace World

def Filled (w : World L) (s : List (Activity L)) : Prop :=
  ∀ k u key stage env, .load k u key stage ∈ s → stage.module? = some env →
    (w.worker k).cache.peek key = some env

section Filled

variable {w w' : World L} {s : List (Activity L)} {k : WorkerId} {f : Worker → Worker}

theorem Filled.of_cache (h : w.Filled s) (hcache : ∀ k, (w'.worker k).cache = (w.worker k).cache) :
    w'.Filled s := by
  intro k u key stage env hmem hmodule
  rw [hcache]
  exact h k u key stage env hmem hmodule

theorem Filled.modifyWorker (h : w.Filled s)
    (hf : ∀ u key stage env, .load k u key stage ∈ s → stage.module? = some env →
      (f (w.worker k)).cache.peek key = (w.worker k).cache.peek key) :
    (w.modifyWorker k f).Filled s := by
  intro j u key stage env hmem hmodule
  rw [worker_modifyWorker]
  split
  · next hj =>
    obtain ⟨rfl, -⟩ := hj
    rw [hf u key stage env hmem hmodule]
    exact h k u key stage env hmem hmodule
  · exact h j u key stage env hmem hmodule

theorem Filled.recorded {parent : Option UnitId} {u : UnitId} (h : w.Filled s) :
    (w.recorded parent u).Filled s :=
  h.of_cache (w.beside_recorded parent u).cache

theorem Filled.tail {a : Activity L} (h : w.Filled (a :: s)) : w.Filled s :=
  fun k u key stage env hmem => h k u key stage env (List.mem_cons_of_mem a hmem)

theorem Filled.cons {a : Activity L} (h : w.Filled s)
    (ha : ∀ k u key stage env, a = .load k u key stage → stage.module? = some env →
      (w.worker k).cache.peek key = some env) : w.Filled (a :: s) := by
  intro k u key stage env hmem hmodule
  rcases List.mem_cons.1 hmem with heq | hmem
  · exact ha k u key stage env heq.symm hmodule
  · exact h k u key stage env hmem hmodule

end Filled

end World

namespace Config

/-- How loads in progress are nested. -/
structure Nested (c : Config L) : Prop where
  shaped : Activity.Shaped c.stack
  distinct : ∀ k, (Activity.progress k c.stack).Nodup
  filled : c.world.Filled c.stack

section Nested

variable {crew : WorkerId → Prop} {thread : ThreadId} {s : List (Activity L)}
  {a b : Activity L} {H T : List (Moment L)} {w w' : World L} {k : WorkerId} {u : UnitId}
  {key : String} {stage stage' : Stage L}

/-- What a load does to the cache at its own key shows to no other load in progress. -/
theorem Nested.filled_modifyWorker {f : Worker → Worker}
    (hn : Nested ⟨.load k u key stage :: s, H, w⟩) (hstage : stage.isInside)
    (hf : ∀ key', key ≠ key' → (f (w.worker k)).cache.peek key' = (w.worker k).cache.peek key') :
    (w.modifyWorker k f).Filled s := by
  apply hn.filled.tail.modifyWorker
  intro u' key' stage' env hmem hmodule
  apply hf
  rintro rfl
  have hdistinct : (Activity.progress k (.load k u key stage :: s)).Nodup := hn.distinct k
  rw [Activity.progress_load_inside hstage] at hdistinct
  exact (List.nodup_cons.1 hdistinct).1 (Activity.mem_progress hmem (Stage.isInside_of_module? hmodule))

theorem Nested.advance (hn : Nested ⟨.load k u key stage :: s, H, w⟩)
    (hprogress : ∀ j, (Activity.progress j (.load k u key stage' :: s)).Nodup)
    (hfilled : w'.Filled s)
    (hview : ∀ env, stage'.module? = some env →
      (w'.worker k).cache.peek key = some env) :
    Nested ⟨.load k u key stage' :: s, T, w'⟩ := by
  refine ⟨⟨hn.shaped.1, hn.shaped.2⟩, hprogress, hfilled.cons ?_⟩
  intro j v key' stage env heq hmodule
  cases heq
  exact hview env hmodule

theorem Nested.progress_tail (hn : Nested ⟨a :: s, H, w⟩) (j : WorkerId) :
    (Activity.progress j s).Nodup := by
  have hdistinct : (Activity.progress j (a :: s)).Nodup := hn.distinct j
  cases a with
  | load k u key stage =>
    unfold Activity.progress at hdistinct
    split at hdistinct
    · exact (List.nodup_cons.1 hdistinct).2
    · exact hdistinct
  | invoke k progression => exact hdistinct
  | call callee => exact hdistinct

theorem Nested.progress_inside (hn : Nested ⟨.load k u key stage :: s, H, w⟩)
    (hstage : stage.isInside) (hstage' : stage'.isInside) (j : WorkerId) :
    (Activity.progress j (.load k u key stage' :: s)).Nodup := by
  have hdistinct : (Activity.progress j (.load k u key stage :: s)).Nodup := hn.distinct j
  unfold Activity.progress at hdistinct ⊢
  rw [hstage']
  rw [hstage] at hdistinct
  exact hdistinct

theorem Nested.progress_outside (hn : Nested ⟨.load k u key stage :: s, H, w⟩)
    (hstage' : stage'.isInside = false) (j : WorkerId) :
    (Activity.progress j (.load k u key stage' :: s)).Nodup := by
  rw [Activity.progress_load_outside hstage']
  exact hn.progress_tail j

theorem Nested.pop (hn : Nested ⟨a :: s, H, w⟩) : Nested ⟨s, T, w⟩ :=
  ⟨hn.shaped.2, hn.progress_tail, hn.filled.tail⟩

theorem Nested.push (hn : Nested ⟨s, H, w⟩) (hfits : a.Fits s)
    (hprogress : ∀ j, Activity.progress j (a :: s) = Activity.progress j s)
    (ha : ∀ k u key stage env, a = .load k u key stage → stage.module? ≠ some env) :
    Nested ⟨a :: s, T, w⟩ :=
  ⟨⟨hfits, hn.shaped⟩, fun j => by rw [hprogress j]; exact hn.distinct j,
    hn.filled.cons fun k u key stage env heq hmodule => (ha k u key stage env heq hmodule).elim⟩

/-- An entry that finds a load in progress leaves the checked view alone. -/
theorem Nested.peek_entered (hseat : Seated crew thread ⟨s, H, w⟩) (hk : crew k)
    (hmem : .load k u key stage ∈ s) (hstage : stage.isInside) (key' : String) :
    ((w.worker k).entered thread).cache.peek key' = (w.worker k).cache.peek key' := by
  have hpos := Activity.depth_pos hmem hstage
  rw [Worker.cache_entered]
  rw [(hseat.workers k hk).serializer]
  exact hpos

theorem Nested.filled_entered {f : Worker → Worker} (hseat : Seated crew thread ⟨a :: s, H, w⟩)
    (hn : Nested ⟨a :: s, H, w⟩) (hk : crew k)
    (hf : ∀ x key', (f x).cache.peek key' = (x.entered thread).cache.peek key') :
    (w.modifyWorker k f).Filled s := by
  apply hn.filled.tail.modifyWorker
  intro u key stage env hmem hmodule
  rw [hf]
  exact peek_entered hseat hk (List.mem_cons_of_mem a hmem) (Stage.isInside_of_module? hmodule) key

theorem Nested.fresh (hseat : Seated crew thread ⟨.load k u key .arriving :: s, H, w⟩)
    (hn : Nested ⟨.load k u key .arriving :: s, H, w⟩) (hk : crew k)
    (hpeek : ((w.worker k).entered thread).cache.peek key = none) :
    key ∉ Activity.progress k s := by
  intro hkey
  obtain ⟨v, stage, hmem, hinside⟩ := Activity.exists_of_mem_progress hkey
  obtain ⟨env, code, time, rfl⟩ := Activity.filling_of_mayLoad hn.shaped.2 hn.shaped.1 hmem
  have hmem' := List.mem_cons_of_mem (.load k u key .arriving) hmem
  have hfilled : (w.worker k).cache.peek key = some env := hn.filled k v key _ env hmem' rfl
  rw [peek_entered hseat hk hmem' rfl, hfilled] at hpeek
  cases hpeek

theorem Step.nested {aside : World L → World L → Prop} (haside : ∀ w w', aside w w' → w.Beside w')
    {c c' : Config L} (h : Step crew thread aside c c') (hseat : c.Seated crew thread)
    (hn : c.Nested) : c'.Nested := by
  cases h with
  | aside h => exact ⟨hn.shaped, hn.distinct, hn.filled.of_cache (haside _ _ h).cache⟩
  | arrive hk hload hholds =>
    exact hn.push hload (fun _ => Activity.progress_load_outside rfl) fun _ _ _ _ _ h => by
      cases h
      simp [Stage.module?]
  | @hit s H w k u key env hpeek =>
    have hk := (hseat.known (.load k u key .arriving) List.mem_cons_self).1
    refine hn.advance (hn.progress_outside rfl) ?_ fun _ h => by cases h
    exact (hn.filled_entered hseat hk fun _ _ => Worker.peek_answered).recorded
  | @miss s H w k u key hpeek =>
    have hk := (hseat.known (.load k u key .arriving) List.mem_cons_self).1
    refine hn.advance (fun j => ?_) (hn.filled_entered hseat hk fun _ _ => Worker.peek_opened)
      fun _ h => by cases h
    by_cases hj : k = j
    · subst hj
      rw [Activity.progress_load_inside rfl]
      exact List.nodup_cons.2 ⟨hn.fresh hseat hk hpeek, hn.progress_tail k⟩
    · rw [Activity.progress_load_ne hj]
      exact hn.progress_tail j
  | reuse hget hfresh =>
    refine hn.advance (hn.progress_outside rfl) ?_ fun _ h => by cases h
    unfold World.closed
    rw [modifyWorker_modifyWorker]
    refine (hn.filled_modifyWorker rfl fun key' hne => ?_).recorded
    rw [Worker.peek_closed_ne hne, Worker.peek_marked, if_neg hne]
  | distrust hstale =>
    exact hn.advance (hn.progress_inside rfl rfl) hn.filled.tail fun _ h => by cases h
  | date hscript =>
    exact hn.advance (hn.progress_inside rfl rfl) hn.filled.tail fun _ h => by cases h
  | remember hcompiled =>
    exact hn.advance (hn.progress_inside rfl rfl) hn.filled.tail fun _ h => by cases h
  | read hscript htext =>
    exact hn.advance (hn.progress_inside rfl rfl) hn.filled.tail fun _ h => by cases h
  | compile hscript =>
    exact hn.push ⟨_, _, _, _, _, _, rfl⟩ (fun _ => rfl) fun _ _ _ _ _ h => by cases h
  | compiled hscript hreturned =>
    exact hn.advance (hn.progress_inside rfl rfl) hn.filled.tail fun _ h => by cases h
  | refuse hstage =>
    refine hn.advance (hn.progress_outside rfl) ?_ fun _ h => by cases h
    exact (hn.filled_modifyWorker (Stage.isInside_of_isReading hstage)
      fun _ hne => Worker.peek_closed_ne hne).recorded
  | @fill s H w k u key resource code time hscript hcompiled =>
    have hk := (hseat.known (.load k u key (.ready code time)) List.mem_cons_self).1
    have hadded : Nested ⟨.load k u key (.ready code time) :: s, H, (w.addModule u resource).2⟩ :=
      ⟨hn.shaped, hn.distinct, hn.filled.of_cache (w.beside_addModule u resource).cache⟩
    refine hadded.advance (hn.progress_inside rfl rfl)
      (hadded.filled_modifyWorker rfl fun _ hne => ?_) fun env heq => ?_
    · rw [Worker.peek_marked, if_neg hne]
    · cases heq
      have hrow : k < (w.addModule u resource).2.workers.size := (hseat.workers k hk).row
      rw [worker_modifyWorker_self hrow, Worker.peek_marked, if_pos rfl]
  | @execute s H w k u key env code time =>
    have hfilling : Nested ⟨.load k u key (.filling env code time) :: s, H, w⟩ :=
      hn.advance (hn.progress_inside rfl rfl) hn.filled.tail fun env heq =>
        hn.filled k u key _ env List.mem_cons_self heq
    exact hfilling.push ⟨_, _, _, _, rfl⟩ (fun _ => rfl) fun _ _ _ _ _ h => by cases h
  | @finish s H w k u key env code time value hreturned =>
    have hstamped : Nested ⟨.load k u key (.filling env code time) :: s, H,
        w.stamp env (w.checksumAt u time)⟩ := ⟨hn.shaped, hn.distinct, hn.filled⟩
    refine hn.advance (hn.progress_outside rfl) ?_ fun _ h => by cases h
    exact (hstamped.filled_modifyWorker rfl fun _ hne => Worker.peek_closed_ne hne).recorded
  | fail hreturned =>
    refine hn.advance (hn.progress_outside rfl) ?_ fun _ h => by cases h
    exact (hn.filled_modifyWorker rfl fun _ hne => Worker.peek_closed_ne hne).recorded
  | crash hstage hreturned =>
    refine hn.advance (hn.progress_outside rfl) ?_ fun _ h => by cases h
    exact hn.filled_modifyWorker hstage fun _ _ => rfl
  | leave => exact hn.pop
  | arriveInvoke hk hcall =>
    exact hn.push hcall (fun _ => rfl) fun _ _ _ _ _ h => by cases h
  | @enterInvoke s H w k =>
    have hk : crew k := hseat.known (.invoke k .arriving) List.mem_cons_self
    exact ⟨⟨hn.shaped.1, hn.shaped.2⟩, hn.distinct,
      (hn.filled_entered hseat hk fun _ _ => rfl).cons fun _ _ _ _ _ h => by cases h⟩
  | call => exact hn.push ⟨_, _, rfl⟩ (fun _ => rfl) fun _ _ _ _ _ h => by cases h
  | settleInvoke =>
    refine ⟨⟨hn.shaped.1, hn.shaped.2⟩, hn.distinct, Filled.cons ?_ fun _ _ _ _ _ h => by cases h⟩
    exact hn.filled.tail.modifyWorker fun _ _ _ _ _ _ => rfl
  | leaveInvoke => exact hn.pop
  | comeBack => exact hn.pop

theorem Path.nested {aside : World L → World L → Prop} (haside : ∀ w w', aside w w' → w.Beside w')
    {c c' : Config L} (h : Path crew thread aside c c') (hseat : c.Seated crew thread)
    (hn : c.Nested) : c'.Nested := by
  induction h with
  | refl => exact hn
  | tail hpath hstep ih => exact hstep.nested haside (Path.seated haside hpath hseat) ih

end Nested

end Config

end ScriptWorker
