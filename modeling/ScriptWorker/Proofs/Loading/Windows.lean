import ScriptWorker.Proofs.Loading.Importing

/-!
# One module for a key in a window

A worker that never forgets looks at each module once, and one that reloads looks at it once in each
outermost call. In such a window a key that was loaded keeps its module, whichever way the loads are
nested: it is in the checked view, and any load of it under way either fills that very module or is
about to find it. Only a load of the key that fails can take it out.
-/

namespace ScriptWorker

open Relation World

variable {L : Language}

def Frame.isOn (k : WorkerId) : Frame L → Bool
  | load j .. => j = k
  | invoke j => j = k
  | call _ => false

namespace Moment

def opens (k : WorkerId) (m : Moment L) : Bool :=
  match m.event with
  | .entered f => f.isOn k && !m.frames.any (Frame.isOn k)
  | .left .. => false

def given? (k : WorkerId) (key : String) : Moment L → Option EnvironmentId
  | ⟨_, .left (.load j _ key') (.done (.ok env)), _⟩ => if j = k ∧ key' = key then some env else none
  | _ => none

def fails (k : WorkerId) (key : String) : Moment L → Bool
  | ⟨_, .left (.load j _ key') (.done (.error _)), _⟩ => j = k && key' = key
  | _ => false

def ran (k : WorkerId) (key : String) : Moment L → Bool
  | ⟨.load j _ key' :: _, .left (.call (.execute ..)) _, _⟩ => j = k && key' = key
  | _ => false

end Moment

/-- A stretch of a run in which a worker, if it reloads, is not called anew from outside, and in which
no load of a key fails. -/
structure Undisturbed (k : WorkerId) (key : String) (reloading : Bool) (stretch : List (Moment L)) :
    Prop where
  within : reloading = true → ∀ m ∈ stretch, m.opens k = false
  fails : ∀ m ∈ stretch, m.fails k key = false

theorem Undisturbed.left {k : WorkerId} {key : String} {reloading : Bool}
    {first second : List (Moment L)} (h : Undisturbed k key reloading (first ++ second)) :
    Undisturbed k key reloading first :=
  ⟨fun hreload m hm => h.within hreload m (List.mem_append_left _ hm),
    fun m hm => h.fails m (List.mem_append_left _ hm)⟩

theorem Undisturbed.right {k : WorkerId} {key : String} {reloading : Bool}
    {first second : List (Moment L)} (h : Undisturbed k key reloading (first ++ second)) :
    Undisturbed k key reloading second :=
  ⟨fun hreload m hm => h.within hreload m (List.mem_append_right _ hm),
    fun m hm => h.fails m (List.mem_append_right _ hm)⟩

def modulesGiven (k : WorkerId) (key : String) (stretch : List (Moment L)) : List EnvironmentId :=
  stretch.filterMap (Moment.given? k key)

/-- All loads of a key that succeed come to one module, and a body runs for one of them at most. -/
structure OneModule (k : WorkerId) (key : String) (stretch : List (Moment L)) : Prop where
  same : ∃ env, ∀ found ∈ modulesGiven k key stretch, found = env
  once : stretch.countP (Moment.ran k key) ≤ 1

namespace Activity

variable {k : WorkerId}

def arrives (k : WorkerId) : Activity L → Bool
  | load j _ _ .arriving => j = k
  | invoke j .arriving => j = k
  | _ => false

theorem depth_pos_of_frame {s : List (Activity L)} (hs : Shaped s) (hmay : MayLoad s)
    (h : (frames s).any (Frame.isOn k)) : 0 < depth k s := by
  match s with
  | [] => cases h
  | load .. :: _ => exact hmay.elim
  | invoke j progression :: rest =>
    cases progression with
    | inside =>
      by_cases hj : j = k
      · subst hj
        rw [depth_invoke_inside]
        omega
      · rw [depth_invoke_ne hj]
        exact depth_pos_of_frame hs.2 hs.1.mayLoad (by simpa [frames, frame, Frame.isOn, hj] using h)
    | arriving => exact hmay.elim
    | settled => exact hmay.elim
  | call callee :: rest =>
    have hrest : (frames rest).any (Frame.isOn k) := by
      simpa [frames, frame, Frame.isOn] using h
    rw [depth_call]
    match callee with
    | .execute code i env =>
      obtain ⟨v, key, time, below, rfl⟩ := hs.1
      by_cases hi : i = k
      · subst hi
        rw [depth_load_inside rfl]
        omega
      · rw [depth_load_ne hi]
        exact depth_pos_of_frame hs.2.2 hs.2.1 (by simpa [frames, frame, Frame.isOn, hi] using hrest)
    | .call .. =>
      obtain ⟨i, below, rfl⟩ := hs.1
      exact depth_pos_of_frame hs.2 trivial hrest
    | .compile .. => exact hmay.elim
    | .load .. => exact hmay.elim
    | .evaluate .. => exact hmay.elim
    | .depend .. => exact hmay.elim
    | .resolve .. => exact hmay.elim
    | .job .. => exact hmay.elim

theorem below_call {s : List (Activity L)} {callee : Callee L} (hfits : (call callee).Fits s) :
    (∃ j u key stage below, s = load j u key stage :: below ∧ stage.isInside) ∨
      ∃ j below, s = invoke j .inside :: below := by
  cases callee with
  | compile path source =>
    obtain ⟨j, u, key, time, text, below, rfl⟩ := hfits
    exact .inl ⟨j, u, key, _, below, rfl, rfl⟩
  | execute code j env =>
    obtain ⟨u, key, time, below, rfl⟩ := hfits
    exact .inl ⟨j, u, key, _, below, rfl, rfl⟩
  | call closure j this args =>
    obtain ⟨i, below, rfl⟩ := hfits
    exact .inr ⟨i, below, rfl⟩
  | _ => exact hfits.elim

end Activity

/-- How a load of a key may stand once the key has its module; `running` says whether a body may still
run for it. -/
def Stage.Keeps (env : EnvironmentId) (running : Bool) : Stage L → Prop
  | arriving => True
  | filling found _ _ => running ∧ found = env
  | settled (.done (.ok found)) => found = env
  | settled (.panic _) => True
  | _ => False

namespace Config

/-- A key has its module: a load that begins now would find it. -/
structure Kept (c : Config L) (k : WorkerId) (key : String) (env : EnvironmentId) (running : Bool) :
    Prop where
  checked : (c.world.worker k).cache.peek key = some env
  loads : ∀ u stage, .load k u key stage ∈ c.stack → stage.Keeps env running
  entry : (c.world.worker k).config.reloading = true →
    ∀ a s, c.stack = a :: s → a.arrives k → 0 < Activity.depth k s

def Failing (c : Config L) (k : WorkerId) (key : String) : Prop :=
  ∃ u cause s, c.stack = .load k u key (.settled (.done (.error cause))) :: s

section Kept

variable {crew : WorkerId → Prop} {thread : ThreadId} {aside : World L → World L → Prop}
  {s : List (Activity L)} {H : List (Moment L)} {w : World L} {k j : WorkerId} {u : UnitId}
  {key : String} {env : EnvironmentId} {running : Bool} {c c' : Config L} {a : Activity L}
  {t : List (Activity L)}

theorem Kept.mono (h : c.Kept k key env false) : c.Kept k key env true where
  checked := h.checked
  loads u stage hmem := by
    have hkeeps := h.loads u stage hmem
    cases stage with
    | filling found code time => exact nomatch hkeeps.1
    | settled outcome =>
      cases outcome with
      | done answer => cases answer <;> exact hkeeps
      | panic payload => trivial
    | _ => exact hkeeps
  entry := h.entry

theorem Kept.peek_entered (h : c.Kept k key env running) (hseat : c.Seated crew thread) (hk : crew k)
    (hstack : c.stack = a :: s) (ha : a.arrives k) :
    ((c.world.worker k).entered thread).cache.peek key = some env := by
  have hdepth : Activity.depth k (a :: s) = Activity.depth k s := by
    cases a with
    | load i u key stage => cases stage <;> first | exact Activity.depth_load_outside rfl | cases ha
    | invoke i progression =>
      cases progression <;> first | exact Activity.depth_invoke_outside (by decide) | cases ha
    | call callee => cases ha
  rw [← h.checked]
  by_cases hreload : (c.world.worker k).config.reloading = true
  · rw [Worker.cache_entered]
    rw [(hseat.workers k hk).serializer, hstack]
    exact hdepth ▸ h.entry hreload a s hstack ha
  · simp [Worker.entered, hreload]

theorem arrives_of_mayLoad (hmay : Activity.MayLoad s) (hs : s = a :: t) : a.arrives k = false := by
  subst hs
  cases a with
  | load i u key stage => exact hmay.elim
  | invoke i progression => cases progression <;> first | rfl | exact hmay.elim
  | call callee => rfl

theorem arrives_of_call {callee : Callee L} (hfits : (Activity.call callee).Fits s)
    (hs : s = a :: t) : a.arrives k = false := by
  rcases Activity.below_call hfits with ⟨j, u, key, stage, below, rfl, hinside⟩ | ⟨j, below, rfl⟩
  · cases hs
    cases stage <;> first | rfl | cases hinside
  · cases hs
    rfl

theorem Kept.advance {u : UnitId} {key' : String} {stage stage' : Stage L} {w' : World L}
    (h : Kept ⟨.load j u key' stage :: s, H, w⟩ k key env running)
    (hpeek : (w'.worker k).cache.peek key = some env)
    (harrived : (Activity.load j u key' stage').arrives k = false)
    (hstage : j = k → key' = key → stage.Keeps env running → stage'.Keeps env running) :
    Kept ⟨.load j u key' stage' :: s, T, w'⟩ k key env running where
  checked := hpeek
  loads v stage₁ hmem := by
    rcases List.mem_cons.1 hmem with heq | hmem
    · cases heq
      exact hstage rfl rfl (h.loads _ _ List.mem_cons_self)
    · exact h.loads v stage₁ (List.mem_cons_of_mem _ hmem)
  entry _ a s heq ha := by
    cases heq
    rw [harrived] at ha
    cases ha

theorem Kept.push (h : Kept ⟨s, H, w⟩ k key env running)
    (ha : ∀ u key stage, a = .load k u key stage → stage.Keeps env running)
    (hentry : (w.worker k).config.reloading = true → a.arrives k → 0 < Activity.depth k s) :
    Kept ⟨a :: s, T, w⟩ k key env running where
  checked := h.checked
  loads u stage hmem := by
    rcases List.mem_cons.1 hmem with heq | hmem
    · exact ha _ _ _ heq.symm
    · exact h.loads u stage hmem
  entry hreload b s heq hb := by
    cases heq
    exact hentry hreload hb

theorem Kept.pop (h : Kept ⟨a :: s, H, w⟩ k key env running)
    (hs : ∀ b t, s = b :: t → b.arrives k = false) : Kept ⟨s, T, w⟩ k key env running where
  checked := h.checked
  loads u stage hmem := h.loads u stage (List.mem_cons_of_mem a hmem)
  entry _ b t heq hb := by
    rw [hs b t heq] at hb
    cases hb

theorem Kept.turn {progression progression' : Progression} {w' : World L}
    (h : Kept ⟨.invoke j progression :: s, H, w⟩ k key env running)
    (hpeek : (w'.worker k).cache.peek key = some env) (harrived : progression' ≠ .arriving) :
    Kept ⟨.invoke j progression' :: s, T, w'⟩ k key env running where
  checked := hpeek
  loads u stage hmem := by
    rcases List.mem_cons.1 hmem with heq | hmem
    · cases heq
    · exact h.loads u stage (List.mem_cons_of_mem _ hmem)
  entry _ a s heq ha := by
    cases heq
    cases progression' with
    | arriving => exact absurd rfl harrived
    | _ => cases ha

theorem Step.checked (haside : ∀ w w', aside w w' → w.Beside w') (h : Step crew thread aside c c')
    (hseat : c.Seated crew thread) (hk : crew k) (hkept : c.Kept k key env running) :
    (c'.world.worker k).cache.peek key = some env ∨ c'.Failing k key := by
  have hne {u key' stage s} (hstack : c.stack = .load k u key' stage :: s)
      (hkeeps : ¬ stage.Keeps env running) : key' ≠ key := by
    rintro rfl
    exact hkeeps (hkept.loads u stage (hstack ▸ List.mem_cons_self))
  cases h.cacheStep haside hseat k with
  | same hcache hdepth => exact .inl (hcache ▸ hkept.checked)
  | entered hstack hstack' hcache =>
    left
    rw [hcache]
    exact hkept.peek_entered hseat hk hstack (by simp [Activity.arrives])
  | consulted hstack hstack' hcache =>
    left
    rw [hcache, ModuleCache.peek_checked]
    exact hkept.peek_entered hseat hk hstack (by simp [Activity.arrives])
  | reused hstack hstack' hstored hfresh hcache =>
    left
    rw [hcache, ModuleCache.peek_put_mark, if_neg (hne hstack id)]
    exact hkept.checked
  | registered hregisters hcache =>
    obtain ⟨_, _, _, _, hstack, -⟩ := hregisters.stack
    left
    rw [hcache, ModuleCache.peek_mark, if_neg (hne hstack id)]
    exact hkept.checked
  | @filled u key' found code time s hstack hstack' hcache =>
    left
    rw [hcache, ModuleCache.peek_put]
    split
    · next hkey =>
      obtain ⟨-, rfl⟩ := hkey
      have hkeeps := hkept.loads u (.filling found code time) (hstack ▸ List.mem_cons_self)
      rw [hkeeps.2]
    · exact hkept.checked
  | @failed u key' stage cause s hstack hrenewing hstack' hcache =>
    by_cases hkey : key' = key
    · subst hkey
      exact .inr ⟨u, cause, s, hstack'⟩
    · left
      rw [hcache, ModuleCache.peek_uncheck, if_neg hkey]
      exact hkept.checked

/-- A key keeps its module, unless a load of it fails or the worker is called anew from outside. -/
theorem Step.kept (haside : ∀ w w', aside w w' → w.Beside w') (h : Step crew thread aside c c')
    (hseat : c.Seated crew thread) (hn : c.Nested) (hk : crew k)
    (hkept : c.Kept k key env running)
    (hopens : (c.world.worker k).config.reloading = true → ∀ m,
      c'.history = c.history ++ [m] → m.opens k = false) :
    c'.Kept k key env running ∨ c'.Failing k key := by
  refine (h.checked haside hseat hk hkept).elim (fun hview => ?_) .inr
  cases h with
  | aside h =>
    refine .inl ⟨hview, hkept.loads, fun hreload => hkept.entry ?_⟩
    rw [← (haside _ _ h).config]
    exact hreload
  | @arrive s H w j u key' hj hload hholds =>
    left
    refine hkept.push (fun _ _ _ heq => by cases heq; trivial) fun hreload ha => ?_
    obtain rfl : j = k := by simpa [Activity.arrives] using ha
    have hopen := hopens hreload _ rfl
    refine Activity.depth_pos_of_frame hn.shaped hload ?_
    simpa [Moment.opens, Frame.isOn] using hopen
  | hit hpeek =>
    refine .inl (hkept.advance hview rfl ?_)
    rintro rfl rfl -
    rw [hkept.peek_entered hseat hk rfl (by simp [Activity.arrives])] at hpeek
    exact (Option.some.inj hpeek).symm
  | miss hpeek =>
    refine .inl (hkept.advance hview rfl ?_)
    rintro rfl rfl -
    rw [hkept.peek_entered hseat hk rfl (by simp [Activity.arrives])] at hpeek
    cases hpeek
  | reuse hget hfresh => exact .inl (hkept.advance hview rfl fun _ _ h => h.elim)
  | distrust hstale => exact .inl (hkept.advance hview rfl fun _ _ h => h.elim)
  | date hscript => exact .inl (hkept.advance hview rfl fun _ _ h => h.elim)
  | remember hcompiled => exact .inl (hkept.advance hview rfl fun _ _ h => h.elim)
  | read hscript htext => exact .inl (hkept.advance hview rfl fun _ _ h => h.elim)
  | compile hscript => exact .inl (hkept.push (fun _ _ _ heq => nomatch heq) fun _ ha => nomatch ha)
  | compiled hscript hreturned => exact .inl (hkept.advance hview rfl fun _ _ h => h.elim)
  | @refuse s H w j u key' stage cause hstage =>
    refine .inl (hkept.advance hview rfl fun _ _ hkeeps => ?_)
    cases stage <;> first | exact hkeeps.elim | cases hstage
  | fill hscript hcompiled => exact .inl (hkept.advance hview rfl fun _ _ h => h.elim)
  | @execute s H w j u key' found code time =>
    left
    have hfilling : Kept ⟨.load j u key' (.filling found code time) :: s, [], w⟩ k key env running :=
      hkept.advance hview rfl fun _ _ h => h.elim
    exact hfilling.push (fun _ _ _ heq => nomatch heq) fun _ ha => nomatch ha
  | finish hreturned => exact .inl (hkept.advance hview rfl fun _ _ h => h.2)
  | @fail s H w j u key' found code time cause hreturned =>
    by_cases hsame : j = k ∧ key' = key
    · obtain ⟨rfl, rfl⟩ := hsame
      exact .inr ⟨u, cause, s, rfl⟩
    · exact .inl (hkept.advance hview rfl fun hjk hkey => (hsame ⟨hjk, hkey⟩).elim)
  | crash hstage hreturned => exact .inl (hkept.advance hview rfl fun _ _ _ => trivial)
  | leave => exact .inl (hkept.pop fun b t hs => arrives_of_mayLoad hn.shaped.1 hs)
  | @arriveInvoke s H w j hj hcall =>
    left
    refine hkept.push (fun _ _ _ heq => nomatch heq) fun hreload ha => ?_
    obtain rfl : j = k := by simpa [Activity.arrives] using ha
    have hopen := hopens hreload _ rfl
    refine Activity.depth_pos_of_frame hn.shaped hcall.mayLoad ?_
    simpa [Moment.opens, Frame.isOn] using hopen
  | enterInvoke => exact .inl (hkept.turn hview (by decide))
  | call => exact .inl (hkept.push (fun _ _ _ heq => nomatch heq) fun _ ha => nomatch ha)
  | settleInvoke => exact .inl (hkept.turn hview (by decide))
  | leaveInvoke =>
    exact .inl (hkept.pop fun b t hs => arrives_of_mayLoad (Activity.MayCall.mayLoad hn.shaped.1) hs)
  | comeBack => exact .inl (hkept.pop fun b t hs => arrives_of_call hn.shaped.1 hs)

theorem Failing.step (hfailing : c.Failing k key) (h : Step crew thread aside c c')
    (hfails : ∀ m, c'.history = c.history ++ [m] → m.fails k key = false) : c'.Failing k key := by
  obtain ⟨s, H, w⟩ := c
  obtain ⟨u, cause, s, rfl⟩ := hfailing
  cases h with
  | aside h => exact ⟨u, cause, s, rfl⟩
  | arrive hj hload hholds => exact hload.elim
  | refuse hstage => cases hstage
  | crash hstage hreturned => cases hstage
  | leave =>
    have hquiet := hfails _ rfl
    simp [Moment.fails] at hquiet
  | arriveInvoke hj hcall => exact hcall.elim

/-! ## Loads that have an answer -/

theorem Nested.sole {stage stage' : Stage L} {v : UnitId}
    (hn : Nested ⟨.load k u key stage :: s, H, w⟩) (hstage : stage.isInside) :
    .load k v key stage' ∉ s := by
  intro hmem
  obtain ⟨found, code, time, rfl⟩ := Activity.filling_of_mayLoad hn.shaped.2 hn.shaped.1 hmem
  exact hn.outside rfl hstage hmem rfl

def Answered (c : Config L) : Prop :=
  ∀ k u key env s, c.stack = .load k u key (.settled (.done (.ok env))) :: s → c.Kept k key env true

theorem kept_settled {w' : World L} {outcome : Outcome (Answer EnvironmentId)}
    (hpeek : (w'.worker k).cache.peek key = some env)
    (houtcome : (Stage.settled outcome : Stage L).Keeps env running)
    (hs : ∀ v stage, .load k v key stage ∈ s → stage.Keeps env running) :
    Kept ⟨.load k u key (.settled outcome) :: s, T, w'⟩ k key env running where
  checked := hpeek
  loads v stage hmem := by
    rcases List.mem_cons.1 hmem with heq | hmem
    · cases heq
      exact houtcome
    · exact hs v stage hmem
  entry _ a s heq ha := by
    cases heq
    cases ha

theorem Step.answered (haside : ∀ w w', aside w w' → w.Beside w') (h : Step crew thread aside c c')
    (hseat : c.Seated crew thread) (hn : c.Nested) (hanswered : c.Answered) : c'.Answered := by
  intro k u key env s heq
  cases h with
  | aside h =>
    have hbeside := haside _ _ h
    have hkept := hanswered k u key env s heq
    refine ⟨?_, hkept.loads, fun hreload => hkept.entry ?_⟩
    · rw [hbeside.cache]
      exact hkept.checked
    · rw [← hbeside.config]
      exact hreload
  | hit hpeek =>
    cases heq
    have hk := (hseat.known (.load k u key .arriving) List.mem_cons_self).1
    refine kept_settled ?_ rfl fun v stage hmem => ?_
    · unfold World.answered
      rw [cache_recorded, cache_modifyWorker (hseat.workers k hk).row, if_pos rfl,
        Worker.peek_answered]
      exact hpeek
    · obtain ⟨found, code, time, rfl⟩ :=
        Activity.filling_of_mayLoad hn.shaped.2 hn.shaped.1 hmem
      have hmem' := List.mem_cons_of_mem (.load k u key .arriving) hmem
      have hfilled := hn.filled k v key _ found hmem' rfl
      rw [← Nested.peek_entered hseat hk hmem' rfl, hpeek] at hfilled
      exact ⟨rfl, (Option.some.inj hfilled).symm⟩
  | @reuse s H w j v key' found hget hfresh =>
    cases heq
    have hk := (hseat.known (.load k u key .opened) List.mem_cons_self).1
    refine kept_settled ?_ rfl fun v stage hmem => (hn.sole rfl hmem).elim
    unfold World.closed
    rw [modifyWorker_modifyWorker, cache_recorded, cache_modifyWorker (hseat.workers k hk).row,
      if_pos rfl]
    change (((w.worker k).cache.mark key env).put key env).peek key = some env
    rw [ModuleCache.peek_put, ModuleCache.peek_mark, if_pos rfl, ite_self]
  | @finish s H w j v key' found code time value hreturned =>
    cases heq
    have hk := (hseat.known (.load k u key (.filling env code time)) List.mem_cons_self).1
    have hrow : k < (w.stamp env (w.checksumAt u time)).workers.size := (hseat.workers k hk).row
    refine kept_settled ?_ rfl fun v stage hmem => (hn.sole rfl hmem).elim
    unfold World.closed
    rw [cache_recorded, cache_modifyWorker hrow, if_pos rfl]
    change ((w.worker k).cache.put key env).peek key = some env
    rw [ModuleCache.peek_put]
    split
    · rfl
    · exact hn.filled k u key _ env List.mem_cons_self rfl
  | leave =>
    subst heq
    exact hn.shaped.1.elim
  | leaveInvoke =>
    subst heq
    exact hn.shaped.1.elim
  | comeBack =>
    subst heq
    rcases Activity.below_call hn.shaped.1 with ⟨_, _, _, _, _, hbelow, hinside⟩ | ⟨_, _, hbelow⟩
    · cases hbelow
      cases hinside
    · cases hbelow
  | _ => cases heq

/-! ## Bodies that have run -/

def Ending (c : Config L) (k : WorkerId) (key : String) : Prop :=
  ∃ u env code time s o, c.stack = .load k u key (.filling env code time) :: s ∧
    Returned c.history (.execute code k env) o

theorem Ending.step (hending : c.Ending k key) (h : Step crew thread aside c c')
    (hseat : c.Seated crew thread) (hn : c.Nested) :
    c'.Ending k key ∨ (∃ env, c'.Kept k key env false) ∨ c'.Failing k key := by
  obtain ⟨s, H, w⟩ := c
  obtain ⟨u, env, code, time, s, o, rfl, hreturned⟩ := hending
  have hk := (hseat.known (.load k u key (.filling env code time)) List.mem_cons_self).1
  have hrow := (hseat.workers k hk).row
  have hpeek : (w.worker k).cache.peek key = some env := hn.filled k u key _ env List.mem_cons_self rfl
  rcases h.of_filling hreturned with ⟨v, hv, rfl⟩ | ⟨value, -, rfl⟩ | ⟨cause, -, rfl⟩ | ⟨payload, -, rfl⟩
  · exact .inl ⟨u, env, code, time, s, o, rfl, hreturned⟩
  · have hrow' : k < (w.stamp env (w.checksumAt u time)).workers.size := hrow
    refine .inr (.inl ⟨env, kept_settled ?_ rfl fun v stage hmem => (hn.sole rfl hmem).elim⟩)
    unfold World.closed
    rw [cache_recorded, cache_modifyWorker hrow', if_pos rfl]
    change ((w.worker k).cache.put key env).peek key = some env
    rw [ModuleCache.peek_put, hpeek, ite_self]
  · exact .inr (.inr ⟨u, cause, s, rfl⟩)
  · refine .inr (.inl ⟨env, kept_settled ?_ trivial fun v stage hmem => (hn.sole rfl hmem).elim⟩)
    rw [cache_modifyWorker hrow, if_pos rfl]
    exact hpeek

theorem Step.ending {m : Moment L} (h : Step crew thread aside c c') (hn : c.Nested)
    (hadded : c'.history = c.history ++ [m]) (hran : m.ran k key) :
    (∃ code env u time below, c.stack =
      .call (.execute code k env) :: .load k u key (.filling env code time) :: below) ∧
      c'.Ending k key := by
  unfold Moment.ran at hran
  split at hran
  case h_2 => cases hran
  case h_1 j u key' frames code i env o x =>
  obtain ⟨rfl, rfl⟩ : j = k ∧ key' = key := by simpa using hran
  obtain ⟨hstack, -, hframes, -⟩ := h.of_left_call hadded
  have hfits : (Activity.call (.execute code i env)).Fits c'.stack := by
    have hshaped := hn.shaped
    rw [hstack] at hshaped
    exact hshaped.1
  obtain ⟨v, key, time, below, hbelow⟩ := hfits
  rw [hbelow] at hframes
  cases hframes
  exact ⟨⟨code, env, _, time, below, hstack.trans (by rw [hbelow])⟩,
    _, env, code, time, below, o, hbelow, _, _, _, hadded⟩

theorem Step.answering {m : Moment L} (h : Step crew thread aside c c')
    (hadded : c'.history = c.history ++ [m]) (hgiven : m.given? k key = some env) :
    ∃ u, c.stack = .load k u key (.settled (.done (.ok env))) :: c'.stack := by
  unfold Moment.given? at hgiven
  split at hgiven
  case h_2 => cases hgiven
  case h_1 frames j u key' found x =>
  obtain ⟨⟨rfl, rfl⟩, heq⟩ := Option.ite_none_right_eq_some.1 hgiven
  cases heq
  exact ⟨u, (h.of_left_load hadded).1⟩

/-! ## Along a stretch -/

/-- What an undisturbed stretch of the run up to here has come to. -/
structure Watched (c : Config L) (k : WorkerId) (key : String) (stretch : List (Moment L)) : Prop where
  same : ∀ env ∈ modulesGiven k key stretch, ∀ env' ∈ modulesGiven k key stretch, env = env'
  kept : ∀ env ∈ modulesGiven k key stretch, c.Kept k key env true ∨ c.Failing k key
  once : stretch.countP (Moment.ran k key) ≤ 1
  ran : 0 < stretch.countP (Moment.ran k key) →
    c.Ending k key ∨ (∃ env, c.Kept k key env false) ∨ c.Failing k key

theorem watched_nil : c.Watched k key [] where
  same _ hmem := nomatch hmem
  kept _ hmem := nomatch hmem
  once := Nat.zero_le 1
  ran hpos := nomatch hpos

theorem Watched.countP_eq_zero {stretch : List (Moment L)} {code : L.Body} {time : UInt64}
    (hwatched : c.Watched k key stretch)
    (hstack : c.stack = .call (.execute code k env) :: .load k u key (.filling env code time) :: s) :
    stretch.countP (Moment.ran k key) = 0 := by
  refine Nat.eq_zero_of_not_pos fun hpos => ?_
  rcases hwatched.ran hpos with hending | ⟨found, hkept⟩ | hfailing
  · obtain ⟨_, _, _, _, _, _, hstack', -⟩ := hending
    rw [hstack] at hstack'
    cases hstack'
  · have hmem : .load k u key (.filling env code time) ∈ c.stack := by simp [hstack]
    exact nomatch (hkept.loads u _ hmem).1
  · obtain ⟨_, _, _, hstack'⟩ := hfailing
    rw [hstack] at hstack'
    cases hstack'

theorem Watched.eq_of_answer {stretch : List (Moment L)} {found : EnvironmentId}
    (hwatched : c.Watched k key stretch) (hmem : found ∈ modulesGiven k key stretch)
    (hstack : c.stack = .load k u key (.settled (.done (.ok env))) :: s) : found = env := by
  rcases hwatched.kept found hmem with hkept | ⟨_, _, _, hstack'⟩
  · have hmem : .load k u key (.settled (.done (.ok env))) ∈ c.stack := by simp [hstack]
    have hsame : env = found := hkept.loads u _ hmem
    exact hsame.symm
  · rw [hstack] at hstack'
    cases hstack'

theorem Watched.step {stretch added : List (Moment L)} (hwatched : c.Watched k key stretch)
    (haside : ∀ w w', aside w w' → w.Beside w') (h : Step crew thread aside c c')
    (hseat : c.Seated crew thread) (hn : c.Nested) (hanswered : c.Answered) (hk : crew k)
    (hadded : c'.history = c.history ++ added)
    (hquiet : Undisturbed k key (c.world.worker k).config.reloading added) :
    c'.Watched k key (stretch ++ added) := by
  have hmoment {m : Moment L} (hm : c'.history = c.history ++ [m]) : m ∈ added := by
    rw [List.append_cancel_left (hadded.symm.trans hm)]
    exact List.mem_singleton_self m
  have hopens (hreload : (c.world.worker k).config.reloading = true) (m : Moment L)
      (hm : c'.history = c.history ++ [m]) : m.opens k = false := hquiet.within hreload m (hmoment hm)
  have hfails (m : Moment L) (hm : c'.history = c.history ++ [m]) : m.fails k key = false :=
    hquiet.fails m (hmoment hm)
  have hkeep {env : EnvironmentId} {running : Bool} (hkept : c.Kept k key env running) :
      c'.Kept k key env running ∨ c'.Failing k key := h.kept haside hseat hn hk hkept hopens
  have hkept : ∀ env ∈ modulesGiven k key stretch, c'.Kept k key env true ∨ c'.Failing k key :=
    fun env hmem => (hwatched.kept env hmem).elim hkeep fun hfailing => .inr (hfailing.step h hfails)
  have hran (hpos : 0 < stretch.countP (Moment.ran k key)) :
      c'.Ending k key ∨ (∃ env, c'.Kept k key env false) ∨ c'.Failing k key := by
    rcases hwatched.ran hpos with hending | ⟨env, hbefore⟩ | hfailing
    · exact hending.step h hseat hn
    · exact .inr ((hkeep hbefore).imp (fun hafter => ⟨env, hafter⟩) id)
    · exact .inr (.inr (hfailing.step h hfails))
  rcases h.history with hsame | ⟨m, hm⟩
  · have hnone : added = [] := by
      rw [hsame] at hadded
      simpa using hadded
    rw [hnone, List.append_nil]
    exact ⟨hwatched.same, hkept, hwatched.once, hran⟩
  · obtain rfl : added = [m] := List.append_cancel_left (hadded.symm.trans hm)
    have hgiven : modulesGiven k key (stretch ++ [m]) =
        modulesGiven k key stretch ++ (m.given? k key).toList := by
      simp only [modulesGiven, List.filterMap_append]
      cases hm : m.given? k key <;> simp [hm]
    have hcount : (stretch ++ [m]).countP (Moment.ran k key) =
        stretch.countP (Moment.ran k key) + if m.ran k key then 1 else 0 := by
      rw [List.countP_append, List.countP_singleton]
    have hanswer {env : EnvironmentId} (hmem : env ∈ (m.given? k key).toList) :=
      h.answering hm (Option.mem_toList.1 hmem)
    constructor
    case same =>
      rw [hgiven]
      intro env hmem env' hmem'
      rcases List.mem_append.1 hmem with hold | hnew <;>
        rcases List.mem_append.1 hmem' with hold' | hnew'
      · exact hwatched.same env hold env' hold'
      · obtain ⟨u, hstack⟩ := hanswer hnew'
        exact hwatched.eq_of_answer hold hstack
      · obtain ⟨u, hstack⟩ := hanswer hnew
        exact (hwatched.eq_of_answer hold' hstack).symm
      · exact Option.some.inj ((Option.mem_toList.1 hnew).symm.trans (Option.mem_toList.1 hnew'))
    case kept =>
      rw [hgiven]
      intro env hmem
      rcases List.mem_append.1 hmem with hold | hnew
      · exact hkept env hold
      · obtain ⟨u, hstack⟩ := hanswer hnew
        exact hkeep (hanswered k u key env _ hstack)
    case once =>
      rw [hcount]
      split
      · next hbody =>
        obtain ⟨⟨code, env, u, time, below, hstack⟩, -⟩ := h.ending hn hm hbody
        exact Nat.le_of_eq (by rw [hwatched.countP_eq_zero hstack])
      · exact hwatched.once
    case ran =>
      rw [hcount]
      split
      · next hbody => exact fun _ => .inl (h.ending hn hm hbody).2
      · exact hran

/-- What holds of all undisturbed stretches of a run. -/
structure Overseen (c : Config L) (k : WorkerId) (key : String) : Prop where
  answered : c.Answered
  latest : ∀ stretch, stretch <:+ c.history →
    Undisturbed k key (c.world.worker k).config.reloading stretch → c.Watched k key stretch
  all : ∀ stretch, stretch <:+: c.history →
    Undisturbed k key (c.world.worker k).config.reloading stretch → OneModule k key stretch

theorem Watched.oneModule {stretch : List (Moment L)} (h : c.Watched k key stretch) :
    OneModule k key stretch := by
  refine ⟨?_, h.once⟩
  cases hgiven : modulesGiven k key stretch with
  | nil => exact ⟨0, fun _ hmem => nomatch hmem⟩
  | cons env rest => exact ⟨env, fun found hmem => h.same found (hgiven ▸ hmem) env (by simp [hgiven])⟩

theorem Overseen.step (hover : c.Overseen k key) (haside : ∀ w w', aside w w' → w.Beside w')
    (h : Step crew thread aside c c') (hc : c.Sound crew thread) (hk : crew k) :
    c'.Overseen k key := by
  have hreload : (c'.world.worker k).config = (c.world.worker k).config := h.config haside k
  have hlatest : ∀ stretch, stretch <:+ c'.history →
      Undisturbed k key (c.world.worker k).config.reloading stretch → c'.Watched k key stretch := by
    intro stretch hsuffix hquiet
    rcases h.history with hsame | ⟨m, hm⟩
    · have hbefore := hover.latest stretch (hsame ▸ hsuffix) hquiet
      have hafter := hbefore.step haside h hc.seated hc.nested hover.answered hk
        (hsame.trans (List.append_nil _).symm) ⟨fun _ _ hm => (nomatch hm), fun _ hm => nomatch hm⟩
      rwa [List.append_nil] at hafter
    · rw [hm] at hsuffix
      rcases List.suffix_concat_iff.1 hsuffix with rfl | ⟨before, rfl, hbefore⟩
      · exact watched_nil
      · exact (hover.latest before hbefore hquiet.left).step haside h hc.seated hc.nested hover.answered
          hk hm hquiet.right
  refine ⟨h.answered haside hc.seated hc.nested hover.answered, ?_, ?_⟩
  · rw [hreload]
    exact hlatest
  · rw [hreload]
    intro stretch hinfix hquiet
    rcases h.history with hsame | ⟨m, hm⟩
    · exact hover.all stretch (hsame ▸ hinfix) hquiet
    · rw [hm] at hinfix
      rcases List.infix_concat_iff.1 hinfix with hsuffix | hbefore
      · exact (hlatest stretch (hm ▸ hsuffix) hquiet).oneModule
      · exact hover.all stretch hbefore hquiet

theorem Path.overseen (h : Path crew thread aside c c') (haside : ∀ w w', aside w w' → w.Beside w')
    (hc : c.Sound crew thread) (hk : crew k) (hover : c.Overseen k key) : c'.Overseen k key := by
  induction h with
  | refl => exact hover
  | tail hpath hstep ih => exact ih.step haside hstep (Path.sound haside hpath hc) hk

end Kept

end Config

namespace Setting

variable {S : Setting L} {crew : WorkerId → Prop} {names : String → Prop} {k : WorkerId}
  {key : String} {start w : World L} {operations : List (List (Moment L))}

theorem Operates.overseen (key : String) (hS : S.interpreter.Scripting crew names Request.LeavesWorkers)
    (hstart : start.Rests crew)
    (h : S.Operates World.Beside (Request.CallsOn crew names) start operations w) (hk : crew k) :
    w.Rests crew ∧ (⟨[], operations.flatten, w⟩ : Config L).Overseen k key ∧
      (w.worker k).config = (start.worker k).config := by
  induction h with
  | start =>
    refine ⟨hstart, ⟨fun _ _ _ _ _ hstack => (nomatch hstack), ?_, ?_⟩, rfl⟩
    · intro stretch hsuffix _
      rw [List.suffix_nil.1 hsuffix]
      exact Config.watched_nil
    · intro stretch hinfix _
      rw [List.infix_nil.1 hinfix]
      exact Config.Watched.oneModule (c := ⟨[], [], start⟩) Config.watched_nil
  | @between operations v v' hsofar hmove ih =>
    obtain ⟨hrests, hover, hconfig⟩ := ih
    have hstep : Config.Step crew (.caller 0) World.Beside ⟨[], operations.flatten, v⟩
        ⟨[], operations.flatten, v'⟩ := .aside hmove
    exact ⟨hrests.beside hmove, hover.step (fun _ _ h => h) hstep hrests.sound hk,
      (hmove.config k).trans hconfig⟩
  | @operation operations v v' thread depth request o t hsofar hasks hrun ih =>
    obtain ⟨hrests, hover, hconfig⟩ := ih
    have hsuits : S.Suits crew names thread World.Beside := suits_beside hS
    have hpath : Config.Path crew thread World.Beside ⟨[], operations.flatten, v⟩
        ⟨[], operations.flatten ++ t, v'⟩ :=
      path_answers (s := []) hsuits (follows_calls hsuits depth) hrests.sound.seated
        (.inl ⟨hasks, trivial⟩) hrun
    rw [List.flatten_append, List.flatten_singleton]
    exact ⟨rests_operation hsuits hrests hasks hrun, hpath.overseen hsuits.beside hrests.sound hk hover,
      (hpath.config hsuits.beside k).trans hconfig⟩

/-- In a stretch of a run in which no load of a key fails, all loads of the key that succeed give the
same module, and a body runs for the key at most once: on a worker that does not reload in any such
stretch of its life, on one that does in any within one outermost call. -/
theorem Serves.one_module (hS : S.interpreter.Scripting crew names Request.LeavesWorkers)
    (hstart : start.Rests crew) (h : S.Serves World.Beside (Request.CallsOn crew names) start w)
    (hk : crew k) :
    S.Shows World.Beside (Request.CallsOn crew names) start w fun operations =>
      ∀ key stretch, stretch <:+: operations.flatten →
        Undisturbed k key (start.worker k).config.reloading stretch → OneModule k key stretch := by
  refine h.shows fun operations hshown key stretch hstretch hquiet => ?_
  obtain ⟨-, hover, hconfig⟩ := hshown.overseen key hS hstart hk
  exact hover.all stretch hstretch (hconfig ▸ hquiet)

end Setting

namespace Importing

def importTwice (source : String) : List (Line String) :=
  if source.isEmpty then [.imports "n.yx", .tries "n.yx"] else []

def isUndisturbed (k : WorkerId) (key : String) (stretch : List (Moment (language String))) : Bool :=
  stretch.all fun m => !m.opens k && !m.fails k key

theorem undisturbed_of_check {k : WorkerId} {key : String} {reloading : Bool}
    {stretch : List (Moment (language String))} (h : isUndisturbed k key stretch) :
    Undisturbed k key reloading stretch := by
  have hall (m : Moment (language String)) (hm : m ∈ stretch) :
      m.opens k = false ∧ m.fails k key = false := by
    simpa using List.all_eq_true.1 h m hm
  exact ⟨fun _ m hm => (hall m hm).1, fun m hm => (hall m hm).2⟩

def importsOnce : List (List (Moment (language String))) → Bool
  | [t] => isUndisturbed 0 "memory:app/n.yx" t.tail &&
      modulesGiven 0 "memory:app/n.yx" t.tail = [2, 2] &&
      t.tail.countP (Moment.ran 0 "memory:app/n.yx") = 1
  | _ => false

/-- In one call a reloading worker gives a module to both of its imports, after one run of its body. -/
theorem twice_imported_once : ∃ t w,
    (setting id importTwice).Operates World.Beside (Request.CallsOn (· = 0) fun _ => True)
      (world String true [("m.yx", ByteArray.empty), ("n.yx", ⟨#[110]⟩)]) [t] w ∧
    modulesGiven 0 "memory:app/n.yx" t.tail = [2, 2] ∧
    t.tail.countP (Moment.ran 0 "memory:app/n.yx") = 1 ∧ OneModule 0 "memory:app/n.yx" t.tail := by
  have heval : (((setting id importTwice).playOperations (.caller 0) 3 [.loadModule 0 none "m"]
      (world String true [("m.yx", ByteArray.empty), ("n.yx", ⟨#[110]⟩)])).any
      fun played => importsOnce played.1) = true := by decide +kernel
  obtain ⟨⟨operations, w⟩, hplay, hshown⟩ := (Option.any_eq_true _ _).1 heval
  dsimp only [importsOnce] at hshown
  split at hshown
  case h_2 => cases hshown
  case h_1 t =>
  simp only [Bool.and_eq_true, decide_eq_true_eq] at hshown
  obtain ⟨⟨hquiet, hgiven⟩, hran⟩ := hshown
  have hasks : ∀ request ∈ [(Request.loadModule 0 none "m" : Request (language String))],
      request.CallsOn (· = 0) fun _ => True := by
    intro request hrequest
    rw [List.mem_singleton.1 hrequest]
    exact ⟨rfl, trivial⟩
  have hruns : (setting id importTwice).Operates World.Beside (Request.CallsOn (· = 0) fun _ => True)
      (world String true [("m.yx", ByteArray.empty), ("n.yx", ⟨#[110]⟩)]) [t] w :=
    Setting.operates_of_play hasks hplay
  have hstretch : t.tail <:+: [t].flatten := by
    rw [List.flatten_singleton]
    exact (List.tail_suffix t).isInfix
  have hall := Setting.Serves.one_module
    ((scripting id _ _ fun _ => trivial).mono fun _ h => h.leavesModules.leavesWorkers)
    (rests_world true _) hruns.serves rfl
  exact ⟨t, w, hruns, hgiven, hran, hall.2 _ hruns _ _ hstretch (undisturbed_of_check hquiet)⟩

end Importing

end ScriptWorker
