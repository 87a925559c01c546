import ScriptWorker.Proofs.Loading.Operations

/-!
# Circular imports

A module that is imported while its load is in progress is answered as it is. What follows here is
read off the moments that a run shows: which loads are in progress is told by the frames around a
moment, and the answer to an import is the next moment after its beginning.
-/

namespace ScriptWorker

open Relation World

variable {L : Language}

def Frame.keys (k : WorkerId) (frames : List (Frame L)) : List String :=
  frames.filterMap fun
    | .load j _ key => if j = k then some key else none
    | _ => none

namespace Activity

variable {k : WorkerId} {u : UnitId} {key : String} {stage : Stage L} {s : List (Activity L)}

theorem execute_of_mayLoad {s : List (Activity L)} (hs : Shaped s) (hmay : MayLoad s)
    (hmem : load k u key stage ∈ s) :
    ∃ env code time above below, stage = .filling env code time ∧
      s = above ++ call (.execute code k env) :: load k u key stage :: below := by
  match s with
  | [] => cases hmem
  | load .. :: _ => exact hmay.elim
  | invoke j progression :: rest =>
    have hrest : load k u key stage ∈ rest := by
      rcases List.mem_cons.1 hmem with h | h
      · cases h
      · exact h
    obtain ⟨env, code, time, above, below, hstage, heq⟩ :=
      execute_of_mayLoad hs.2 hs.1.mayLoad hrest
    exact ⟨env, code, time, invoke j progression :: above, below, hstage, by rw [heq]; rfl⟩
  | call callee :: rest =>
    have hrest : load k u key stage ∈ rest := by
      rcases List.mem_cons.1 hmem with h | h
      · cases h
      · exact h
    match callee with
    | .execute code i env =>
      obtain ⟨v, key', time, below, rfl⟩ := hs.1
      rcases List.mem_cons.1 hrest with h | h
      · cases h
        exact ⟨env, code, time, [], below, rfl, rfl⟩
      · obtain ⟨env', code', time', above, below', hstage, heq⟩ :=
          execute_of_mayLoad hs.2.2 hs.2.1 h
        exact ⟨env', code', time', _ :: _ :: above, below', hstage, by rw [heq]; rfl⟩
    | .call closure i this args =>
      obtain ⟨i', below, rfl⟩ := hs.1
      obtain ⟨env, code, time, above, below', hstage, heq⟩ :=
        execute_of_mayLoad hs.2 trivial hrest
      exact ⟨env, code, time, _ :: above, below', hstage, by rw [heq]; rfl⟩
    | .compile .. => exact hmay.elim
    | .load .. => exact hmay.elim
    | .evaluate .. => exact hmay.elim
    | .depend .. => exact hmay.elim
    | .resolve .. => exact hmay.elim
    | .job .. => exact hmay.elim

theorem inside_of_fits {a : Activity L} (hs : Shaped (a :: s)) (hmem : load k u key stage ∈ s) :
    stage.isInside := by
  have hfilling : MayLoad s → stage.isInside := by
    intro hmay
    obtain ⟨env, code, time, rfl⟩ := filling_of_mayLoad hs.2 hmay hmem
    rfl
  have hbelow : ∀ {b : Activity L} {rest}, s = b :: rest → b.Fits rest →
      load k u key stage ∈ rest → MayLoad rest → stage.isInside := by
    rintro b rest rfl hfits hrest hmay
    obtain ⟨env, code, time, rfl⟩ := filling_of_mayLoad hs.2.2 hmay hrest
    rfl
  cases a with
  | load j v key' stage' => exact hfilling hs.1
  | invoke j progression => exact hfilling hs.1.mayLoad
  | call callee =>
    cases callee with
    | compile path source =>
      obtain ⟨j, v, key', time, text, below, rfl⟩ := hs.1
      rcases List.mem_cons.1 hmem with h | h
      · cases h
        rfl
      · exact hbelow rfl hs.2.1 h hs.2.1
    | execute code j env =>
      obtain ⟨v, key', time, below, rfl⟩ := hs.1
      rcases List.mem_cons.1 hmem with h | h
      · cases h
        rfl
      · exact hbelow rfl hs.2.1 h hs.2.1
    | call closure j this args =>
      obtain ⟨i, below, rfl⟩ := hs.1
      exact hfilling trivial
    | _ => exact hs.1.elim

theorem keys_frames (h : ∀ k u key stage, load k u key stage ∈ s → stage.isInside) :
    Frame.keys k (frames s) = progress k s := by
  induction s with
  | nil => rfl
  | cons a rest ih =>
    have hrest := ih fun k u key stage hmem => h k u key stage (List.mem_cons_of_mem a hmem)
    unfold Frame.keys frames at hrest
    cases a with
    | load j u key stage =>
      have hinside := h j u key stage List.mem_cons_self
      by_cases hj : j = k
      · subst hj
        rw [progress_load_inside hinside, ← hrest]
        simp [Frame.keys, frames, frame]
      · rw [progress_load_ne hj, ← hrest]
        simp [Frame.keys, frames, frame, hj]
    | invoke j progression => exact hrest
    | call callee => exact hrest

end Activity

namespace Config

variable {crew : WorkerId → Prop} {thread : ThreadId} {aside : World L → World L → Prop}
  {s : List (Activity L)} {H : List (Moment L)} {w : World L} {k : WorkerId} {u : UnitId}
  {key : String} {env : EnvironmentId} {c c' : Config L} {m : Moment L}

/-- A moment is that of a call that stands, or stood, right above its frames. -/
theorem Step.frames (h : Step crew thread aside c c') (hadded : c'.history = c.history ++ [m]) :
    ∃ a s, m.frames = Activity.frames s ∧ (c.stack = a :: s ∨ c'.stack = a :: s) := by
  cases h <;> simp at hadded <;> subst hadded
  case arrive => exact ⟨_, _, rfl, .inr rfl⟩
  case compile => exact ⟨_, _, rfl, .inr rfl⟩
  case execute => exact ⟨_, _, rfl, .inr rfl⟩
  case leave => exact ⟨_, _, rfl, .inl rfl⟩
  case arriveInvoke => exact ⟨_, _, rfl, .inr rfl⟩
  case call => exact ⟨_, _, rfl, .inr rfl⟩
  case leaveInvoke => exact ⟨_, _, rfl, .inl rfl⟩
  case comeBack => exact ⟨_, _, rfl, .inl rfl⟩

theorem Path.history (h : Path crew thread aside c c') : ∃ after, c'.history = c.history ++ after := by
  induction h with
  | refl => exact ⟨[], (List.append_nil _).symm⟩
  | tail _ hstep ih =>
    obtain ⟨after, hafter⟩ := ih
    rcases hstep.history with hsame | ⟨m, hadded⟩
    · exact ⟨after, hsame.trans hafter⟩
    · exact ⟨after ++ [m], by rw [hadded, hafter, List.append_assoc]⟩

theorem Path.leaves {o : Outcome (Answer EnvironmentId)}
    (h : Path crew thread aside ⟨.load k u key (.settled o) :: s, H, w⟩ c') (hend : c'.stack = []) :
    ∃ v after, ReflTransGen aside w v ∧ c'.history =
      H ++ ⟨Activity.frames s, .left (.load k u key) o, v⟩ :: after := by
  generalize hc : (⟨.load k u key (.settled o) :: s, H, w⟩ : Config L) = c at h
  induction h using ReflTransGen.head_induction_on generalizing w with
  | refl =>
    rw [← hc] at hend
    cases hend
  | head hstep hrest ih =>
    subst hc
    cases hstep with
    | aside h =>
      obtain ⟨v, after, hmoves, hafter⟩ := ih rfl
      exact ⟨v, after, hmoves.head h, hafter⟩
    | arrive hk hload hholds => exact hload.elim
    | refuse hstage => cases hstage
    | crash hstage hreturned => cases hstage
    | leave =>
      obtain ⟨after, hafter⟩ := Path.history hrest
      exact ⟨w, after, .refl, by simpa using hafter⟩
    | arriveInvoke hk hcall => exact hcall.elim

/-- A load whose key is in progress is answered with the module that is being filled. -/
theorem Path.shares {v : UnitId} {stage : Stage L} (haside : ∀ w w', aside w w' → w.Beside w')
    (h : Path crew thread aside ⟨.load k u key .arriving :: s, H, w⟩ c')
    (hc : Sound crew thread ⟨.load k u key .arriving :: s, H, w⟩) (hend : c'.stack = [])
    (hmem : .load k v key stage ∈ s) (hmodule : stage.module? = some env) :
    ∃ x after, c'.history =
      H ++ ⟨Activity.frames s, .left (.load k u key) (.done (.ok env)), x⟩ :: after := by
  generalize hstart : (⟨.load k u key .arriving :: s, H, w⟩ : Config L) = c at h
  induction h using ReflTransGen.head_induction_on generalizing w with
  | refl =>
    rw [← hstart] at hend
    cases hend
  | head hstep hrest ih =>
    subst hstart
    have hmem' := List.mem_cons_of_mem (.load k u key .arriving) hmem
    have hk : crew k := hc.seated.crew_of_mem List.mem_cons_self
    have hfilled : ((w.worker k).entered thread).cache.peek key = some env := by
      rw [Nested.peek_entered hc.seated hk hmem' (Stage.isInside_of_module? hmodule)]
      exact hc.nested.filled k v key stage env hmem' hmodule
    have hc' := hstep.sound haside hc
    cases hstep with
    | aside h => exact ih hc' rfl
    | arrive hk hload hholds => exact hload.elim
    | hit hpeek =>
      rw [hfilled] at hpeek
      cases hpeek
      obtain ⟨x, after, -, hafter⟩ := Path.leaves hrest hend
      exact ⟨x, after, hafter⟩
    | miss hpeek =>
      rw [hfilled] at hpeek
      cases hpeek
    | refuse hstage => cases hstage
    | crash hstage hreturned => cases hstage
    | arriveInvoke hk hcall => exact hcall.elim

/-- A load whose body has come back shows its outcome next: the module that was filled, if the body
succeeded. -/
theorem Path.fills {code : L.Body} {time : UInt64} {o : Outcome (Answer Value)}
    (h : Path crew thread aside ⟨.load k u key (.filling env code time) :: s, H, w⟩ c')
    (hreturned : Returned H (.execute code k env) o) (hend : c'.stack = []) :
    ∃ o' x after, c'.history = H ++ ⟨Activity.frames s, .left (.load k u key) o', x⟩ :: after ∧
      ((∃ value, o = .done (.ok value)) ∧ o' = .done (.ok env) ∨
        (∀ value, o ≠ .done (.ok value)) ∧ ∀ found, o' ≠ .done (.ok found)) := by
  generalize hc : (⟨.load k u key (.filling env code time) :: s, H, w⟩ : Config L) = c at h
  induction h using ReflTransGen.head_induction_on generalizing w with
  | refl =>
    rw [← hc] at hend
    cases hend
  | head hstep hrest ih =>
    subst hc
    rcases hstep.of_filling hreturned with ⟨v, hv, rfl⟩ | ⟨value, rfl, rfl⟩ | ⟨cause, rfl, rfl⟩ |
      ⟨payload, rfl, rfl⟩
    · exact ih rfl
    · obtain ⟨x, after, -, hafter⟩ := Path.leaves hrest hend
      exact ⟨_, x, after, hafter, .inl ⟨⟨value, rfl⟩, rfl⟩⟩
    · obtain ⟨x, after, -, hafter⟩ := Path.leaves hrest hend
      exact ⟨_, x, after, hafter, .inr ⟨(fun _ h => nomatch h), fun _ h => nomatch h⟩⟩
    · obtain ⟨x, after, -, hafter⟩ := Path.leaves hrest hend
      exact ⟨_, x, after, hafter, .inr ⟨(fun _ h => nomatch h), fun _ h => nomatch h⟩⟩

end Config

/-- How the moments of a run show that a module is shared while its load is in progress. -/
structure SharesPartial (k : WorkerId) (t : List (Moment L)) : Prop where
  distinct : ∀ m ∈ t, (Frame.keys k m.frames).Nodup
  served : ∀ before frames u u' key w after,
    t = before ++ ⟨frames, .entered (.load k u key), w⟩ :: after → .load k u' key ∈ frames →
    ∃ code env above below w' rest,
      frames = above ++ .call (.execute code k env) :: .load k u' key :: below ∧
      after = ⟨frames, .left (.load k u key) (.done (.ok env)), w'⟩ :: rest
  filled : ∀ before frames u key code env o w after,
    t = before ++ ⟨.load k u key :: frames, .left (.call (.execute code k env)) o, w⟩ :: after →
    ∃ o' w' rest, after = ⟨frames, .left (.load k u key) o', w'⟩ :: rest ∧
      ((∃ value, o = .done (.ok value)) ∧ o' = .done (.ok env) ∨
        (∀ value, o ≠ .done (.ok value)) ∧ ∀ found, o' ≠ .done (.ok found))

namespace Setting

variable {S : Setting L} {crew : WorkerId → Prop} {names : String → Prop} {thread : ThreadId}
  {aside : World L → World L → Prop} {w w' : World L} {t : List (Moment L)} {depth : Nat}
  {request : Request L} {o : Outcome request.Reply} {k : WorkerId}

theorem sharesPartial_operation (hS : S.Suits crew names thread aside) (hw : w.Rests crew)
    (hrequest : request.CallsOn crew names)
    (h : S.answers thread (S.calls thread depth) [] request w o w' t) : SharesPartial k t where
  distinct m hm := by
    obtain ⟨c₁, c₂, h₁, hstep, hadded, -⟩ := (path_operation hS hw hrequest h).step_of_mem rfl hm
    have hc₁ := Config.Path.sound hS.beside h₁ hw.sound
    have hc₂ := hstep.sound hS.beside hc₁
    have hdistinct : ∀ {c : Config L} {a s}, c.Sound crew thread → c.stack = a :: s →
        (Frame.keys k (Activity.frames s)).Nodup := by
      intro c a s hc hstack
      have hshaped := hc.nested.shaped
      have hkeys := hc.nested.distinct k
      rw [hstack] at hshaped hkeys
      rw [Activity.keys_frames fun _ _ _ _ => Activity.inside_of_fits hshaped]
      cases a with
      | load j u key stage =>
        unfold Activity.progress at hkeys
        split at hkeys
        · exact (List.nodup_cons.1 hkeys).2
        · exact hkeys
      | invoke j progression => exact hkeys
      | call callee => exact hkeys
    obtain ⟨a, s, hframes, hstack | hstack⟩ := hstep.frames hadded
    · rw [hframes]
      exact hdistinct hc₁ hstack
    · rw [hframes]
      exact hdistinct hc₂ hstack
  served before frames u u' key x after ht hmem := by
    rcases Config.Path.split (path_operation hS hw hrequest h) ht with hlt | hsplit
    · cases hlt
    obtain ⟨c₁, c₂, h₁, hstep, hbefore, hadded, h₂⟩ := hsplit
    obtain ⟨hstack, -, rfl, -⟩ := hstep.of_entered_load (hbefore ▸ hadded)
    have hc₂ := hstep.sound hS.beside (Config.Path.sound hS.beside h₁ hw.sound)
    obtain ⟨a, ha, hframe⟩ := List.mem_map.1 hmem
    cases a with
    | load j v key' stage =>
      cases hframe
      obtain ⟨stack, history, world⟩ := c₂
      obtain rfl : _ = _ := hstack
      have hshaped := hc₂.nested.shaped
      obtain ⟨env, code, time, above, below, rfl, heq⟩ :=
        Activity.execute_of_mayLoad hshaped.2 hshaped.1 ha
      obtain ⟨y, rest, hafter⟩ := h₂.shares hS.beside hc₂ rfl ha rfl
      obtain rfl : _ = _ := hadded
      change t = _ at hafter
      rw [ht, List.append_assoc] at hafter
      have hrest := List.append_cancel_left hafter
      simp only [List.singleton_append, List.cons.injEq, true_and] at hrest
      refine ⟨code, env, Activity.frames above, Activity.frames below, y, rest, ?_, hrest⟩
      rw [heq]
      simp [Activity.frames, Activity.frame]
    | invoke j progression => cases hframe
    | call callee => cases hframe
  filled before frames u key code env outcome x after ht := by
    rcases Config.Path.split (path_operation hS hw hrequest h) ht with hlt | hsplit
    · cases hlt
    obtain ⟨c₁, c₂, h₁, hstep, hbefore, hadded, h₂⟩ := hsplit
    obtain ⟨hstack, -, hframes, -⟩ := hstep.of_left_call (hbefore ▸ hadded)
    have hc₁ := Config.Path.sound hS.beside h₁ hw.sound
    have hfits : (Activity.call (.execute code k env)).Fits c₂.stack := by
      have hshaped := hc₁.nested.shaped
      rw [hstack] at hshaped
      exact hshaped.1
    obtain ⟨v, key', time, s, hs⟩ := hfits
    rw [hs] at hframes
    cases hframes
    obtain ⟨stack, history, world⟩ := c₂
    obtain rfl : _ = _ := hs
    obtain rfl : _ = _ := hadded
    obtain ⟨o', y, rest, hafter, houtcome⟩ := h₂.fills ⟨before, _, _, rfl⟩ rfl
    change t = _ at hafter
    rw [ht, List.append_assoc] at hafter
    have hrest := List.append_cancel_left hafter
    simp only [List.singleton_append, List.cons.injEq, true_and] at hrest
    exact ⟨o', y, rest, hrest, houtcome⟩

end Setting

end ScriptWorker
