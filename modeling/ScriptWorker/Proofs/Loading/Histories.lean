import ScriptWorker.Proofs.Loading.Nesting

/-!
# What a history tells

A step adds one moment to the history at most. So a moment in the history of a path belongs to one
of its steps, and the kind of the moment says which step that was.
-/

namespace ScriptWorker

open Relation World

variable {L : Language}

namespace Config

variable {crew : WorkerId → Prop} {thread : ThreadId} {aside : World L → World L → Prop}
  {c c' : Config L} {m : Moment L} {before after : List (Moment L)}

theorem Step.history (h : Step crew thread aside c c') :
    c'.history = c.history ∨ ∃ m, c'.history = c.history ++ [m] := by
  cases h <;> first | exact .inl rfl | exact .inr ⟨_, rfl⟩

/-- A moment in the history of a path was there at its beginning, or one of its steps added it. -/
theorem Path.split (h : Path crew thread aside c c') (hhistory : c'.history = before ++ m :: after) :
    before.length < c.history.length ∨
      ∃ c₁ c₂, Path crew thread aside c c₁ ∧ Step crew thread aside c₁ c₂ ∧ c₁.history = before ∧
        c₂.history = before ++ [m] ∧ Path crew thread aside c₂ c' := by
  induction h generalizing after with
  | refl =>
    left
    rw [hhistory, List.length_append, List.length_cons]
    omega
  | @tail c₁ c₂ hpath hstep ih =>
    have hextend : ∀ after', c₁.history = before ++ m :: after' →
        before.length < c.history.length ∨
          ∃ c₃ c₄, Path crew thread aside c c₃ ∧ Step crew thread aside c₃ c₄ ∧
            c₃.history = before ∧ c₄.history = before ++ [m] ∧ Path crew thread aside c₄ c₂ := by
      intro after' h₁
      rcases ih h₁ with hlt | ⟨c₃, c₄, h₃, hstep₃, hbefore, hadded, h₄⟩
      · exact .inl hlt
      · exact .inr ⟨c₃, c₄, h₃, hstep₃, hbefore, hadded, h₄.tail hstep⟩
    rcases hstep.history with hsame | ⟨m', hadded⟩
    · exact hextend after (hsame ▸ hhistory)
    · rw [hadded] at hhistory
      rcases List.eq_nil_or_concat after with rfl | ⟨after', last, rfl⟩
      · have hboth : c₁.history = before ∧ [m'] = [m] := List.append_inj' hhistory rfl
        obtain ⟨hbefore, hm⟩ := hboth
        cases hm
        exact .inr ⟨c₁, c₂, hpath, hstep, hbefore, by rw [hadded, hbefore], .refl⟩
      · have hboth : c₁.history = before ++ m :: after' ∧ [m'] = [last] :=
          List.append_inj' (by simpa using hhistory) rfl
        exact hextend after' hboth.1

theorem Path.step_of_mem (h : Path crew thread aside c c') (hempty : c.history = [])
    (hm : m ∈ c'.history) :
    ∃ c₁ c₂, Path crew thread aside c c₁ ∧ Step crew thread aside c₁ c₂ ∧
      c₂.history = c₁.history ++ [m] ∧ Path crew thread aside c₂ c' := by
  obtain ⟨before, after, hhistory⟩ := List.append_of_mem hm
  rcases h.split hhistory with hlt | ⟨c₁, c₂, h₁, hstep, rfl, hadded, h₂⟩
  · rw [hempty] at hlt
    cases hlt
  · exact ⟨c₁, c₂, h₁, hstep, hadded, h₂⟩

section Kinds

variable {frames : List (Frame L)} {x : World L} {k : WorkerId} {u : UnitId} {key : String}

theorem Step.of_left_call {callee : Callee L} {o : Outcome callee.Result}
    (h : Step crew thread aside c c')
    (hadded : c'.history = c.history ++ [⟨frames, .left (.call callee) o, x⟩]) :
    c.stack = .call callee :: c'.stack ∧ c'.world = c.world ∧
      frames = Activity.frames c'.stack ∧ x = c.world := by
  cases h <;> simp at hadded
  case comeBack s H w callee' o' =>
    obtain ⟨hframes, ⟨rfl, rfl⟩, hworld⟩ := hadded
    exact ⟨rfl, rfl, hframes.symm, hworld.symm⟩

theorem Step.of_left_load {o : Outcome (Answer EnvironmentId)} (h : Step crew thread aside c c')
    (hadded : c'.history = c.history ++ [⟨frames, .left (.load k u key) o, x⟩]) :
    c.stack = .load k u key (.settled o) :: c'.stack ∧ c'.world = c.world ∧
      frames = Activity.frames c'.stack ∧ x = c.world := by
  cases h <;> simp at hadded
  case leave s H w k u key o =>
    obtain ⟨hframes, ⟨⟨rfl, rfl, rfl⟩, rfl⟩, hworld⟩ := hadded
    exact ⟨rfl, rfl, hframes.symm, hworld.symm⟩

theorem Step.of_entered_load (h : Step crew thread aside c c')
    (hadded : c'.history = c.history ++ [⟨frames, .entered (.load k u key), x⟩]) :
    c'.stack = .load k u key .arriving :: c.stack ∧ c'.world = c.world ∧
      frames = Activity.frames c.stack ∧ x = c.world := by
  cases h <;> simp at hadded
  case arrive s H w k u key hk hload hholds =>
    obtain ⟨hframes, ⟨rfl, rfl, rfl⟩, hworld⟩ := hadded
    exact ⟨rfl, rfl, hframes.symm, hworld.symm⟩

theorem Returned.eq {history : List (Moment L)} {a b : Callee L} {o : Outcome a.Result}
    {p : Outcome b.Result} (ha : Returned history a o) (hb : Returned history b p) :
    (⟨a, o⟩ : (callee : Callee L) × Outcome callee.Result) = ⟨b, p⟩ := by
  obtain ⟨before, frames, v, rfl⟩ := ha
  obtain ⟨before', frames', v', heq⟩ := hb
  have hlast := (List.append_inj' heq rfl).2
  cases hlast
  rfl

/-- A load whose body has come back settles by what the body came to. -/
theorem Step.of_filling {s : List (Activity L)} {H : List (Moment L)} {w : World L}
    {env : EnvironmentId} {code : L.Body} {time : UInt64} {o : Outcome (Answer Value)}
    (h : Step crew thread aside ⟨.load k u key (.filling env code time) :: s, H, w⟩ c')
    (hreturned : Returned H (.execute code k env) o) :
    (∃ v, aside w v ∧ c' = ⟨.load k u key (.filling env code time) :: s, H, v⟩) ∨
    (∃ value, o = .done (.ok value) ∧
      c' = ⟨.load k u key (.settled (.done (.ok env))) :: s, H,
        (w.stamp env (w.checksumAt u time)).closed k u key (Activity.script k s) (.ok env)⟩) ∨
    (∃ cause, o = .done (.error cause) ∧
      c' = ⟨.load k u key (.settled (.done (.error cause))) :: s, H,
        w.closed k u key (Activity.script k s) (.error cause)⟩) ∨
    ∃ payload, o = .panic payload ∧
      c' = ⟨.load k u key (.settled (.panic payload)) :: s, H,
        w.modifyWorker k (Worker.unwound (Activity.script k s))⟩ := by
  cases h with
  | aside h => exact .inl ⟨_, h, rfl⟩
  | arrive hk hload hholds => exact hload.elim
  | refuse hstage => cases hstage
  | @finish s H w k u key env code time value hok =>
    cases hreturned.eq hok
    exact .inr (.inl ⟨value, rfl, rfl⟩)
  | @fail s H w k u key env code time cause herror =>
    cases hreturned.eq herror
    exact .inr (.inr (.inl ⟨cause, rfl, rfl⟩))
  | @crash s H w k u key stage callee payload hstage hpanic =>
    cases hreturned.eq hpanic
    exact .inr (.inr (.inr ⟨payload, rfl, rfl⟩))
  | arriveInvoke hk hcall => exact hcall.elim

end Kinds

end Config

end ScriptWorker
