import ScriptWorker.Proofs.Moments

/-!
# Runs that are evaluated

A run on which nobody else makes a move can be computed, with the moments that it shows. What is
computed is one of the runs there may be.
-/

namespace ScriptWorker

open Relation

/-- What comes of something that is not interfered with, or `none` if it cannot go on. -/
abbrev Play (L : Language) (α : Type) :=
  World L → Option (Outcome α × World L × List (Moment L))

namespace Program

variable {ω κ ε : Type} {ρ : κ → Type} {α : Type}

/-- Take the steps of a program, with code from outside evaluated as it is called. -/
def evaluate (call : (callee : κ) → ω → Option (Outcome (ρ callee) × ω × List ε)) :
    Program ω κ ρ α → ω → Option (Outcome α × ω × List ε)
  | ended outcome, w => some (outcome, w, [])
  | step move next, w =>
    match move w with
    | some w' => (next w).evaluate call w'
    | none => none
  | .call callee next, w =>
    match call callee w with
    | some (o, w', t) =>
      match (next o).evaluate call w' with
      | some (o', w'', t') => some (o', w'', t ++ t')
      | none => none
    | none => none

theorem runs_of_evaluate {others : ω → ω → Prop}
    {run : (callee : κ) → ω → Outcome (ρ callee) → ω → List ε → Prop}
    {call : (callee : κ) → ω → Option (Outcome (ρ callee) × ω × List ε)}
    (hcall : ∀ callee w o w' t, call callee w = some (o, w', t) → run callee w o w' t)
    {p : Program ω κ ρ α} {w w' : ω} {o : Outcome α} {t : List ε}
    (h : p.evaluate call w = some (o, w', t)) : p.Runs others run w o w' t := by
  induction p generalizing w t with
  | ended outcome =>
    cases h
    exact ⟨.refl, rfl, rfl⟩
  | step move next ih =>
    unfold evaluate at h
    split at h
    · next v hmove => exact ⟨w, v, .refl, hmove, ih w h⟩
    · cases h
  | call callee next ih =>
    unfold evaluate at h
    split at h
    · next o₁ v t₁ hfirst =>
      split at h
      · next o₂ v' t₂ hrest =>
        cases h
        exact ⟨w, o₁, v, t₁, t₂, .refl, hcall _ _ _ _ _ hfirst, ih o₁ hrest, rfl⟩
      · cases h
    · cases h

theorem evaluate_thenOutcome {β : Type}
    {call : (callee : κ) → ω → Option (Outcome (ρ callee) × ω × List ε)} (p : Program ω κ ρ β)
    (f : Outcome β → Program ω κ ρ α) (w : ω) :
    (p.thenOutcome f).evaluate call w =
      match p.evaluate call w with
      | some (o, w', t) =>
        match (f o).evaluate call w' with
        | some (o', w'', t') => some (o', w'', t ++ t')
        | none => none
      | none => none := by
  induction p generalizing w with
  | ended outcome =>
    simp only [Program.thenOutcome, evaluate]
    cases (f outcome).evaluate call w <;> rfl
  | step move next ih =>
    simp only [Program.thenOutcome, evaluate]
    cases move w with
    | none => rfl
    | some w' => exact ih w w'
  | call callee next ih =>
    simp only [Program.thenOutcome, evaluate]
    cases call callee w with
    | none => rfl
    | some first =>
      obtain ⟨o, w', t⟩ := first
      simp only [ih]
      cases (next o).evaluate call w' with
      | none => rfl
      | some second =>
        obtain ⟨o', w'', t'⟩ := second
        dsimp only
        cases (f o').evaluate call w'' with
        | none => rfl
        | some third => simp only [List.append_assoc]

def Completes (call : (callee : κ) → ω → Option (Outcome (ρ callee) × ω × List ε))
    (p : Program ω κ ρ α) (w : ω) : Prop := (p.evaluate call w).isSome

section Completes

variable {β : Type} {call : (callee : κ) → ω → Option (Outcome (ρ callee) × ω × List ε)} {w : ω}

theorem completes_thenOutcome {p : Program ω κ ρ β} {f : Outcome β → Program ω κ ρ α}
    (hp : p.Completes call w)
    (hf : ∀ o w' t, p.evaluate call w = some (o, w', t) → (f o).Completes call w') :
    (p.thenOutcome f).Completes call w := by
  unfold Completes at hp ⊢
  rw [evaluate_thenOutcome]
  obtain ⟨⟨o, w', t⟩, hfirst⟩ := Option.isSome_iff_exists.1 hp
  obtain ⟨⟨o', w'', t'⟩, hsecond⟩ := Option.isSome_iff_exists.1 (hf o w' t hfirst)
  rw [hfirst]
  dsimp only
  rw [hsecond]
  rfl

theorem completes_bind {p : Program ω κ ρ β} {f : β → Program ω κ ρ α} (hp : p.Completes call w)
    (hf : ∀ b w' t, p.evaluate call w = some (.done b, w', t) → (f b).Completes call w') :
    (p >>= f).Completes call w := by
  refine completes_thenOutcome hp fun o w' t h => ?_
  cases o with
  | done b => exact hf b w' t h
  | panic payload => rfl

theorem completes_read_bind {f : ω → β} {g : β → Program ω κ ρ α} :
    (read f >>= g).Completes call w ↔ (g (f w)).Completes call w := Iff.rfl

theorem completes_modify_bind {f : ω → ω} {g : Unit → Program ω κ ρ α} :
    (modify f >>= g).Completes call w ↔ (g ()).Completes call (f w) := Iff.rfl

theorem completes_transact_bind {f : ω → β × ω} {g : β → Program ω κ ρ α} :
    (transact f >>= g).Completes call w ↔ (g (f w).1).Completes call (f w).2 := Iff.rfl

theorem completes_await_bind {f : ω → Option (β × ω)} {g : β → Program ω κ ρ α} {b : β} {w' : ω}
    (hf : f w = some (b, w')) : (await f >>= g).Completes call w ↔ (g b).Completes call w' := by
  change ((Program.step _ _).evaluate call w).isSome ↔ _
  unfold evaluate
  dsimp only
  rw [hf]
  rfl

theorem completes_invokeOutside_bind {callee : κ} {g : ρ callee → Program ω κ ρ α}
    (hcall : (call callee w).isSome)
    (hg : ∀ a w' t, call callee w = some (.done a, w', t) → (g a).Completes call w') :
    (invokeOutside callee >>= g).Completes call w := by
  obtain ⟨⟨o, w', t⟩, hfirst⟩ := Option.isSome_iff_exists.1 hcall
  have hevaluate : (invokeOutside callee : Program ω κ ρ _).evaluate call w = some (o, w', t) := by
    simp [invokeOutside, evaluate, hfirst]
  refine completes_bind (by simp [Completes, hevaluate]) fun a v t' h => ?_
  rw [hevaluate] at h
  cases h
  exact hg a _ _ hfirst

end Completes

end Program

variable {L : Language} {α β : Type}

namespace Play

def thenOutcome (p : Play L β) (f : Outcome β → Play L α) : Play L α := fun w =>
  match p w with
  | some (o, w', t) =>
    match f o w' with
    | some (o', w'', t') => some (o', w'', t ++ t')
    | none => none
  | none => none

def bind (p : Play L β) (f : β → Play L α) : Play L α :=
  p.thenOutcome fun
    | .done a => f a
    | .panic payload => fun w => some (.panic payload, w, [])

def within (frames : List (Frame L)) (f : Frame L)
    (inside : List (Frame L) → Play L f.Result) : Play L f.Result := fun w =>
  match inside (f :: frames) w with
  | some (o, w', t) =>
    some (o, w', ⟨frames, .entered f, w⟩ :: t ++ [⟨frames, .left f o, w'⟩])
  | none => none

theorem isSome_thenOutcome {p : Play L β} {f : Outcome β → Play L α} {w : World L}
    (hp : (p w).isSome) (hf : ∀ o w' t, p w = some (o, w', t) → (f o w').isSome) :
    (p.thenOutcome f w).isSome := by
  obtain ⟨⟨o, w', t⟩, hfirst⟩ := Option.isSome_iff_exists.1 hp
  obtain ⟨⟨o', w'', t'⟩, hsecond⟩ := Option.isSome_iff_exists.1 (hf o w' t hfirst)
  unfold Play.thenOutcome
  rw [hfirst]
  dsimp only
  rw [hsecond]
  rfl

theorem isSome_bind {p : Play L β} {f : β → Play L α} {w : World L} (hp : (p w).isSome)
    (hf : ∀ a w' t, p w = some (.done a, w', t) → (f a w').isSome) : (p.bind f w).isSome := by
  refine isSome_thenOutcome hp fun o w' t h => ?_
  cases o with
  | done a => exact hf a w' t h
  | panic payload => rfl

theorem isSome_within {frames : List (Frame L)} {f : Frame L}
    {inside : List (Frame L) → Play L f.Result} {w : World L}
    (h : (inside (f :: frames) w).isSome) : (within frames f inside w).isSome := by
  obtain ⟨⟨o, w', t⟩, hinside⟩ := Option.isSome_iff_exists.1 h
  unfold within
  rw [hinside]
  rfl

/-- All that is computed may happen. -/
def Follows (p : Play L α) (b : Behaviour L α) : Prop :=
  ∀ w o w' t, p w = some (o, w', t) → b w o w' t

theorem Follows.thenOutcome {p : Play L β} {b : Behaviour L β} {f : Outcome β → Play L α}
    {g : Outcome β → Behaviour L α} (hp : p.Follows b) (hf : ∀ o, (f o).Follows (g o)) :
    (p.thenOutcome f).Follows (b.thenOutcome g) := by
  intro w o w' t h
  unfold Play.thenOutcome at h
  split at h
  · next o₁ v t₁ hfirst =>
    split at h
    · next o₂ v' t₂ hrest =>
      cases h
      exact ⟨o₁, v, t₁, t₂, hp _ _ _ _ hfirst, hf o₁ _ _ _ _ hrest, rfl⟩
    · cases h
  · cases h

theorem Follows.bind {p : Play L β} {b : Behaviour L β} {f : β → Play L α}
    {g : β → Behaviour L α} (hp : p.Follows b) (hf : ∀ a, (f a).Follows (g a)) :
    (p.bind f).Follows (b.bind g) := by
  apply hp.thenOutcome
  intro o w o' w' t h
  cases o with
  | done a => exact hf a w o' w' t h
  | panic payload =>
    cases h
    exact ⟨rfl, rfl, rfl⟩

theorem Follows.within {frames : List (Frame L)} {f : Frame L}
    {inside : List (Frame L) → Play L f.Result} {b : List (Frame L) → Behaviour L f.Result}
    (h : ∀ frames, (inside frames).Follows (b frames)) :
    (within frames f inside).Follows (Behaviour.within frames f b) := by
  intro w o w' t hplay
  unfold Play.within at hplay
  split at hplay
  · next o₁ v t₁ hinside =>
    cases hplay
    exact ⟨t₁, h _ _ _ _ _ hinside, rfl⟩
  · cases hplay

end Play

def Code.play (answer : (request : Request L) → Play L request.Reply) : Code L α → Play L α
  | .ended outcome => fun w => some (outcome, w, [])
  | .ask request next => (answer request).thenOutcome fun outcome => (next outcome).play answer

theorem Code.follows_play {others : World L → World L → Prop}
    {answer : (request : Request L) → Play L request.Reply}
    {b : (request : Request L) → Behaviour L request.Reply}
    (hanswer : ∀ request, (answer request).Follows (b request)) (code : Code L α) :
    (code.play answer).Follows (code.Plays others b) := by
  induction code with
  | ended outcome =>
    intro w o w' t h
    cases h
    exact ⟨.refl, rfl, rfl⟩
  | ask request next ih => exact (hanswer request).thenOutcome ih

namespace Setting

variable (S : Setting L) (thread : ThreadId)
  (play : List (Frame L) → (callee : Callee L) → Play L callee.Result)

def playRun (frames : List (Frame L)) (p : Run L α) : Play L α := p.evaluate (play frames)

def playLoad (frames : List (Frame L)) (k : WorkerId) (caller : Option EnvironmentId)
    (name : String) : Play L (Answer EnvironmentId) :=
  (playRun play frames (Worker.locate k caller name)).bind fun
    | .error cause => playRun play frames (pure (.error cause))
    | .ok u => fun w =>
      Play.within frames (.load k u (w.unitKey u))
        (fun frames => playRun play frames (Worker.loadUnit thread k u)) w

def playFind (frames : List (Frame L)) (k : WorkerId) : ModuleRef → Play L (Answer EnvironmentId)
  | .environment env => playRun play frames (pure (.ok env))
  | .name name => playLoad thread play frames k none name

def playInvoke (frames : List (Frame L)) (k : WorkerId) (module : ModuleRef)
    (function : FunctionRef) (args : List Value) : Play L (Answer Value) :=
  Play.within frames (.invoke k) fun frames =>
    (playRun play frames (Worker.enter thread k)).bind fun _ =>
      Play.thenOutcome
        ((playFind thread play frames k module).bind fun
          | .error cause => playRun play frames (pure (.error cause))
          | .ok env => playRun play frames (Worker.callNamed thread k env function args))
        fun outcome => (playRun play frames (Program.modify fun w => w.leave k)).bind fun _ =>
          playRun play frames (.ended outcome)

def playAnswer (frames : List (Frame L)) : (request : Request L) → Play L request.Reply
  | .loadModule k caller name => playLoad thread play frames k caller name
  | .invoke k module function args => playInvoke thread play frames k module function args
  | request => playRun play frames (S.interpreter.answer thread request)

def playCall : (depth : Nat) → List (Frame L) → (callee : Callee L) → Play L callee.Result
  | 0, _, _ => fun _ => none
  | depth + 1, frames, callee =>
    Play.within frames (.call callee) fun frames =>
      (S.interpreter.code callee).play (S.playAnswer thread (playCall depth) frames)

section Follows

variable {S : Setting L} {thread : ThreadId}
  {play : List (Frame L) → (callee : Callee L) → Play L callee.Result}
  {call : List (Frame L) → (callee : Callee L) → Behaviour L callee.Result}

theorem follows_playRun (h : ∀ frames callee, (play frames callee).Follows (call frames callee))
    (frames : List (Frame L)) (p : Run L α) :
    (playRun play frames p).Follows (S.runs call frames p) :=
  fun _ _ _ _ => Program.runs_of_evaluate (h frames)

theorem follows_playLoad (h : ∀ frames callee, (play frames callee).Follows (call frames callee))
    (frames : List (Frame L)) (k : WorkerId) (caller : Option EnvironmentId) (name : String) :
    (playLoad thread play frames k caller name).Follows
      (S.loads thread call frames k caller name) := by
  apply (follows_playRun h frames _).bind
  intro answer
  cases answer with
  | error cause => exact follows_playRun h frames _
  | ok u =>
    intro w
    have hload : (Play.within frames (.load k u (w.unitKey u)) fun frames =>
          playRun play frames (Worker.loadUnit thread k u)).Follows
        (Behaviour.within frames (.load k u (w.unitKey u)) fun frames =>
          S.runs call frames (Worker.loadUnit thread k u)) :=
      Play.Follows.within fun frames => follows_playRun h frames _
    exact hload w

theorem follows_playFind (h : ∀ frames callee, (play frames callee).Follows (call frames callee))
    (frames : List (Frame L)) (k : WorkerId) (module : ModuleRef) :
    (playFind thread play frames k module).Follows (S.finds thread call frames k module) := by
  cases module with
  | environment env => exact follows_playRun h frames _
  | name name => exact follows_playLoad h frames k none name

theorem follows_playInvoke (h : ∀ frames callee, (play frames callee).Follows (call frames callee))
    (frames : List (Frame L)) (k : WorkerId) (module : ModuleRef) (function : FunctionRef)
    (args : List Value) :
    (playInvoke thread play frames k module function args).Follows
      (S.invokes thread call frames k module function args) := by
  apply Play.Follows.within
  intro frames
  refine (follows_playRun h frames _).bind fun guard => ?_
  refine Play.Follows.thenOutcome ?_ fun outcome =>
    (follows_playRun h frames _).bind fun _ => follows_playRun h frames _
  refine (follows_playFind h frames k module).bind fun answer => ?_
  cases answer <;> exact follows_playRun h frames _

theorem follows_playAnswer (h : ∀ frames callee, (play frames callee).Follows (call frames callee))
    (frames : List (Frame L)) (request : Request L) :
    (S.playAnswer thread play frames request).Follows (S.answers thread call frames request) := by
  cases request with
  | loadModule k caller name => exact follows_playLoad h frames k caller name
  | invoke k module function args => exact follows_playInvoke h frames k module function args
  | _ => exact follows_playRun h frames _

theorem follows_playCall (depth : Nat) (frames : List (Frame L)) (callee : Callee L) :
    (S.playCall thread depth frames callee).Follows (S.calls thread depth frames callee) := by
  induction depth generalizing frames callee with
  | zero =>
    intro w o w' t h
    cases h
  | succ depth ih =>
    apply Play.Follows.within
    intro frames
    exact Code.follows_play (follows_playAnswer ih frames) _

theorem answers_of_play {depth : Nat} {request : Request L} {w w' : World L}
    {o : Outcome request.Reply} {t : List (Moment L)}
    (h : S.playAnswer thread (S.playCall thread depth) [] request w = some (o, w', t)) :
    S.answers thread (S.calls thread depth) [] request w o w' t :=
  follows_playAnswer (fun frames callee => follows_playCall depth frames callee) [] request w o w' t h

end Follows

end Setting

end ScriptWorker
