import ScriptWorker.Proofs.Runs

/-!
# Calls and their moments

A call on a worker may load modules, run bodies and call functions, which may do the same again. The
frames are the calls that have begun and not come back. Whenever a call begins or comes back there is
a moment, which keeps the frames around it and the world as it is then. The runs here are those of
the programs of the library, cut along their frames.
-/

namespace ScriptWorker

open Relation

/-- A call that has begun and not come back. -/
inductive Frame (L : Language) where
  | load (worker : WorkerId) (unit : UnitId) (key : String)
  | invoke (worker : WorkerId)
  | call (callee : Callee L)

abbrev Frame.Result {L : Language} : Frame L → Type
  | load .. => Answer EnvironmentId
  | invoke _ => Answer Value
  | call callee => callee.Result

inductive Event (L : Language) where
  | entered (frame : Frame L)
  | left (frame : Frame L) (outcome : Outcome frame.Result)

structure Moment (L : Language) where
  /-- The calls around, the innermost first. -/
  frames : List (Frame L)
  event : Event L
  world : World L

/-- What may come of something: the world before, the outcome, the world after and the moments
between. -/
abbrev Behaviour (L : Language) (α : Type) :=
  World L → Outcome α → World L → List (Moment L) → Prop

variable {L : Language} {α β : Type}

namespace Behaviour

def thenOutcome (b : Behaviour L β) (f : Outcome β → Behaviour L α) : Behaviour L α :=
  fun w o w' t => ∃ o₁ v t₁ t₂, b w o₁ v t₁ ∧ f o₁ v o w' t₂ ∧ t = t₁ ++ t₂

def bind (b : Behaviour L β) (f : β → Behaviour L α) : Behaviour L α :=
  b.thenOutcome fun
    | .done a => f a
    | .panic payload => fun w o w' t => w' = w ∧ o = .panic payload ∧ t = []

/-- What happens inside a frame, between the moments at which it is entered and left. -/
def within (frames : List (Frame L)) (f : Frame L)
    (inside : List (Frame L) → Behaviour L f.Result) : Behaviour L f.Result :=
  fun w o w' t => ∃ t', inside (f :: frames) w o w' t' ∧
    t = ⟨frames, .entered f, w⟩ :: t' ++ [⟨frames, .left f o, w'⟩]

end Behaviour

def Code.Plays (others : World L → World L → Prop)
    (answer : (request : Request L) → Behaviour L request.Reply) : Code L α → Behaviour L α
  | .ended outcome => fun w o w' t => ReflTransGen others w w' ∧ o = outcome ∧ t = []
  | .ask request next =>
    (answer request).thenOutcome fun outcome => (next outcome).Plays others answer

namespace World

def Edited (edits : Storage → Storage → Prop) (w w' : World L) : Prop :=
  ∃ storage, edits w.storage storage ∧ w' = { w with storage := storage }

end World

/-- Where workers run: the code of scripts and host, and the edits of sources that may be made by
others at any time. -/
structure Setting (L : Language) where
  interpreter : Interpreter L
  edits : Storage → Storage → Prop

namespace Setting

variable (S : Setting L) (thread : ThreadId)
  (call : List (Frame L) → (callee : Callee L) → Behaviour L callee.Result)

def runs (frames : List (Frame L)) (p : Run L α) : Behaviour L α :=
  p.Runs (World.Edited S.edits) (call frames)

def loads (frames : List (Frame L)) (k : WorkerId) (caller : Option EnvironmentId)
    (name : String) : Behaviour L (Answer EnvironmentId) :=
  (S.runs call frames (Worker.locate k caller name)).bind fun
    | .error cause => S.runs call frames (pure (.error cause))
    | .ok u => fun w =>
      Behaviour.within frames (.load k u (w.unitKey u))
        (fun frames => S.runs call frames (Worker.loadUnit thread k u)) w

def finds (frames : List (Frame L)) (k : WorkerId) :
    ModuleRef → Behaviour L (Answer EnvironmentId)
  | .environment env => S.runs call frames (pure (.ok env))
  | .name name => S.loads thread call frames k none name

def invokes (frames : List (Frame L)) (k : WorkerId) (module : ModuleRef)
    (function : FunctionRef) (args : List Value) : Behaviour L (Answer Value) :=
  Behaviour.within frames (.invoke k) fun frames =>
    (S.runs call frames (Worker.enter thread k)).bind fun _ =>
      Behaviour.thenOutcome
        ((S.finds thread call frames k module).bind fun
          | .error cause => S.runs call frames (pure (.error cause))
          | .ok env => S.runs call frames (Worker.callNamed thread k env function args))
        fun outcome => (S.runs call frames (Program.modify fun w => w.leave k)).bind fun _ =>
          S.runs call frames (.ended outcome)

def answers (frames : List (Frame L)) : (request : Request L) → Behaviour L request.Reply
  | .loadModule k caller name => S.loads thread call frames k caller name
  | .invoke k module function args => S.invokes thread call frames k module function args
  | request => S.runs call frames (S.interpreter.answer thread request)

/-- Calling code from outside, with at most so many calls inside each other. -/
def calls : (depth : Nat) → List (Frame L) → (callee : Callee L) → Behaviour L callee.Result
  | 0, _, _ => fun _ _ _ _ => False
  | depth + 1, frames, callee =>
    Behaviour.within frames (.call callee) fun frames =>
      (S.interpreter.code callee).Plays (World.Edited S.edits) (S.answers thread (calls depth) frames)

/-- What may come of a request from a thread, as the program for it runs. -/
def Replies (depth : Nat) (request : Request L) (w : World L) (o : Outcome request.Reply)
    (w' : World L) : Prop :=
  (S.interpreter.answer thread request).Runs (World.Edited S.edits)
    (S.interpreter.comesTo thread (World.Edited S.edits) depth) w o w' []

end Setting

/-! ## What shows inside a call -/

namespace Behaviour

variable {frames : List (Frame L)}

def Inside (frames : List (Frame L)) (b : Behaviour L α) : Prop :=
  ∀ w o w' t, b w o w' t → ∀ m ∈ t, frames <:+ m.frames

theorem Inside.thenOutcome {b : Behaviour L β} {f : Outcome β → Behaviour L α}
    (hb : b.Inside frames) (hf : ∀ o, (f o).Inside frames) : (b.thenOutcome f).Inside frames := by
  rintro w o w' t ⟨o₁, v, t₁, t₂, hfirst, hrest, rfl⟩ m hm
  rcases List.mem_append.1 hm with hm | hm
  · exact hb w o₁ v t₁ hfirst m hm
  · exact hf o₁ v o w' t₂ hrest m hm

theorem Inside.bind {b : Behaviour L β} {f : β → Behaviour L α} (hb : b.Inside frames)
    (hf : ∀ a, (f a).Inside frames) : (b.bind f).Inside frames := by
  refine hb.thenOutcome fun o => ?_
  cases o with
  | done a => exact hf a
  | panic payload =>
    rintro w o w' t ⟨-, -, rfl⟩ m hm
    cases hm

theorem Inside.within {f : Frame L} {inside : List (Frame L) → Behaviour L f.Result}
    (h : (inside (f :: frames)).Inside (f :: frames)) : (within frames f inside).Inside frames := by
  rintro w o w' t ⟨t', hinside, rfl⟩ m hm
  rcases List.mem_append.1 hm with hm | hm
  · rcases List.mem_cons.1 hm with rfl | hm
    · exact List.suffix_rfl
    · exact (List.suffix_cons f frames).trans (h w o w' t' hinside m hm)
  · obtain rfl := List.mem_singleton.1 hm
    exact List.suffix_rfl

end Behaviour

section Inside

variable {frames : List (Frame L)} {others : World L → World L → Prop}

theorem inside_runs {call : (callee : Callee L) → Behaviour L callee.Result}
    (hcall : ∀ callee, (call callee).Inside frames) (p : Run L α) :
    Behaviour.Inside frames (p.Runs others call) := by
  induction p with
  | ended outcome =>
    rintro w o w' t ⟨-, -, rfl⟩ m hm
    cases hm
  | step move next ih =>
    rintro w o w' t ⟨v, v', -, -, hrest⟩
    exact ih v v' o w' t hrest
  | call callee next ih =>
    rintro w o w' t ⟨v, o₁, v', t₁, t₂, -, hfirst, hrest, rfl⟩ m hm
    rcases List.mem_append.1 hm with hm | hm
    · exact hcall callee v o₁ v' t₁ hfirst m hm
    · exact ih o₁ v' o w' t₂ hrest m hm

theorem Code.inside_plays {answer : (request : Request L) → Behaviour L request.Reply}
    (hanswer : ∀ request, (answer request).Inside frames) (code : Code L α) :
    (code.Plays others answer).Inside frames := by
  induction code with
  | ended outcome =>
    rintro w o w' t ⟨-, -, rfl⟩ m hm
    cases hm
  | ask request next ih => exact (hanswer request).thenOutcome ih

namespace Setting

variable {S : Setting L} {thread : ThreadId}
  {call : List (Frame L) → (callee : Callee L) → Behaviour L callee.Result}
  (hcall : ∀ frames callee, (call frames callee).Inside frames)
include hcall

theorem inside_loads (frames : List (Frame L)) (k : WorkerId) (caller : Option EnvironmentId)
    (name : String) : (S.loads thread call frames k caller name).Inside frames := by
  refine (inside_runs (hcall frames) _).bind fun answer => ?_
  cases answer with
  | error cause => exact inside_runs (hcall frames) _
  | ok u =>
    intro w
    have hload : (Behaviour.within frames (.load k u (w.unitKey u)) fun frames =>
        S.runs call frames (Worker.loadUnit thread k u)).Inside frames :=
      Behaviour.Inside.within (inside_runs (hcall _) _)
    exact hload w

theorem inside_finds (frames : List (Frame L)) (k : WorkerId) (module : ModuleRef) :
    (S.finds thread call frames k module).Inside frames := by
  cases module with
  | environment env => exact inside_runs (hcall frames) _
  | name name => exact inside_loads hcall frames k none name

theorem inside_invokes (frames : List (Frame L)) (k : WorkerId) (module : ModuleRef)
    (function : FunctionRef) (args : List Value) :
    (S.invokes thread call frames k module function args).Inside frames := by
  refine Behaviour.Inside.within ((inside_runs (hcall _) _).bind fun _ =>
    Behaviour.Inside.thenOutcome ((inside_finds hcall _ k module).bind fun answer => ?_) fun outcome =>
      (inside_runs (hcall _) _).bind fun _ => inside_runs (hcall _) _)
  cases answer <;> exact inside_runs (hcall _) _

theorem inside_answers (frames : List (Frame L)) (request : Request L) :
    (S.answers thread call frames request).Inside frames := by
  cases request with
  | loadModule k caller name => exact inside_loads hcall frames k caller name
  | invoke k module function args => exact inside_invokes hcall frames k module function args
  | _ => exact inside_runs (hcall frames) _

omit hcall in
theorem inside_calls (depth : Nat) (frames : List (Frame L)) (callee : Callee L) :
    (S.calls thread depth frames callee).Inside frames := by
  induction depth generalizing frames callee with
  | zero =>
    intro w o w' t h
    cases h
  | succ depth ih => exact Behaviour.Inside.within (Code.inside_plays (inside_answers ih _) _)

end Setting

end Inside

/-! ## The runs without their moments

Whatever may come of the program for a request is shown by some moments, and moments show nothing else.
-/

section Bare

variable {others : World L → World L → Prop}
  {bare : (callee : Callee L) → World L → Outcome callee.Result → World L → List Empty → Prop}

variable (others bare) in
/-- Something has the runs of a program, with moments. -/
def Behaviour.Shows (b : Behaviour L α) (p : Run L α) : Prop :=
  ∀ w o w', (∃ t, b w o w' t) ↔ ∃ t, p.Runs others bare w o w' t

namespace Behaviour

theorem Shows.thenOutcome {b : Behaviour L β} {p : Run L β} {f : Outcome β → Behaviour L α}
    {g : Outcome β → Run L α} (hb : b.Shows others bare p) (hf : ∀ o, (f o).Shows others bare (g o)) :
    (b.thenOutcome f).Shows others bare (p.thenOutcome g) := by
  intro w o w'
  constructor
  · rintro ⟨t, o₁, v, t₁, t₂, hfirst, hrest, -⟩
    obtain ⟨s₁, hfirst⟩ := (hb w o₁ v).1 ⟨t₁, hfirst⟩
    obtain ⟨s₂, hrest⟩ := (hf o₁ v o w').1 ⟨t₂, hrest⟩
    exact ⟨_, Program.runs_thenOutcome.2 ⟨o₁, v, s₁, s₂, hfirst, hrest, rfl⟩⟩
  · rintro ⟨s, h⟩
    obtain ⟨o₁, v, s₁, s₂, hfirst, hrest, -⟩ := Program.runs_thenOutcome.1 h
    obtain ⟨t₁, hfirst⟩ := (hb w o₁ v).2 ⟨s₁, hfirst⟩
    obtain ⟨t₂, hrest⟩ := (hf o₁ v o w').2 ⟨s₂, hrest⟩
    exact ⟨_, o₁, v, t₁, t₂, hfirst, hrest, rfl⟩

/-- After a panic others may still move; that belongs to the program that panicked. -/
theorem Shows.bind {b : Behaviour L β} {p : Run L β} {f : β → Behaviour L α} {g : β → Run L α}
    (hb : b.Shows others bare p) (hf : ∀ a, (f a).Shows others bare (g a)) :
    (b.bind f).Shows others bare (p >>= g) := by
  intro w o w'
  constructor
  · rintro ⟨t, o₁, v, t₁, t₂, hfirst, hrest, -⟩
    obtain ⟨s₁, hfirst⟩ := (hb w o₁ v).1 ⟨t₁, hfirst⟩
    cases o₁ with
    | done a =>
      obtain ⟨s₂, hrest⟩ := (hf a v o w').1 ⟨t₂, hrest⟩
      exact ⟨_, Program.runs_bind.2 (.inl ⟨a, v, s₁, s₂, hfirst, hrest, rfl⟩)⟩
    | panic payload =>
      obtain ⟨rfl, ho, -⟩ := hrest
      exact ⟨s₁, Program.runs_bind.2 (.inr ⟨payload, w', hfirst, .refl, ho⟩)⟩
  · rintro ⟨s, h⟩
    rcases Program.runs_bind.1 h with ⟨a, v, s₁, s₂, hfirst, hrest, -⟩ | ⟨payload, v, hfirst, hmoves, ho⟩
    · obtain ⟨t₁, hfirst⟩ := (hb w (.done a) v).2 ⟨s₁, hfirst⟩
      obtain ⟨t₂, hrest⟩ := (hf a v o w').2 ⟨s₂, hrest⟩
      exact ⟨_, .done a, v, t₁, t₂, hfirst, hrest, rfl⟩
    · obtain ⟨t₁, hfirst⟩ := (hb w (.panic payload) w').2 ⟨s, hfirst.before hmoves⟩
      exact ⟨_, .panic payload, w', t₁, [], hfirst, ⟨rfl, ho, rfl⟩, rfl⟩

theorem Shows.within {frames : List (Frame L)} {f : Frame L}
    {inside : List (Frame L) → Behaviour L f.Result} {p : Run L f.Result}
    (h : (inside (f :: frames)).Shows others bare p) : (within frames f inside).Shows others bare p :=
  fun w o w' =>
    ⟨fun ⟨_, t, hrun, _⟩ => (h w o w').1 ⟨t, hrun⟩, fun hrun =>
      have ⟨t, ht⟩ := (h w o w').2 hrun
      ⟨_, t, ht, rfl⟩⟩

end Behaviour

theorem Code.shows_plays {interpreter : Interpreter L} {thread : ThreadId}
    {answer : (request : Request L) → Behaviour L request.Reply}
    (hanswer : ∀ request, (answer request).Shows others bare (interpreter.answer thread request))
    (code : Code L α) : (code.Plays others answer).Shows others bare (interpreter.run thread code) := by
  induction code with
  | ended outcome =>
    exact fun w o w' =>
      ⟨fun ⟨_, hmoves, ho, _⟩ => ⟨[], hmoves, ho, rfl⟩, fun ⟨_, hmoves, ho, _⟩ => ⟨[], hmoves, ho, rfl⟩⟩
  | ask request next ih => exact (hanswer request).thenOutcome ih

namespace Setting

variable {S : Setting L} {thread : ThreadId}
  {call : List (Frame L) → (callee : Callee L) → Behaviour L callee.Result}
  (hcall : ∀ frames callee w o w', (∃ t, call frames callee w o w' t) ↔ ∃ t, bare callee w o w' t)
include hcall

theorem shows_runs (frames : List (Frame L)) (p : Run L α) :
    (S.runs call frames p).Shows (World.Edited S.edits) bare p :=
  fun _ _ _ => Program.exists_runs_iff (hcall frames)

theorem shows_loads (frames : List (Frame L)) (k : WorkerId) (caller : Option EnvironmentId)
    (name : String) : (S.loads thread call frames k caller name).Shows (World.Edited S.edits) bare
      (Worker.loadModule thread k caller name) := by
  refine (shows_runs hcall frames _).bind fun answer => ?_
  cases answer with
  | error cause => exact shows_runs hcall frames _
  | ok u =>
    intro w
    have hload : (Behaviour.within frames (.load k u (w.unitKey u)) fun frames =>
        S.runs call frames (Worker.loadUnit thread k u)).Shows (World.Edited S.edits) bare
          (Worker.loadUnit thread k u) := Behaviour.Shows.within (shows_runs hcall _ _)
    exact hload w

theorem shows_finds (frames : List (Frame L)) (k : WorkerId) (module : ModuleRef) :
    (S.finds thread call frames k module).Shows (World.Edited S.edits) bare
      (Worker.findModule thread k module) := by
  cases module with
  | environment env => exact shows_runs hcall frames _
  | name name => exact shows_loads hcall frames k none name

theorem shows_invokes (frames : List (Frame L)) (k : WorkerId) (module : ModuleRef)
    (function : FunctionRef) (args : List Value) :
    (S.invokes thread call frames k module function args).Shows (World.Edited S.edits) bare
      (Worker.invoke thread k module function args) := by
  refine Behaviour.Shows.within ((shows_runs hcall _ _).bind fun _ =>
    Behaviour.Shows.thenOutcome ((shows_finds hcall _ k module).bind fun answer => ?_) fun outcome =>
      (shows_runs hcall _ _).bind fun _ => shows_runs hcall _ _)
  cases answer <;> exact shows_runs hcall _ _

theorem shows_answers (frames : List (Frame L)) (request : Request L) :
    (S.answers thread call frames request).Shows (World.Edited S.edits) bare
      (S.interpreter.answer thread request) := by
  cases request with
  | loadModule k caller name => exact shows_loads hcall frames k caller name
  | invoke k module function args => exact shows_invokes hcall frames k module function args
  | _ => exact shows_runs hcall frames _

omit hcall in
theorem exists_calls_iff (depth : Nat) (frames : List (Frame L)) (callee : Callee L) (w : World L)
    (o : Outcome callee.Result) (w' : World L) :
    (∃ t, S.calls thread depth frames callee w o w' t) ↔
      ∃ t, S.interpreter.comesTo thread (World.Edited S.edits) depth callee w o w' t := by
  induction depth generalizing frames callee w o w' with
  | zero => exact ⟨fun ⟨_, h⟩ => h.elim, fun ⟨_, h⟩ => h.elim⟩
  | succ depth ih =>
    have hcode : (S.calls thread (depth + 1) frames callee).Shows (World.Edited S.edits)
        (S.interpreter.comesTo thread (World.Edited S.edits) depth)
        (S.interpreter.run thread (S.interpreter.code callee)) :=
      Behaviour.Shows.within (Code.shows_plays (shows_answers ih _) _)
    exact hcode w o w'

omit hcall in
/-- What may come of a request is what its program may come to, with moments that show it. -/
theorem exists_answers_iff {depth : Nat} {frames : List (Frame L)} {request : Request L}
    {w w' : World L} {o : Outcome request.Reply} :
    (∃ t, S.answers thread (S.calls thread depth) frames request w o w' t) ↔
      S.Replies thread depth request w o w' := by
  unfold Replies
  rw [shows_answers (exists_calls_iff depth) frames request w o w']
  constructor
  · rintro ⟨t, h⟩
    cases t with
    | nil => exact h
    | cons shown _ => cases shown
  · exact fun h => ⟨[], h⟩

end Setting

end Bare

end ScriptWorker
