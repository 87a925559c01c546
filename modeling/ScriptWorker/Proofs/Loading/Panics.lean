import ScriptWorker.Proofs.Loading.Requests

/-!
# Panics go all the way

The library may clean up after a panic of the code that it calls, but it stops none. Running code may
stop one; if it does not, then no call inside a call that comes to a result has panicked, however deep
it is. Each call that comes back has begun before, and all that shows between is inside it.
-/

namespace ScriptWorker

variable {L : Language} {α β : Type}

namespace Program

variable {ω κ ε : Type} {ρ : κ → Type}

def Raises : Program ω κ ρ α → Prop
  | ended (.done _) => False
  | ended (.panic _) => True
  | step _ next => ∀ w, (next w).Raises
  | .call _ next => ∀ o, (next o).Raises

/-- A program that ends in a panic if code from outside does. -/
def Passes : Program ω κ ρ α → Prop
  | ended _ => True
  | step _ next => ∀ w, (next w).Passes
  | .call _ next => (∀ a, (next (.done a)).Passes) ∧ ∀ payload, (next (.panic payload)).Raises

theorem Raises.thenOutcome {p : Program ω κ ρ β} {f : Outcome β → Program ω κ ρ α} (hp : p.Raises)
    (hf : ∀ payload, (f (.panic payload)).Raises) : (p.thenOutcome f).Raises := by
  induction p with
  | ended outcome =>
    cases outcome with
    | done b => exact hp.elim
    | panic payload => exact hf payload
  | step move next ih => exact fun w => ih w (hp w)
  | call callee next ih => exact fun o => ih o (hp o)

theorem Raises.bind {p : Program ω κ ρ β} (hp : p.Raises) (f : β → Program ω κ ρ α) :
    (p >>= f).Raises := hp.thenOutcome fun _ => trivial

theorem Passes.thenOutcome {p : Program ω κ ρ β} {f : Outcome β → Program ω κ ρ α} (hp : p.Passes)
    (hf : ∀ o, (f o).Passes) (hpanic : ∀ payload, (f (.panic payload)).Raises) :
    (p.thenOutcome f).Passes := by
  induction p with
  | ended outcome => exact hf outcome
  | step move next ih => exact fun w => ih w (hp w)
  | call callee next ih =>
    exact ⟨fun a => ih (.done a) (hp.1 a), fun payload => (hp.2 payload).thenOutcome hpanic⟩

theorem Passes.bind {p : Program ω κ ρ β} {f : β → Program ω κ ρ α} (hp : p.Passes)
    (hf : ∀ b, (f b).Passes) : (p >>= f).Passes := by
  refine hp.thenOutcome (fun o => ?_) fun _ => trivial
  cases o with
  | done b => exact hf b
  | panic payload => trivial

theorem Passes.thenAlways {p : Program ω κ ρ α} (hp : p.Passes) (f : ω → ω) :
    (p.thenAlways (modify f)).Passes := by
  refine hp.thenOutcome (fun o => ?_) fun payload => ?_
  · exact fun w => trivial
  · exact fun w => trivial

/-- What comes after a caught program decides whether a panic goes on. -/
theorem Passes.caught_bind {p : Program ω κ ρ β} {f : Outcome β → Program ω κ ρ α} (hp : p.Passes)
    (hf : ∀ o, (f o).Passes) (hpanic : ∀ payload, (f (.panic payload)).Raises) :
    (p.caught >>= f).Passes := by
  change ((p.thenOutcome _).thenOutcome _).Passes
  rw [thenOutcome_assoc]
  exact hp.thenOutcome hf hpanic

theorem passes_read (f : ω → α) : (read f : Program ω κ ρ α).Passes := fun _ => trivial

theorem passes_modify (f : ω → ω) : (modify f : Program ω κ ρ Unit).Passes := fun _ => trivial

theorem passes_transact (f : ω → α × ω) : (transact f : Program ω κ ρ α).Passes := fun _ => trivial

theorem passes_await (f : ω → Option (α × ω)) : (await f : Program ω κ ρ α).Passes := by
  intro w
  dsimp only
  split <;> trivial

theorem passes_invokeOutside (callee : κ) : (invokeOutside callee : Program ω κ ρ _).Passes :=
  ⟨fun _ => trivial, fun _ => trivial⟩

theorem Moves.passes {R : ω → ω → Prop} {p : Program ω κ ρ α} (h : p.Moves R) : p.Passes := by
  induction p with
  | ended outcome => trivial
  | step move next ih => exact fun w => ih w (h w).2
  | call callee next ih => exact h.elim

theorem Raises.runs {others : ω → ω → Prop}
    {call : (callee : κ) → ω → Outcome (ρ callee) → ω → List ε → Prop} {p : Program ω κ ρ α}
    (hp : p.Raises) {w w' : ω} {o : Outcome α} {t : List ε} (h : p.Runs others call w o w' t) :
    ∃ payload, o = .panic payload := by
  induction p generalizing w t with
  | ended outcome =>
    obtain ⟨-, rfl, -⟩ := h
    cases o with
    | done a => exact hp.elim
    | panic payload => exact ⟨payload, rfl⟩
  | step move next ih =>
    obtain ⟨v, v', -, -, hrest⟩ := h
    exact ih v (hp v) hrest
  | call callee next ih =>
    obtain ⟨v, o₁, v', t₁, t₂, -, -, hrest, -⟩ := h
    exact ih o₁ (hp o₁) hrest

end Program

namespace Code

def Raises : Code L α → Prop
  | ended (.done _) => False
  | ended (.panic _) => True
  | ask _ next => ∀ o, (next o).Raises

def Passes : Code L α → Prop
  | ended _ => True
  | ask _ next => (∀ a, (next (.done a)).Passes) ∧ ∀ payload, (next (.panic payload)).Raises

theorem Passes.bind {code : Code L β} {f : β → Code L α} (h : code.Passes)
    (hf : ∀ b, (f b).Passes) : (code >>= f).Passes := by
  have hraises : ∀ code : Code L β, code.Raises → (code.bind f).Raises := by
    intro code h
    induction code with
    | ended outcome =>
      cases outcome with
      | done b => exact h.elim
      | panic payload => trivial
    | ask request next ih => exact fun o => ih o (h o)
  change (code.bind f).Passes
  induction code with
  | ended outcome =>
    cases outcome with
    | done b => exact hf b
    | panic payload => trivial
  | ask request next ih =>
    exact ⟨fun a => ih (.done a) (h.1 a), fun payload => hraises _ (h.2 payload)⟩

theorem passes_request (request : Request L) : (Code.request request).Passes :=
  ⟨fun _ => trivial, fun _ => trivial⟩

end Code

/-- Code of the host and its scripts lets every panic go on. -/
def Interpreter.PassesPanics (interpreter : Interpreter L) : Prop :=
  ∀ callee, (interpreter.code callee).Passes

/-! ## Calls come back where they began -/

def Moment.Panics (m : Moment L) : Prop :=
  ∃ f payload, m.event = .left f (.panic payload)

section Calls

variable {passing : Prop}

/-- Each call that comes back has begun before and what shows between is inside it. If panics go on,
then one inside it has become its own. -/
def Bracketed (passing : Prop) (t : List (Moment L)) : Prop :=
  ∀ earlier frames f o v later, t = earlier ++ ⟨frames, .left f o, v⟩ :: later →
    ∃ before x inner, earlier = before ++ ⟨frames, .entered f, x⟩ :: inner ∧
      (∀ m ∈ inner, f :: frames <:+ m.frames) ∧
      (passing → (∃ a, o = .done a) → ∀ m ∈ inner, ¬ m.Panics)

theorem bracketed_nil : Bracketed passing ([] : List (Moment L)) := by
  intro earlier frames f o v later h
  simp at h

theorem Bracketed.append {t t' : List (Moment L)} (h : Bracketed passing t)
    (h' : Bracketed passing t') : Bracketed passing (t ++ t') := by
  intro earlier frames f o v later heq
  rcases List.append_eq_append_iff.1 heq with ⟨early, rfl, ht'⟩ | ⟨late, ht, hlate⟩
  · obtain ⟨before, x, inner, rfl, hinner⟩ := h' early frames f o v later ht'
    exact ⟨t ++ before, x, inner, by simp, hinner⟩
  · cases late with
    | nil =>
      obtain ⟨before, x, inner, hbefore, -⟩ := h' [] frames f o v later hlate.symm
      simp at hbefore
    | cons m late =>
      obtain ⟨rfl, rfl⟩ := List.cons.inj hlate
      exact h earlier frames f o v late ht

theorem Bracketed.within {t : List (Moment L)} {frames : List (Frame L)} {f : Frame L}
    {o : Outcome f.Result} {w w' : World L} (h : Bracketed passing t)
    (hinside : ∀ m ∈ t, f :: frames <:+ m.frames)
    (hcalm : passing → (∃ a, o = .done a) → ∀ m ∈ t, ¬ m.Panics) :
    Bracketed passing (⟨frames, .entered f, w⟩ :: t ++ [⟨frames, .left f o, w'⟩]) := by
  intro earlier frames' f' o' v later heq
  rcases List.eq_nil_or_concat later with rfl | ⟨later, last, rfl⟩
  · obtain ⟨rfl, hlast⟩ := List.append_inj' heq rfl
    cases hlast
    exact ⟨[], w, t, rfl, hinside, hcalm⟩
  · have hboth : ⟨frames, .entered f, w⟩ :: t = earlier ++ ⟨frames', .left f' o', v⟩ :: later ∧
        [⟨frames, .left f o, w'⟩] = [last] := List.append_inj' (by simpa using heq) rfl
    cases earlier with
    | nil => cases hboth.1
    | cons m earlier =>
      obtain ⟨rfl, rfl⟩ := List.cons.inj hboth.1
      obtain ⟨before, x, inner, rfl, hinner⟩ := h earlier frames' f' o' v later rfl
      exact ⟨_ :: before, x, inner, rfl, hinner⟩

namespace Behaviour

variable {frames : List (Frame L)}

/-- What shows is bracketed, and a panic that shows is the outcome if panics go on. -/
structure Calm (passing : Prop) (b : Behaviour L α) : Prop where
  bracketed : ∀ w o w' t, b w o w' t → Bracketed passing t
  passes : passing → ∀ w o w' t, b w o w' t → (∃ m ∈ t, m.Panics) → ∃ payload, o = .panic payload

theorem Calm.thenOutcome {b : Behaviour L β} {f : Outcome β → Behaviour L α} (hb : b.Calm passing)
    (hf : ∀ o, (f o).Calm passing)
    (hpanic : passing → ∀ payload w o w' t, f (.panic payload) w o w' t →
      ∃ payload', o = .panic payload') :
    (b.thenOutcome f).Calm passing where
  bracketed := by
    rintro w o w' t ⟨o₁, v, t₁, t₂, hfirst, hrest, rfl⟩
    exact (hb.bracketed _ _ _ _ hfirst).append ((hf o₁).bracketed _ _ _ _ hrest)
  passes := by
    rintro hpassing w o w' t ⟨o₁, v, t₁, t₂, hfirst, hrest, rfl⟩ ⟨m, hm, hpanics⟩
    rcases List.mem_append.1 hm with hm | hm
    · obtain ⟨payload, rfl⟩ := hb.passes hpassing _ _ _ _ hfirst ⟨m, hm, hpanics⟩
      exact hpanic hpassing payload _ _ _ _ hrest
    · exact (hf o₁).passes hpassing _ _ _ _ hrest ⟨m, hm, hpanics⟩

theorem Calm.bind {b : Behaviour L β} {f : β → Behaviour L α} (hb : b.Calm passing)
    (hf : ∀ a, (f a).Calm passing) : (b.bind f).Calm passing := by
  refine hb.thenOutcome (fun o => ?_) ?_
  · cases o with
    | done a => exact hf a
    | panic payload =>
      refine ⟨?_, ?_⟩
      · rintro w o w' t ⟨-, -, rfl⟩
        exact bracketed_nil
      · rintro - w o w' t ⟨-, rfl, -⟩ -
        exact ⟨payload, rfl⟩
  · rintro - payload w o w' t ⟨-, rfl, -⟩
    exact ⟨payload, rfl⟩

theorem Calm.within {f : Frame L} {inside : List (Frame L) → Behaviour L f.Result}
    (h : (inside (f :: frames)).Calm passing)
    (hinside : (inside (f :: frames)).Inside (f :: frames)) :
    (within frames f inside).Calm passing where
  bracketed := by
    rintro w o w' t ⟨t', hrun, rfl⟩
    refine (h.bracketed _ _ _ _ hrun).within (hinside _ _ _ _ hrun) ?_
    rintro hpassing ⟨a, rfl⟩ m hm hpanics
    obtain ⟨payload, heq⟩ := h.passes hpassing _ _ _ _ hrun ⟨m, hm, hpanics⟩
    cases heq
  passes := by
    rintro hpassing w o w' t ⟨t', hrun, rfl⟩ ⟨m, hm, hpanics⟩
    simp only [List.cons_append, List.mem_cons, List.mem_append, List.not_mem_nil, or_false] at hm
    obtain ⟨g, payload, hevent⟩ := hpanics
    rcases hm with rfl | hm | rfl
    · cases hevent
    · exact h.passes hpassing _ _ _ _ hrun ⟨m, hm, g, payload, hevent⟩
    · cases hevent
      exact ⟨payload, rfl⟩

end Behaviour

section Calm

variable {others : World L → World L → Prop}

theorem Program.Passes.calm {call : (callee : Callee L) → Behaviour L callee.Result}
    (hcall : ∀ callee, (call callee).Calm passing) {p : Run L α} (hp : p.Passes) :
    Behaviour.Calm passing (p.Runs others call) where
  bracketed := by
    clear hp
    induction p with
    | ended outcome =>
      rintro w o w' t ⟨-, -, rfl⟩
      exact bracketed_nil
    | step move next ih =>
      rintro w o w' t ⟨v, v', -, -, hrest⟩
      exact ih v v' o w' t hrest
    | call callee next ih =>
      rintro w o w' t ⟨v, o₁, v', t₁, t₂, -, hfirst, hrest, rfl⟩
      exact ((hcall callee).bracketed _ _ _ _ hfirst).append (ih o₁ v' o w' t₂ hrest)
  passes := by
    induction p with
    | ended outcome =>
      rintro - w o w' t ⟨-, -, rfl⟩ ⟨m, hm, -⟩
      cases hm
    | step move next ih =>
      rintro hpassing w o w' t ⟨v, v', -, -, hrest⟩ hpanics
      exact ih v (hp v) hpassing v' o w' t hrest hpanics
    | call callee next ih =>
      rintro hpassing w o w' t ⟨v, o₁, v', t₁, t₂, -, hfirst, hrest, rfl⟩ ⟨m, hm, hpanics⟩
      cases o₁ with
      | panic payload => exact (hp.2 payload).runs hrest
      | done a =>
        rcases List.mem_append.1 hm with hm | hm
        · obtain ⟨payload, heq⟩ := (hcall callee).passes hpassing _ _ _ _ hfirst ⟨m, hm, hpanics⟩
          cases heq
        · exact ih (.done a) (hp.1 a) hpassing v' o w' t₂ hrest ⟨m, hm, hpanics⟩

theorem Code.Raises.plays {answer : (request : Request L) → Behaviour L request.Reply}
    {code : Code L α} (hcode : code.Raises) {w w' : World L} {o : Outcome α} {t : List (Moment L)}
    (h : code.Plays others answer w o w' t) : ∃ payload, o = .panic payload := by
  induction code generalizing w t with
  | ended outcome =>
    obtain ⟨-, rfl, -⟩ := h
    cases o with
    | done a => exact hcode.elim
    | panic payload => exact ⟨payload, rfl⟩
  | ask request next ih =>
    obtain ⟨o₁, v, t₁, t₂, -, hrest, -⟩ := h
    exact ih o₁ (hcode o₁) hrest

theorem Code.calm_plays {answer : (request : Request L) → Behaviour L request.Reply}
    (hanswer : ∀ request, (answer request).Calm passing) {code : Code L α}
    (hcode : passing → code.Passes) : (code.Plays others answer).Calm passing where
  bracketed := by
    clear hcode
    induction code with
    | ended outcome =>
      rintro w o w' t ⟨-, -, rfl⟩
      exact bracketed_nil
    | ask request next ih =>
      rintro w o w' t ⟨o₁, v, t₁, t₂, hfirst, hrest, rfl⟩
      exact ((hanswer request).bracketed _ _ _ _ hfirst).append (ih o₁ v o w' t₂ hrest)
  passes := by
    intro hpassing
    have hpasses := hcode hpassing
    clear hcode
    induction code with
    | ended outcome =>
      rintro w o w' t ⟨-, -, rfl⟩ ⟨m, hm, -⟩
      cases hm
    | ask request next ih =>
      rintro w o w' t ⟨o₁, v, t₁, t₂, hfirst, hrest, rfl⟩ ⟨m, hm, hpanics⟩
      cases o₁ with
      | panic payload => exact (hpasses.2 payload).plays hrest
      | done a =>
        rcases List.mem_append.1 hm with hm | hm
        · obtain ⟨payload, heq⟩ := (hanswer request).passes hpassing _ _ _ _ hfirst ⟨m, hm, hpanics⟩
          cases heq
        · exact ih (.done a) (hpasses.1 a) v o w' t₂ hrest ⟨m, hm, hpanics⟩

end Calm

end Calls

/-! ## No program of the library stops a panic -/

section Programs

variable {k : WorkerId} {u : UnitId} {key : String} {resource : Resource}

theorem passes_reportAll (k : WorkerId) (errors : List SyntaxError) :
    (Script.reportAll k errors : Run L Unit).Passes := by
  induction errors with
  | nil => trivial
  | cons error rest ih => exact (Program.passes_modify _).bind fun _ => ih

theorem passes_compile (time : UInt64) (source : String) :
    (Script.compile k u resource time source : Run L _).Passes := by
  refine (Program.passes_invokeOutside _).bind fun answer => ?_
  cases answer with
  | ok code => exact (Program.passes_modify _).bind fun _ => trivial
  | error errors => exact (passes_reportAll k errors).bind fun _ => trivial

theorem passes_body : (Script.body k u resource : Run L _).Passes := by
  refine (Program.passes_read _).bind fun time => (Program.passes_read _).bind fun known => ?_
  cases known with
  | some c => trivial
  | none =>
    refine (Program.passes_transact _).bind fun found => ?_
    cases found with
    | false => exact (Program.passes_read _).bind fun _ => trivial
    | true =>
      refine (Program.passes_read _).bind fun text => ?_
      cases text with
      | error cause => trivial
      | ok source => exact passes_compile time source

theorem passes_build (code : L.Body) (time : UInt64) :
    (Script.build k u resource code time : Run L _).Passes := by
  refine (Program.passes_transact _).bind fun env => (Program.passes_modify _).bind fun _ =>
    (Program.passes_invokeOutside _).bind fun answer => ?_
  cases answer with
  | ok value => exact (Program.passes_modify _).bind fun _ => trivial
  | error cause => trivial

theorem passes_scriptLoad (existing : Option EnvironmentId) :
    (Script.load k u resource existing : Run L _).Passes := by
  refine (Program.passes_read _).bind fun fresh => ?_
  cases fresh with
  | some env => exact (Program.passes_modify _).bind fun _ => trivial
  | none =>
    refine passes_body.bind fun answer => ?_
    cases answer with
    | ok found => exact passes_build found.1 found.2
    | error cause => trivial

theorem passes_scriptEvaluate (env : EnvironmentId) :
    (Script.evaluate k u resource env : Run L _).Passes := by
  refine passes_body.bind fun answer => ?_
  cases answer with
  | error cause => trivial
  | ok found =>
    refine (Program.passes_invokeOutside _).bind fun answer => ?_
    cases answer with
    | error cause => trivial
    | ok value =>
      refine (Program.passes_read _).bind fun isModule => ?_
      cases isModule with
      | false => trivial
      | true => exact (Program.passes_modify _).bind fun _ => trivial

theorem passes_unitLoad (existing : Option EnvironmentId) :
    (ExecutableUnit.load k u existing : Run L _).Passes := by
  refine (Program.passes_read _).bind fun source => ?_
  match source with
  | some (.script resource _) => exact passes_scriptLoad existing
  | some (.custom spec _) => exact Program.passes_invokeOutside _
  | none => trivial

theorem passes_unitEvaluate (env : EnvironmentId) :
    (ExecutableUnit.evaluate k u env : Run L _).Passes := by
  refine (Program.passes_read _).bind fun source => ?_
  match source with
  | some (.script resource _) => exact passes_scriptEvaluate env
  | some (.custom spec _) => exact Program.passes_invokeOutside _
  | none => trivial

theorem passes_recordImport (parent : Option UnitId) :
    (Worker.recordImport parent u : Run L Unit).Passes := by
  cases parent with
  | none => trivial
  | some p =>
    refine (Program.passes_read _).bind fun source => ?_
    match source with
    | some (.script ..) => exact Program.passes_modify _
    | some (.custom spec _) => exact Program.passes_invokeOutside _
    | none => exact Program.passes_modify _

theorem passes_enter (thread : ThreadId) : (Worker.enter thread k : Run L _).Passes := by
  refine (Program.passes_await _).bind fun guard => ?_
  dsimp only
  split
  · refine (Program.passes_read _).bind fun reloading => ?_
    cases reloading with
    | false => exact (Program.passes_modify _).bind fun _ => trivial
    | true =>
      exact (Program.passes_modify _).bind fun _ => (Program.passes_modify _).bind fun _ => trivial
  · trivial

theorem passes_serialized (thread : ThreadId) {inside : Run L α} (h : inside.Passes) :
    (Worker.serialized thread k inside).Passes :=
  (passes_enter thread).bind fun _ => h.thenAlways _

theorem passes_withScript {inside : Run L α} (h : inside.Passes) (settle : α → World L → World L) :
    (Worker.withScript k u inside settle).Passes := by
  refine (Program.passes_transact _).bind fun frame => h.caught_bind (fun o => ?_) fun payload => ?_
  · cases o with
    | done result =>
      exact (Program.passes_modify _).bind fun _ => (Program.passes_transact _).bind fun _ => trivial
    | panic payload => exact (Program.passes_transact _).bind fun _ => trivial
  · exact fun w => trivial

theorem passes_checkOrLoad : (Worker.checkOrLoad k u key : Run L _).Passes := by
  refine (Program.passes_transact _).bind fun found => ?_
  cases found with
  | some env => exact (Program.passes_read _).bind fun _ => trivial
  | none =>
    exact (Program.passes_read _).bind fun existing => passes_withScript (passes_unitLoad existing) _

theorem passes_loadUnit (thread : ThreadId) : (Worker.loadUnit thread k u : Run L _).Passes :=
  (Program.passes_read _).bind fun _ => (passes_serialized thread passes_checkOrLoad).bind fun p =>
    (passes_recordImport p.2).bind fun _ => trivial

theorem passes_evaluateScript (thread : ThreadId) (env : EnvironmentId) :
    (Worker.evaluateScript thread k u env : Run L _).Passes :=
  (passes_serialized thread (passes_withScript (passes_unitEvaluate env) _)).bind fun p =>
    (passes_recordImport p.2).bind fun _ => trivial

theorem passes_firstCandidate (tried : List (Repository × String)) :
    (firstCandidate tried : Run L _).Passes := by
  induction tried with
  | nil => trivial
  | cons attempt rest ih =>
    refine (Program.passes_transact _).bind fun found => ?_
    cases found with
    | some resource => trivial
    | none => exact ih

theorem passes_locate (caller : Option EnvironmentId) (name : String) :
    (Worker.locate k caller name : Run L _).Passes := by
  refine (Program.passes_read _).bind fun r => (Program.passes_read _).bind fun near =>
    (Program.passes_read _).bind fun kind => ?_
  match kind with
  | none => trivial
  | some (.custom spec) => exact Program.passes_invokeOutside _
  | some (.repositories modulePath extension _) =>
    refine (passes_firstCandidate _).bind fun found => ?_
    cases found with
    | none => trivial
    | some resource => exact (Program.passes_transact _).bind fun _ => trivial

theorem passes_callNamed (thread : ThreadId) (env : EnvironmentId) (function : FunctionRef)
    (args : List Value) : (Worker.callNamed thread k env function args : Run L _).Passes := by
  have hfind : (Worker.findFunction env function : Run L _).Passes := by
    cases function with
    | callable f name => trivial
    | name name => exact Program.passes_read _
  refine hfind.bind fun answer => ?_
  cases answer with
  | error cause => trivial
  | ok f =>
    have hcall : (Worker.callFunction thread k env f args : Run L _).Passes := by
      refine (Program.passes_read _).bind fun found => ?_
      cases found with
      | none => trivial
      | some closure =>
        exact (Program.passes_transact _).bind fun _ => (Program.passes_invokeOutside _).thenAlways _
    exact hcall.bind fun _ => trivial

end Programs

namespace Setting

variable {S : Setting L} {thread : ThreadId} {passing : Prop}
  {call : List (Frame L) → (callee : Callee L) → Behaviour L callee.Result}
  (hcall : ∀ frames callee, (call frames callee).Calm passing)
  (hinside : ∀ frames callee, (call frames callee).Inside frames)
include hcall hinside

theorem calm_loads (frames : List (Frame L)) (k : WorkerId) (caller : Option EnvironmentId)
    (name : String) : (S.loads thread call frames k caller name).Calm passing := by
  refine ((passes_locate caller name).calm (hcall frames)).bind fun answer => ?_
  cases answer with
  | error cause => exact Program.Passes.calm (hcall frames) trivial
  | ok u =>
    have hload : ∀ key, (Behaviour.within frames (.load k u key) fun frames =>
        S.runs call frames (Worker.loadUnit thread k u)).Calm passing := fun key =>
      Behaviour.Calm.within ((passes_loadUnit thread).calm (hcall _)) (inside_runs (hinside _) _)
    exact ⟨fun w => (hload (w.unitKey u)).bracketed w,
      fun hpassing w => (hload (w.unitKey u)).passes hpassing w⟩

theorem calm_invokes (frames : List (Frame L)) (k : WorkerId) (module : ModuleRef)
    (function : FunctionRef) (args : List Value) :
    (S.invokes thread call frames k module function args).Calm passing := by
  have hsettle : ∀ (o : Outcome (Answer Value)),
      ((S.runs call (.invoke k :: frames) (Program.modify fun w => w.leave k)).bind fun _ =>
        S.runs call (.invoke k :: frames) (.ended o)).Calm passing := fun o =>
    ((Program.passes_modify _).calm (hcall _)).bind fun _ => Program.Passes.calm (hcall _) trivial
  refine Behaviour.Calm.within ((passes_enter thread).calm (hcall _) |>.bind fun _ =>
    Behaviour.Calm.thenOutcome ?_ hsettle ?_) ?_
  · refine Behaviour.Calm.bind ?_ fun answer => ?_
    · cases module with
      | environment env => exact Program.Passes.calm (hcall _) trivial
      | name name => exact calm_loads hcall hinside _ k none name
    · cases answer with
      | error cause => exact Program.Passes.calm (hcall _) trivial
      | ok env => exact (passes_callNamed thread env function args).calm (hcall _)
  · rintro - payload w o w' t ⟨o₁, v, t₁, t₂, -, hrest, -⟩
    cases o₁ with
    | done a =>
      obtain ⟨-, rfl, -⟩ := hrest
      exact ⟨payload, rfl⟩
    | panic payload' =>
      obtain ⟨-, rfl, -⟩ := hrest
      exact ⟨payload', rfl⟩
  · refine (inside_runs (hinside _) _).bind fun _ => Behaviour.Inside.thenOutcome
      ((inside_finds hinside _ k module).bind fun answer => ?_) fun outcome =>
        (inside_runs (hinside _) _).bind fun _ => inside_runs (hinside _) _
    cases answer <;> exact inside_runs (hinside _) _

theorem calm_answers (frames : List (Frame L)) (request : Request L) :
    (S.answers thread call frames request).Calm passing := by
  have hplain : ∀ request : Request L, request.LeavesWorkers →
      (S.runs call frames (S.interpreter.answer thread request)).Calm passing := fun _ h =>
    (moves_answer_beside h).passes.calm (hcall frames)
  cases request with
  | loadModule k caller name => exact calm_loads hcall hinside frames k caller name
  | invoke k module function args => exact calm_invokes hcall hinside frames k module function args
  | evaluate k u env => exact (passes_evaluateScript thread env).calm (hcall frames)
  | resolve k caller name => exact (passes_locate caller name).calm (hcall frames)
  | markChecked k key env => exact (Program.passes_modify _).calm (hcall frames)
  | _ => exact hplain _ trivial

omit hcall hinside in
/-- Whatever code from outside does, calls come back where they began, and panics go all the way unless
that code stops them. -/
theorem calm_calls (depth : Nat) (frames : List (Frame L)) (callee : Callee L) :
    (S.calls thread depth frames callee).Calm S.interpreter.PassesPanics := by
  induction depth generalizing frames callee with
  | zero => exact ⟨fun _ _ _ _ h => h.elim, fun _ _ _ _ _ h => h.elim⟩
  | succ depth ih =>
    exact Behaviour.Calm.within
      (Code.calm_plays (calm_answers ih (inside_calls depth) _) fun hpassing => hpassing callee)
      (Code.inside_plays (inside_answers (inside_calls depth) _) _)

end Setting

end ScriptWorker
