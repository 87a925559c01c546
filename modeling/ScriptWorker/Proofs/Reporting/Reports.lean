import ScriptWorker.Proofs.Evaluation
import ScriptWorker.Proofs.Passages.Logs

/-!
# What runs report

A syntax error is reported when a body reports it to a worker, and when a source text does not
compile: all errors of such a text are reported to the worker that needs the script. Here the runs of
code carry the list of these reports, in the order in which they are made. The reports are what
compilers answer and bodies ask for, whatever the library does with them, and nothing reads them:
without them the runs are those of the library.
-/

namespace ScriptWorker

open Relation

/-- A syntax error with the worker to which it is reported. -/
structure Report where
  worker : WorkerId
  error : SyntaxError
  deriving DecidableEq

def Report.on (k : WorkerId) (reports : List Report) : List SyntaxError :=
  (reports.filter fun report => report.worker = k).map Report.error

def Report.all (j : WorkerId) (errors : List SyntaxError) : List Report := errors.map (⟨j, ·⟩)

namespace Report

variable {k : WorkerId}

@[simp] theorem on_nil : on k [] = [] := rfl

@[simp] theorem on_append (s t : List Report) : on k (s ++ t) = on k s ++ on k t := by
  simp [on]

end Report

variable {L : Language} {α : Type}

namespace Request

def calls? : Request L → Option WorkerId
  | .loadModule k _ _ => some k
  | .invoke k _ _ _ => some k
  | .evaluate k _ _ => some k
  | _ => none

def reports : Request L → List Report
  | .report k error => [⟨k, error⟩]
  | _ => []

end Request

/-- What is reported when code comes back that was called for a worker. -/
def Callee.reports (j : Option WorkerId) : (callee : Callee L) → Outcome callee.Result → List Report
  | .compile .., .done (.error errors) => (j.map fun j => Report.all j errors).getD []
  | _, _ => []

/-- What may come of something, with what it reports: the world before, the outcome, the world after
and the reports between. -/
abbrev Reporting (L : Language) (α : Type) :=
  World L → Outcome α → World L → List Report → Prop

def Reporting.thenOutcome {β : Type} (b : Reporting L β) (f : Outcome β → Reporting L α) :
    Reporting L α :=
  fun w o w' t => ∃ o₁ v t₁ t₂, b w o₁ v t₁ ∧ f o₁ v o w' t₂ ∧ t = t₁ ++ t₂

namespace Interpreter

variable (interpreter : Interpreter L) (thread : ThreadId) (others : World L → World L → Prop)

/-- The runs of code with their reports, given those of the code that is called for a worker. -/
def RunsTelling (call : Option WorkerId → (callee : Callee L) → Reporting L callee.Result) :
    Code L α → Reporting L α
  | .ended outcome => fun w o w' t => ReflTransGen others w w' ∧ o = outcome ∧ t = []
  | .ask request next => fun w o w' t => ∃ t',
      Reporting.thenOutcome ((interpreter.answer thread request).Runs others (call request.calls?))
        (fun outcome => RunsTelling call (next outcome)) w o w' t' ∧ t = request.reports ++ t'

/-- What comes of calling code from outside for a worker, with the reports, and with at most so many
calls inside each other. -/
def tells : (depth : Nat) → Option WorkerId → (callee : Callee L) → Reporting L callee.Result
  | 0, _, _ => fun _ _ _ _ => False
  | depth + 1, j, callee => fun w o w' t => ∃ t',
      interpreter.RunsTelling thread others (tells depth) (interpreter.code callee) w o w' t' ∧
      t = t' ++ callee.reports j o

end Interpreter

/-! ## Without the reports -/

section Erasure

variable {thread : ThreadId} {others : World L → World L → Prop}

namespace Interpreter

variable {interpreter : Interpreter L}

theorem exists_runsTelling_iff
    {call : Option WorkerId → (callee : Callee L) → Reporting L callee.Result}
    {bare : (callee : Callee L) → World L → Outcome callee.Result → World L → List Empty → Prop}
    (hcall : ∀ j callee w o w', (∃ t, call j callee w o w' t) ↔ ∃ t, bare callee w o w' t)
    (code : Code L α) {w w' : World L} {o : Outcome α} :
    (∃ t, interpreter.RunsTelling thread others call code w o w' t) ↔
      ∃ t, (interpreter.run thread code).Runs others bare w o w' t := by
  induction code generalizing w with
  | ended outcome =>
    exact ⟨fun ⟨_, hmoves, h, _⟩ => ⟨[], hmoves, h, rfl⟩,
      fun ⟨_, hmoves, h, _⟩ => ⟨[], hmoves, h, rfl⟩⟩
  | ask request next ih =>
    have hanswer : ∀ {o₁ v}, (∃ t, (interpreter.answer thread request).Runs others
          (call request.calls?) w o₁ v t) ↔
        ∃ t, (interpreter.answer thread request).Runs others bare w o₁ v t :=
      Program.exists_runs_iff (hcall _)
    constructor
    · rintro ⟨t, t', ⟨o₁, v, t₁, t₂, hfirst, hrest, -⟩, -⟩
      obtain ⟨s₁, hfirst⟩ := hanswer.1 ⟨t₁, hfirst⟩
      obtain ⟨s₂, hrest⟩ := (ih o₁).1 ⟨t₂, hrest⟩
      exact ⟨s₁ ++ s₂, Program.runs_thenOutcome.2 ⟨o₁, v, s₁, s₂, hfirst, hrest, rfl⟩⟩
    · rintro ⟨t, h⟩
      obtain ⟨o₁, v, s₁, s₂, hfirst, hrest, -⟩ := Program.runs_thenOutcome.1 h
      obtain ⟨t₁, hfirst⟩ := hanswer.2 ⟨s₁, hfirst⟩
      obtain ⟨t₂, hrest⟩ := (ih o₁).2 ⟨s₂, hrest⟩
      exact ⟨_, _, ⟨o₁, v, t₁, t₂, hfirst, hrest, rfl⟩, rfl⟩

/-- Whatever comes of a call comes of it with its reports, and the other way round. -/
theorem exists_tells_iff (depth : Nat) (j : Option WorkerId) (callee : Callee L) (w : World L)
    (o : Outcome callee.Result) (w' : World L) :
    (∃ t, interpreter.tells thread others depth j callee w o w' t) ↔
      ∃ t, interpreter.comesTo thread others depth callee w o w' t := by
  induction depth generalizing j callee w o w' with
  | zero => exact ⟨fun ⟨_, h⟩ => h.elim, fun ⟨_, h⟩ => h.elim⟩
  | succ depth ih =>
    have hcode : (∃ t, interpreter.RunsTelling thread others (tells interpreter thread others depth)
          (interpreter.code callee) w o w' t) ↔
        ∃ t, interpreter.comesTo thread others (depth + 1) callee w o w' t :=
      exists_runsTelling_iff ih _
    constructor
    · rintro ⟨t, t', h, -⟩
      exact hcode.1 ⟨t', h⟩
    · intro h
      obtain ⟨t', h⟩ := hcode.2 h
      exact ⟨_, t', h, rfl⟩

/-- With its reports a request is answered as it is without. -/
theorem exists_runs_answer_iff (depth : Nat) (request : Request L) {w w' : World L}
    {o : Outcome request.Reply} :
    (∃ t, (interpreter.answer thread request).Runs others
        (interpreter.tells thread others depth request.calls?) w o w' t) ↔
      ∃ t, (interpreter.answer thread request).Runs others
        (interpreter.comesTo thread others depth) w o w' t :=
  Program.exists_runs_iff (exists_tells_iff depth _)

end Interpreter

end Erasure

/-! ## Runs that are evaluated -/

abbrev Telling (L : Language) (α : Type) :=
  World L → Option (Outcome α × World L × List Report)

namespace Interpreter

variable (interpreter : Interpreter L) (thread : ThreadId)

def playTelling (call : Option WorkerId → (callee : Callee L) → Telling L callee.Result) :
    Code L α → Telling L α
  | .ended outcome => fun w => some (outcome, w, [])
  | .ask request next => fun w =>
    match (interpreter.answer thread request).evaluate (call request.calls?) w with
    | none => none
    | some (o₁, v, t) =>
      (playTelling call (next o₁) v).map fun (o, w', t') => (o, w', request.reports ++ (t ++ t'))

def playTells : (depth : Nat) → Option WorkerId → (callee : Callee L) → Telling L callee.Result
  | 0, _, _ => fun _ => none
  | depth + 1, j, callee => fun w =>
    (interpreter.playTelling thread (playTells depth) (interpreter.code callee) w).map
      fun (o, w', t) => (o, w', t ++ callee.reports j o)

variable {interpreter thread} {others : World L → World L → Prop}

theorem runsTelling_of_play
    {call : Option WorkerId → (callee : Callee L) → Reporting L callee.Result}
    {play : Option WorkerId → (callee : Callee L) → Telling L callee.Result}
    (hcall : ∀ j callee w o w' t, play j callee w = some (o, w', t) → call j callee w o w' t)
    (code : Code L α) {w w' : World L} {o : Outcome α} {t : List Report}
    (h : interpreter.playTelling thread play code w = some (o, w', t)) :
    interpreter.RunsTelling thread others call code w o w' t := by
  induction code generalizing w t with
  | ended outcome =>
    cases h
    exact ⟨.refl, rfl, rfl⟩
  | ask request next ih =>
    unfold playTelling at h
    split at h
    · cases h
    · next o₁ v t₁ hfirst =>
      obtain ⟨⟨o', v', t₂⟩, hrest, hpair⟩ := Option.map_eq_some_iff.1 h
      cases hpair
      exact ⟨_, ⟨o₁, v, t₁, t₂, Program.runs_of_evaluate (hcall _) hfirst, ih o₁ hrest, rfl⟩, rfl⟩

theorem tells_of_play (depth : Nat) (j : Option WorkerId) (callee : Callee L) (w : World L)
    (o : Outcome callee.Result) (w' : World L) (t : List Report)
    (h : interpreter.playTells thread depth j callee w = some (o, w', t)) :
    interpreter.tells thread others depth j callee w o w' t := by
  induction depth generalizing j callee w o w' t with
  | zero => cases h
  | succ depth ih =>
    obtain ⟨⟨o', v, t'⟩, hcode, hpair⟩ := Option.map_eq_some_iff.1 h
    cases hpair
    exact ⟨t', runsTelling_of_play ih _ hcode, rfl⟩

end Interpreter

end ScriptWorker
