import ScriptWorker.Proofs.Loading.Importing
import ScriptWorker.Proofs.Reporting.Entries

/-!
# Errors of the last call

A worker that is used from one thread is called again and again. A call that enters the worker leaves
with exactly those errors that were reported to the worker since it entered, in the order of the
reports and however deep inside they were made. Calls of functions and evaluations enter at once, but
a load only enters when its name has been resolved: what a resolver reports before is forgotten, and a
load whose name stands for nothing leaves the errors of the call before.
-/

namespace ScriptWorker

open Relation World

variable {L : Language} {α : Type}

/-! ## What code does to a ledger -/

section Code

variable {interpreter : Interpreter L} {thread : ThreadId} {others : World L → World L → Prop}
  {k : WorkerId} {I J : Serializer UnitId → Prop}

theorem moves_answer_aside {request : Request L} (hcalls : request.calls? = none)
    (hreports : request.reports = []) (hresolve : ∀ j caller name, request ≠ .resolve j caller name) :
    (interpreter.answer thread request).Moves (SameLedger k) := by
  have hscheduler : ∀ (w : World L) s, SameLedger k w (w.withScheduler s) :=
    fun w s => ledger?_of_workers rfl
  cases request with
  | setProperty env name value => exact Program.moves_modify fun w => ledger?_of_workers rfl
  | newModule name key => exact Program.moves_transact fun w => ledger?_of_workers rfl
  | newFunction name closure => exact Program.moves_transact fun w => ledger?_of_workers rfl
  | newWrapper inner => exact Program.moves_transact fun w => ledger?_of_workers rfl
  | newHostObject payload => exact Program.moves_transact fun w => ledger?_of_workers rfl
  | stamp env sum => exact Program.moves_modify fun w => ledger?_of_workers rfl
  | recordDependency u dependency => exact Program.moves_modify fun w => ledger?_of_workers rfl
  | markChecked j key env => exact Program.moves_modify fun w => ledger?_modifyCache w j k _
  | currentScript j =>
    refine Program.moves_await fun w a w' hfound => ?_
    obtain ⟨script, -, hpair⟩ := Option.map_eq_some_iff.1 hfound
    cases hpair
    rfl
  | schedule j module function args timing =>
    exact moves_schedule (fun w jobs => ledger?_of_workers rfl) hscheduler j module function args
      timing
  | cancel j task =>
    exact Program.Moves.bind (Program.moves_read sameLedger_refl _) fun _ =>
      moves_perform hscheduler _
  | cancelOn l task =>
    exact Program.Moves.bind (Program.moves_read sameLedger_refl _) fun _ =>
      moves_perform hscheduler _
  | edit repository change =>
    exact moves_edit (fun w storage => ledger?_of_workers rfl) repository change
  | sleep length =>
    exact Program.Moves.bind (moves_waitAtMost (fun w alarms => ledger?_of_workers rfl) length _)
      fun _ => trivial
  | effect effect =>
    refine Program.moves_await fun w a w' hfound => ?_
    obtain ⟨⟨notice, state⟩, -, hpair⟩ := Option.map_eq_some_iff.1 hfound
    cases hpair
    exact ledger?_of_workers rfl
  | report j error => cases hreports
  | resolve j caller name => exact (hresolve j caller name rfl).elim
  | loadModule j caller name => cases hcalls
  | invoke j module function args => cases hcalls
  | evaluate j u env => cases hcalls
  | _ => exact Program.moves_read sameLedger_refl _

variable (hothers : ∀ w w', others w w' → SameLedger k w w')
include hothers

theorem carries_answer_aside {call : (callee : Callee L) → Reporting L callee.Result}
    (hresolve : ∀ spec name near, CallsCarry call none k I J (.resolve spec name near))
    {request : Request L} (hcalls : request.calls? = none) {w w' : World L}
    {o : Outcome request.Reply} {t : List Report}
    (h : (interpreter.answer thread request).Runs others call w o w' t) :
    w.Carries k I J (request.reports ++ t) w' := by
  by_cases hreports : request.reports = []
  · rw [hreports, List.nil_append]
    by_cases hnamed : ∃ j caller name, request = .resolve j caller name
    · obtain ⟨j, caller, name, rfl⟩ := hnamed
      exact carries_locate hothers hresolve j caller name w o w' t h
    · have hmoves : (interpreter.answer thread request).Moves (SameLedger k) :=
        moves_answer_aside hcalls hreports fun j caller name h => hnamed ⟨j, caller, name, h⟩
      exact hmoves.carries hothers w o w' t h
  · cases request with
    | report j error =>
      obtain ⟨v, v', hv, hreport, hmoves, -, rfl⟩ := h
      cases hreport
      have hbefore : w.Carries k I J [] v := carries_of_same (ledger?_others hothers hv)
      have hafter : (v.reportError j error).Carries k I J [] w' :=
        carries_of_same (ledger?_others hothers hmoves)
      exact (hbefore.trans (carries_reportError v j error)).trans hafter
    | _ => exact (hreports rfl).elim

/-- What holds of the answers to requests, one after another, holds of code. -/
theorem Interpreter.RunsTelling.along
    {call : Option WorkerId → (callee : Callee L) → Reporting L callee.Result}
    {R : World L → List Report → World L → Prop} {P : Request L → Prop}
    (hsame : ∀ w w', SameLedger k w w' → R w [] w')
    (htrans : ∀ w v w' s t, R w s v → R v t w' → R w (s ++ t) w')
    (hanswer : ∀ request, P request → ∀ w o w' t,
      (interpreter.answer thread request).Runs others (call request.calls?) w o w' t →
        R w (request.reports ++ t) w')
    {code : Code L α} (hcode : code.Only P) {w w' : World L} {o : Outcome α} {t : List Report}
    (h : interpreter.RunsTelling thread others call code w o w' t) : R w t w' := by
  induction code generalizing w t with
  | ended outcome =>
    obtain ⟨hmoves, -, rfl⟩ := h
    exact hsame _ _ (ledger?_others hothers hmoves)
  | ask request next ih =>
    obtain ⟨t', ⟨o₁, v, t₁, t₂, hfirst, hrest, rfl⟩, rfl⟩ := h
    have hbefore := hanswer request hcode.1 w o₁ v t₁ hfirst
    rw [← List.append_assoc]
    exact htrans _ _ _ _ _ hbefore (ih o₁ (hcode.2 o₁) hrest)

theorem carries_runsTelling {call : Option WorkerId → (callee : Callee L) → Reporting L callee.Result}
    {P : Request L → Prop}
    (hanswer : ∀ request, P request → ∀ w o w' t,
      (interpreter.answer thread request).Runs others (call request.calls?) w o w' t →
        w.Carries k I J (request.reports ++ t) w')
    {code : Code L α} (hcode : code.Only P) {w w' : World L} {o : Outcome α} {t : List Report}
    (h : interpreter.RunsTelling thread others call code w o w' t) : w.Carries k I J t w' :=
  h.along hothers (R := World.Carries k I J) (fun _ _ => carries_of_same)
    (fun _ _ _ _ _ => World.Carries.trans) hanswer hcode

omit hothers in
theorem Code.only_any (code : Code L α) : code.Only fun _ => True := by
  induction code with
  | ended outcome => trivial
  | ask request next ih => exact ⟨trivial, ih⟩

/-- All code from outside carries the ledger of a worker on, whatever worker it is called for. -/
theorem carries_tells (depth : Nat) (j : Option WorkerId) (callee : Callee L) :
    CallsCarry (interpreter.tells thread others depth j) j k (Serializer.Settled thread)
      (Serializer.Inside thread) callee := by
  induction depth generalizing j callee with
  | zero =>
    intro w o w' t h
    exact h.elim
  | succ depth ih =>
    rintro w o w' t ⟨t', h, rfl⟩
    refine ⟨t', rfl, carries_runsTelling hothers (fun request _ w o w' t h => ?_) (Code.only_any _) h⟩
    cases request with
    | loadModule j caller name => exact carries_loadModule hothers (ih (some j)) caller name w o w' t h
    | invoke j module function args =>
      exact carries_invoke hothers (ih (some j)) module function args w o w' t h
    | evaluate j u env => exact carries_evaluateScript hothers (ih (some j)) u env w o w' t h
    | _ => exact carries_answer_aside hothers (fun _ _ _ => ih none _) rfl h

/-- Resolvers of the host make no calls on workers. -/
def Interpreter.ResolvesAside (interpreter : Interpreter L) : Prop :=
  ∀ spec name near, (interpreter.code (.resolve spec name near)).Only fun request =>
    request.calls? = none

theorem carries_tells_resolve (hresolves : interpreter.ResolvesAside) (depth : Nat)
    (j : Option WorkerId) (spec : L.ResolverSpec) (name : String) (near : Option Repository) :
    CallsCarry (interpreter.tells thread others depth j) j k (fun _ => True) (fun _ => True)
      (.resolve spec name near) := by
  induction depth generalizing j spec name near with
  | zero =>
    intro w o w' t h
    exact h.elim
  | succ depth ih =>
    rintro w o w' t ⟨t', h, rfl⟩
    have hanswer : ∀ request : Request L, request.calls? = none → ∀ w o w' t,
        (interpreter.answer thread request).Runs others
          (interpreter.tells thread others depth request.calls?) w o w' t →
        w.Carries k (fun _ => True) (fun _ => True) (request.reports ++ t) w' := by
      intro request hcalls w o w' t h
      rw [hcalls] at h
      exact carries_answer_aside hothers (ih none) hcalls h
    exact ⟨t', rfl, carries_runsTelling hothers hanswer (hresolves spec name near) h⟩

/-- Resolvers of the host make no calls on workers, and report nothing. -/
def Interpreter.ResolvesSilently (interpreter : Interpreter L) : Prop :=
  ∀ spec name near, (interpreter.code (.resolve spec name near)).Only fun request =>
    request.calls? = none ∧ request.reports = []

theorem silent_tells_resolve (hresolves : interpreter.ResolvesSilently) (depth : Nat)
    (j : Option WorkerId) (spec : L.ResolverSpec) (name : String) (near : Option Repository)
    (w : World L) (o : Outcome (Answer UnitId)) (w' : World L) (t : List Report)
    (h : interpreter.tells thread others depth j (.resolve spec name near) w o w' t) : t = [] := by
  induction depth generalizing j spec name near w o w' t with
  | zero => exact h.elim
  | succ depth ih =>
    obtain ⟨t', h, rfl⟩ := h
    have hanswer : ∀ request : Request L, request.calls? = none ∧ request.reports = [] → ∀ w o w' t,
        (interpreter.answer thread request).Runs others
          (interpreter.tells thread others depth request.calls?) w o w' t →
        request.reports ++ t = [] := by
      rintro request ⟨hcalls, hreports⟩ w o w' t h
      rw [hcalls] at h
      rw [hreports, List.nil_append]
      by_cases hnamed : ∃ j caller name, request = .resolve j caller name
      · obtain ⟨j, caller, name, rfl⟩ := hnamed
        exact silent_locate hothers (ih none) h
      · have hmoves : (interpreter.answer thread request).Moves (SameLedger k) :=
          moves_answer_aside hcalls hreports fun j caller name h => hnamed ⟨j, caller, name, h⟩
        exact (hmoves.runs hothers h).2
    have hsilent : t' = [] := h.along hothers (R := fun _ t _ => t = []) (fun _ _ _ => rfl)
      (fun _ _ _ s t hs ht => by rw [hs, ht, List.append_nil]) hanswer (hresolves spec name near)
    rw [hsilent]
    rfl

end Code

/-! ## Calls from outside -/

/-- A call on a worker from outside, with what was reported while it lasted. -/
structure Visit (L : Language) where
  request : Request L
  before : World L
  /-- The reports until it is clear that the worker is entered, or that it is not. -/
  resolving : List Report
  during : Option (List Report)
  after : World L

def World.Vacant (w : World L) (k : WorkerId) : Prop :=
  ∃ errors, w.ledger? k = some ⟨Serializer.create, errors⟩

namespace Interpreter

variable (interpreter : Interpreter L) (thread : ThreadId) (others : World L → World L → Prop)
  (depth : Nat)

/-- A load enters when its name stands for a unit, any other call at once. -/
def Visits (visit : Visit L) : Prop :=
  match visit.request with
  | .loadModule k caller name =>
    ∃ found v, (Worker.locate k caller name).Runs others (interpreter.tells thread others depth (some k))
        visit.before found v visit.resolving ∧
      match found with
      | .done (.ok u) => ∃ o t, (Worker.loadUnit thread k u).Runs others
          (interpreter.tells thread others depth (some k)) v o visit.after t ∧ visit.during = some t
      | _ => ReflTransGen others v visit.after ∧ visit.during = none
  | request => visit.resolving = [] ∧ ∃ o t, (interpreter.answer thread request).Runs others
      (interpreter.tells thread others depth request.calls?) visit.before o visit.after t ∧
        visit.during = some t

/-- Calls on a worker, one after another on a thread. Whatever happens between two of them, it leaves
nobody inside the worker. -/
inductive Sequence (k : WorkerId) : World L → List (Visit L) → World L → Prop
  | nil {w w' : World L} (hbetween : w.Vacant k → w'.Vacant k) : Sequence k w [] w'
  | cons {w w' : World L} {visit : Visit L} {visits : List (Visit L)}
      (hbetween : w.Vacant k → visit.before.Vacant k) (hcalls : visit.request.calls? = some k)
      (hvisit : interpreter.Visits thread others depth visit)
      (hrest : Sequence k visit.after visits w') : Sequence k w (visit :: visits) w'

variable {interpreter thread others depth}

/-- Every run of a request is a visit, and every visit is one. -/
theorem exists_visits_iff {request : Request L} {w w' : World L} {t : List Report} :
    (∃ o, (interpreter.answer thread request).Runs others
        (interpreter.tells thread others depth request.calls?) w o w' t) ↔
      ∃ resolving during, interpreter.Visits thread others depth
        ⟨request, w, resolving, during, w'⟩ ∧ t = resolving ++ during.getD [] := by
  by_cases h : ∃ k caller name, request = .loadModule k caller name
  · obtain ⟨k, caller, name, rfl⟩ := h
    constructor
    · rintro ⟨o, h⟩
      obtain ⟨found, v, t₁, t₂, hlocate, hrest, rfl⟩ := Program.runs_thenOutcome.1 h
      match found with
      | .done (.ok u) => exact ⟨t₁, some t₂, ⟨_, v, hlocate, o, t₂, hrest, rfl⟩, rfl⟩
      | .done (.error cause) =>
        obtain ⟨hmoves, -, rfl⟩ := hrest
        exact ⟨t₁, none, ⟨_, v, hlocate, hmoves, rfl⟩, rfl⟩
      | .panic payload =>
        obtain ⟨hmoves, -, rfl⟩ := hrest
        exact ⟨t₁, none, ⟨_, v, hlocate, hmoves, rfl⟩, rfl⟩
    · rintro ⟨resolving, during, ⟨found, v, hlocate, hrest⟩, rfl⟩
      match found with
      | .done (.ok u) =>
        obtain ⟨o, t, hload, hduring⟩ := hrest
        cases hduring
        exact ⟨o, Program.runs_thenOutcome.2 ⟨_, v, _, t, hlocate, hload, rfl⟩⟩
      | .done (.error cause) =>
        obtain ⟨hmoves, hduring⟩ := hrest
        cases hduring
        exact ⟨_, Program.runs_thenOutcome.2 ⟨_, v, _, [], hlocate, ⟨hmoves, rfl, rfl⟩, rfl⟩⟩
      | .panic payload =>
        obtain ⟨hmoves, hduring⟩ := hrest
        cases hduring
        exact ⟨_, Program.runs_thenOutcome.2 ⟨_, v, _, [], hlocate, ⟨hmoves, rfl, rfl⟩, rfl⟩⟩
  · have hvisits : ∀ resolving during, interpreter.Visits thread others depth
          ⟨request, w, resolving, during, w'⟩ ↔
        resolving = [] ∧ ∃ o t, (interpreter.answer thread request).Runs others
          (interpreter.tells thread others depth request.calls?) w o w' t ∧ during = some t := by
      intro resolving during
      cases request <;> first | exact Iff.rfl | exact (h ⟨_, _, _, rfl⟩).elim
    constructor
    · rintro ⟨o, hrun⟩
      exact ⟨[], some t, (hvisits _ _).2 ⟨rfl, o, t, hrun, rfl⟩, rfl⟩
    · rintro ⟨resolving, during, hvisit, rfl⟩
      obtain ⟨rfl, o, t, hrun, rfl⟩ := (hvisits _ _).1 hvisit
      exact ⟨o, hrun⟩

end Interpreter

/-! ## Outermost calls -/

section Outermost

variable {others : World L → World L → Prop}
  {call : (callee : Callee L) → Reporting L callee.Result} {k : WorkerId} {thread : ThreadId}
  {w w' : World L} {errors : List SyntaxError} {t : List Report}
  (hothers : ∀ w w', others w w' → SameLedger k w w')
  (hcall : ∀ callee, CallsCarry call (some k) k (Serializer.Settled thread)
    (Serializer.Inside thread) callee)
include hothers

theorem ledger?_outermost {inside : Run L α} {o : Outcome α}
    (hinside : inside.Carries others call k (Serializer.Inside thread) (Serializer.Inside thread))
    (h : (Worker.serialized thread k inside).Runs others call w o w' t)
    (hw : w.ledger? k = some ⟨Serializer.create, errors⟩) :
    w'.ledger? k = some ⟨Serializer.create, Report.on k t⟩ :=
  ledger?_serialized hothers hinside h hw (.inr rfl)

theorem ledger?_outermost_import {u : UnitId} {inside : Run L (α × Option UnitId)} {o : Outcome α}
    (hinside : inside.Carries others call k (Serializer.Inside thread) (Serializer.Inside thread))
    (hparent : ∀ {v a parent v' t l}, inside.Runs others call v (.done (a, parent)) v' t →
      v.ledger? k = some l → parent = l.serializer.current)
    (h : (do
      let (answer, parent) ← Worker.serialized thread k inside
      Worker.recordImport parent u
      return answer : Run L α).Runs others call w o w' t)
    (hw : w.ledger? k = some ⟨Serializer.create, errors⟩) :
    w'.ledger? k = some ⟨Serializer.create, Report.on k t⟩ := by
  rcases Program.runs_bind.1 h with ⟨⟨answer, parent⟩, v, t₁, t₂, hfirst, hrest, rfl⟩ |
    ⟨payload, v, hfirst, hmoves, -⟩
  · obtain ⟨x, x', hrun, hx, -⟩ := runs_serialized hothers hfirst hw
    obtain rfl : parent = none := hparent hrun hx
    obtain ⟨hmoves, -, rfl⟩ := hrest
    rw [ledger?_others hothers hmoves, List.append_nil]
    exact ledger?_outermost hothers hinside hfirst hw
  · rw [ledger?_others hothers hmoves]
    exact ledger?_outermost hothers hinside hfirst hw

theorem parent_checkOrLoad {v v' : World L} {u : UnitId} {key : String}
    {answer : Answer EnvironmentId} {parent : Option UnitId} {l : Ledger}
    (h : (Worker.checkOrLoad k u key).Runs others call v (.done (answer, parent)) v' t)
    (hl : v.ledger? k = some l) : parent = l.serializer.current := by
  obtain ⟨x, hx, h⟩ := Program.runs_transact_bind.1 h
  have hxl : (x.lookupChecked k key).2.ledger? k = some l :=
    (sameLedger_lookupChecked x k key).trans ((ledger?_others hothers hx).trans hl)
  split at h
  · obtain ⟨y, hy, -, ho, -⟩ := Program.runs_read_bind.1 h
    cases ho
    rw [(worker_of_ledger? ((ledger?_others hothers hy).trans hxl)).1]
  · obtain ⟨y, hy, h⟩ := Program.runs_read_bind.1 h
    exact (runs_withScript hothers (fun answer w => sameLedger_keepLoad w k key answer) h
      ((ledger?_others hothers hy).trans hxl)).2 _ _ rfl

include hcall

theorem ledger?_loadUnit {u : UnitId} {o : Outcome (Answer EnvironmentId)}
    (h : (Worker.loadUnit thread k u).Runs others call w o w' t)
    (hw : w.ledger? k = some ⟨Serializer.create, errors⟩) :
    w'.ledger? k = some ⟨Serializer.create, Report.on k t⟩ := by
  obtain ⟨v, hv, h⟩ := Program.runs_read_bind.1 h
  exact ledger?_outermost_import hothers
    ((carries_checkOrLoad hothers hcall u _).mono fun _ => .inl)
    (parent_checkOrLoad hothers) h ((ledger?_others hothers hv).trans hw)

theorem ledger?_evaluateScript {u : UnitId} {env : EnvironmentId} {o : Outcome (Answer Value)}
    (h : (Worker.evaluateScript thread k u env).Runs others call w o w' t)
    (hw : w.ledger? k = some ⟨Serializer.create, errors⟩) :
    w'.ledger? k = some ⟨Serializer.create, Report.on k t⟩ := by
  refine ledger?_outermost_import hothers
    ((carries_evaluating hothers hcall u env).mono fun _ => .inl) (fun hrun hl => ?_) h hw
  exact (runs_withScript hothers (fun answer w => sameLedger_keepEvaluation w k u env answer)
    hrun hl).2 _ _ rfl

theorem ledger?_invoke {module : ModuleRef} {function : FunctionRef} {args : List Value}
    {o : Outcome (Answer Value)}
    (h : (Worker.invoke thread k module function args).Runs others call w o w' t)
    (hw : w.ledger? k = some ⟨Serializer.create, errors⟩) :
    w'.ledger? k = some ⟨Serializer.create, Report.on k t⟩ :=
  ledger?_outermost hothers
    ((carries_called hothers hcall module function args).mono fun _ => .inl) h hw

end Outermost

/-! ## Every call of a sequence -/

/-- What a call leaves in the list of errors. -/
structure Visit.Accounts (interpreter : Interpreter L) (k : WorkerId) (visit : Visit L) : Prop where
  vacant : visit.after.Vacant k
  /-- Only a load has to find out what it is to run before it enters. -/
  direct : (∀ caller name, visit.request ≠ .loadModule k caller name) →
    visit.resolving = [] ∧ visit.during.isSome
  silent : interpreter.ResolvesSilently → visit.resolving = []
  /-- A call that entered leaves what was reported since then, and nothing else. -/
  entered : ∀ t, visit.during = some t → (visit.after.worker k).errors = Report.on k t
  /-- A call that did not leaves the errors of the call before, with what was reported meanwhile. -/
  refused : interpreter.ResolvesAside → visit.during = none →
    (visit.after.worker k).errors =
      (visit.before.worker k).errors ++ Report.on k visit.resolving

section Sequence

variable {interpreter : Interpreter L} {thread : ThreadId} {others : World L → World L → Prop}
  {k : WorkerId} {depth : Nat} (hothers : ∀ w w', others w w' → SameLedger k w w')
include hothers

omit hothers in
theorem Visit.accounts_of_during {visit : Visit L} {t : List Report} (hduring : visit.during = some t)
    (hdirect : (∀ caller name, visit.request ≠ .loadModule k caller name) → visit.resolving = [])
    (hsilent : interpreter.ResolvesSilently → visit.resolving = [])
    (hafter : visit.after.ledger? k = some ⟨Serializer.create, Report.on k t⟩) :
    visit.Accounts interpreter k where
  vacant := ⟨_, hafter⟩
  direct h := ⟨hdirect h, by simp [hduring]⟩
  silent := hsilent
  entered t' ht' := by
    cases hduring.symm.trans ht'
    exact (worker_of_ledger? hafter).2
  refused _ hnone := by
    rw [hduring] at hnone
    cases hnone

theorem vacant_locate {w v : World L} {caller : Option EnvironmentId} {name : String}
    {found : Outcome (Answer UnitId)} {t : List Report} (hw : w.Vacant k)
    (h : (Worker.locate k caller name).Runs others (interpreter.tells thread others depth (some k))
      w found v t) : v.Vacant k := by
  obtain ⟨errors, hl⟩ := hw
  have hcarries := carries_locate hothers
    (fun _ _ _ => carries_tells hothers depth (some k) _) k caller name w found v t h
  obtain ⟨errors', hv, -⟩ := hcarries _ hl (.inr rfl)
  exact ⟨errors', hv⟩

theorem Visit.accounts_of_refused {visit : Visit L} {caller : Option EnvironmentId} {name : String}
    {found : Outcome (Answer UnitId)} {v : World L}
    (hrequest : visit.request = .loadModule k caller name) (hvacant : visit.before.Vacant k)
    (h : (Worker.locate k caller name).Runs others (interpreter.tells thread others depth (some k))
      visit.before found v visit.resolving)
    (hmoves : ReflTransGen others v visit.after) (hduring : visit.during = none) :
    visit.Accounts interpreter k where
  vacant := by
    obtain ⟨errors, hv⟩ := vacant_locate hothers hvacant h
    exact ⟨errors, (ledger?_others hothers hmoves).trans hv⟩
  direct hload := (hload caller name hrequest).elim
  silent hresolves := silent_locate hothers (silent_tells_resolve hothers hresolves depth _) h
  entered t ht := by
    rw [hduring] at ht
    cases ht
  refused hresolves _ := by
    obtain ⟨errors, hl⟩ := hvacant
    have hcarries := carries_locate hothers
      (fun spec name near => carries_tells_resolve hothers hresolves depth (some k) spec name near)
      k caller name visit.before found v visit.resolving h
    obtain ⟨errors', hv, herrors⟩ := hcarries _ hl trivial
    rw [(worker_of_ledger? ((ledger?_others hothers hmoves).trans hv)).2, (worker_of_ledger? hl).2]
    exact herrors trivial

theorem Visit.accounts {visit : Visit L} (hcalls : visit.request.calls? = some k)
    (hvacant : visit.before.Vacant k) (h : interpreter.Visits thread others depth visit) :
    visit.Accounts interpreter k := by
  have hcall : ∀ callee, CallsCarry (interpreter.tells thread others depth (some k)) (some k) k
      (Serializer.Settled thread) (Serializer.Inside thread) callee :=
    carries_tells hothers depth (some k)
  obtain ⟨request, before, resolving, during, after⟩ := visit
  cases request with
  | loadModule j caller name =>
    cases hcalls
    obtain ⟨found, v, hlocate, hrest⟩ := h
    match found with
    | .done (.ok u) =>
      obtain ⟨o, t, hload, rfl⟩ := hrest
      obtain ⟨errors, hv⟩ := vacant_locate hothers hvacant hlocate
      exact Visit.accounts_of_during rfl (fun hload => (hload caller name rfl).elim)
        (fun hresolves => silent_locate hothers (silent_tells_resolve hothers hresolves depth _) hlocate)
        (ledger?_loadUnit hothers hcall hload hv)
    | .done (.error cause) =>
      exact Visit.accounts_of_refused hothers rfl hvacant hlocate hrest.1 hrest.2
    | .panic payload => exact Visit.accounts_of_refused hothers rfl hvacant hlocate hrest.1 hrest.2
  | invoke j module function args =>
    cases hcalls
    obtain ⟨rfl, o, t, hrun, rfl⟩ := h
    obtain ⟨errors, hl⟩ := hvacant
    exact Visit.accounts_of_during rfl (fun _ => rfl) (fun _ => rfl) (ledger?_invoke hothers hcall hrun hl)
  | evaluate j u env =>
    cases hcalls
    obtain ⟨rfl, o, t, hrun, rfl⟩ := h
    obtain ⟨errors, hl⟩ := hvacant
    exact Visit.accounts_of_during rfl (fun _ => rfl) (fun _ => rfl)
      (ledger?_evaluateScript hothers hcall hrun hl)
  | _ => cases hcalls

/-- After every call on a worker that is used from one thread, its errors are those that were reported
during that call since it entered. -/
theorem Interpreter.Sequence.errors_of_visits {w w' : World L} {visits : List (Visit L)}
    (h : interpreter.Sequence thread others depth k w visits w') (hw : w.Vacant k) :
    ∀ visit ∈ visits, visit.Accounts interpreter k := by
  induction h with
  | nil hbetween =>
    intro visit hmem
    cases hmem
  | cons hbetween hcalls hvisit hrest ih =>
    have haccounts := Visit.accounts hothers hcalls (hbetween hw) hvisit
    intro visit hmem
    rcases List.mem_cons.1 hmem with rfl | hmem
    · exact haccounts
    · exact ih haccounts.vacant visit hmem

end Sequence

/-! ## Calls that leave old errors -/

namespace Interpreter

variable (interpreter : Interpreter L) (thread : ThreadId) (depth : Nat)

def playVisit (request : Request L) (w : World L) : Option (Visit L) :=
  match request with
  | .loadModule k caller name =>
    match (Worker.locate k caller name).evaluate (interpreter.playTells thread depth (some k)) w with
    | none => none
    | some (.done (.ok u), v, t) =>
      ((Worker.loadUnit thread k u).evaluate (interpreter.playTells thread depth (some k)) v).map
        fun (_, w', t') => ⟨.loadModule k caller name, w, t, some t', w'⟩
    | some (_, v, t) => some ⟨.loadModule k caller name, w, t, none, v⟩
  | request =>
    ((interpreter.answer thread request).evaluate (interpreter.playTells thread depth request.calls?)
      w).map fun (_, w', t) => ⟨request, w, [], some t, w'⟩

def playVisits : List (Request L) → World L → Option (List (Visit L) × World L)
  | [], w => some ([], w)
  | request :: rest, w =>
    (interpreter.playVisit thread depth request w).bind fun visit =>
      (playVisits rest visit.after).map fun (visits, w') => (visit :: visits, w')

variable {interpreter thread depth}

theorem visits_of_play {request : Request L} {w : World L} {visit : Visit L}
    (others : World L → World L → Prop)
    (h : interpreter.playVisit thread depth request w = some visit) :
    visit.request = request ∧ visit.before = w ∧ interpreter.Visits thread others depth visit := by
  have hcalls : ∀ j callee w o w' t, interpreter.playTells thread depth j callee w = some (o, w', t) →
      interpreter.tells thread others depth j callee w o w' t := tells_of_play depth
  by_cases hload : ∃ k caller name, request = .loadModule k caller name
  · obtain ⟨k, caller, name, rfl⟩ := hload
    cases hlocate : (Worker.locate k caller name).evaluate
        (interpreter.playTells thread depth (some k)) w with
    | none =>
      simp only [playVisit, hlocate] at h
      cases h
    | some run =>
      obtain ⟨found, v, t⟩ := run
      have hrun : (Worker.locate k caller name).Runs others
          (interpreter.tells thread others depth (some k)) w found v t :=
        Program.runs_of_evaluate (hcalls _) hlocate
      match found with
      | .done (.ok u) =>
        simp only [playVisit, hlocate] at h
        obtain ⟨⟨o, w', t'⟩, hunit, hvisit⟩ := Option.map_eq_some_iff.1 h
        cases hvisit
        exact ⟨rfl, rfl, _, v, hrun, o, t', Program.runs_of_evaluate (hcalls _) hunit, rfl⟩
      | .done (.error cause) =>
        simp only [playVisit, hlocate] at h
        cases h
        exact ⟨rfl, rfl, _, v, hrun, .refl, rfl⟩
      | .panic payload =>
        simp only [playVisit, hlocate] at h
        cases h
        exact ⟨rfl, rfl, _, v, hrun, .refl, rfl⟩
  · have hplay : ∃ o w' t, (interpreter.answer thread request).evaluate
          (interpreter.playTells thread depth request.calls?) w = some (o, w', t) ∧
        visit = ⟨request, w, [], some t, w'⟩ := by
      have hplay : ((interpreter.answer thread request).evaluate
          (interpreter.playTells thread depth request.calls?) w).map
            (fun (_, w', t) => (⟨request, w, [], some t, w'⟩ : Visit L)) = some visit := by
        cases request <;> first | exact h | exact (hload ⟨_, _, _, rfl⟩).elim
      obtain ⟨⟨o, w', t⟩, hrun, rfl⟩ := Option.map_eq_some_iff.1 hplay
      exact ⟨o, w', t, hrun, rfl⟩
    obtain ⟨o, w', t, hrun, rfl⟩ := hplay
    have hrun : (interpreter.answer thread request).Runs others
        (interpreter.tells thread others depth request.calls?) w o w' t :=
      Program.runs_of_evaluate (hcalls _) hrun
    refine ⟨rfl, rfl, ?_⟩
    cases request <;> first | exact ⟨rfl, o, t, hrun, rfl⟩ | exact (hload ⟨_, _, _, rfl⟩).elim

theorem sequence_of_plays {k : WorkerId} {requests : List (Request L)} {w w' : World L}
    {visits : List (Visit L)} (others : World L → World L → Prop)
    (hcalls : ∀ request ∈ requests, request.calls? = some k)
    (h : interpreter.playVisits thread depth requests w = some (visits, w')) :
    interpreter.Sequence thread others depth k w visits w' := by
  induction requests generalizing w visits with
  | nil =>
    cases h
    exact .nil id
  | cons request rest ih =>
    obtain ⟨visit, hvisit, h⟩ := Option.bind_eq_some_iff.1 h
    obtain ⟨⟨visits', v⟩, hrest, hpair⟩ := Option.map_eq_some_iff.1 h
    cases hpair
    obtain ⟨hrequest, hbefore, hvisits⟩ := visits_of_play others hvisit
    subst hbefore
    refine .cons id ?_ hvisits (ih (fun r hr => hcalls r (List.mem_cons_of_mem _ hr)) hrest)
    rw [hrequest]
    exact hcalls request List.mem_cons_self

end Interpreter

namespace Importing

variable {N : Type} (named : N → String)

def checking (compile : String → Except (List SyntaxError) (List (Line N))) :
    Interpreter (language N) where
  code
    | .compile _ source => .ended (.done (compile source))
    | callee => (interpreter named fun _ => []).code callee
  effect effect := nomatch (effect : Empty)

def triesBroken (source : String) : Except (List SyntaxError) (List (Line String)) :=
  if source = "" then .ok [.tries "b"] else .error [⟨"oops", "b.yx", 1, 1, none⟩]

def brokenSources : List (String × ByteArray) := [("a.yx", ByteArray.empty), ("b.yx", ⟨#[98]⟩)]

def shown (visit : Visit (language String)) : Option (List String) × List String :=
  (visit.during.map fun t => t.map fun report => report.error.text,
    (visit.after.worker 0).errors.map SyntaxError.text)

/-- A load whose importer has caught a mistake, one of a name that stands for nothing, and the first
again: the second leaves the errors of the first. -/
theorem missing_keeps_errors : ∃ visits w',
    (checking id triesBroken).Sequence (.caller 0) (fun _ _ => False) 3 0
      (world String true brokenSources) visits w' ∧
    visits.map shown =
      [(some ["b.yx:1:1: oops"], ["b.yx:1:1: oops"]), (none, ["b.yx:1:1: oops"]), (some [], [])] ∧
    ∀ visit ∈ visits, visit.Accounts (checking id triesBroken) 0 := by
  have heval : (((checking id triesBroken).playVisits (.caller 0) 3
      [.loadModule 0 none "a", .loadModule 0 none "c", .loadModule 0 none "a"]
      (world String true brokenSources)).any fun run => run.1.map shown =
        [(some ["b.yx:1:1: oops"], ["b.yx:1:1: oops"]), (none, ["b.yx:1:1: oops"]), (some [], [])]) =
      true := by decide +kernel
  obtain ⟨⟨visits, w'⟩, hplay, hshown⟩ := (Option.any_eq_true _ _).1 heval
  have hsequence : (checking id triesBroken).Sequence (.caller 0) (fun _ _ => False) 3 0
      (world String true brokenSources) visits w' :=
    Interpreter.sequence_of_plays _ (by decide) hplay
  refine ⟨visits, w', hsequence, of_decide_eq_true hshown, ?_⟩
  exact Interpreter.Sequence.errors_of_visits (fun _ _ h => h.elim) hsequence ⟨[], rfl⟩

end Importing

end ScriptWorker
