import ScriptWorker.Proofs.Passages.Asides
import ScriptWorker.Proofs.Reporting.Reports

/-!
# Ledgers

The ledger of a worker is its serializer with the errors that it keeps. The outermost entry of a thread
forgets the errors of the call before; while the thread is inside, all that is done on the worker
leaves the serializer as it was, and adds to the errors what is reported to the worker, in the order
of the reports. A program that is called while nobody is inside may enter any number of times, so all
that is known of the errors is that they are those of the last entry.
-/

namespace ScriptWorker

open Relation World

variable {L : Language} {α β : Type}

/-- What a worker keeps of the call that it is in. -/
structure Ledger where
  serializer : Serializer UnitId
  errors : List SyntaxError

def Worker.ledger (x : Worker) : Ledger := ⟨x.serializer, x.errors⟩

def World.ledger? (w : World L) (k : WorkerId) : Option Ledger :=
  (w.workers.get? k).map Worker.ledger

namespace Serializer

variable {υ : Type}

def Inside (thread : ThreadId) (s : Serializer υ) : Prop := s.owner = some thread ∧ s.depth ≠ 0

/-- A thread is inside, or nobody is. -/
def Settled (thread : ThreadId) (s : Serializer υ) : Prop := s.Inside thread ∨ s = create

end Serializer

namespace Ledger

def entered (thread : ThreadId) (l : Ledger) : Ledger where
  serializer := { l.serializer with owner := some thread, depth := l.serializer.depth + 1 }
  errors := if l.serializer.depth = 0 then [] else l.errors

def left (l : Ledger) : Ledger := ⟨l.serializer.leave, l.errors⟩

def showing (unit : Option UnitId) (l : Ledger) : Ledger :=
  ⟨{ l.serializer with current := unit }, l.errors⟩

def adding (errors : List SyntaxError) (l : Ledger) : Ledger :=
  ⟨l.serializer, l.errors ++ errors⟩

theorem inside_entered (thread : ThreadId) (l : Ledger) :
    (l.entered thread).serializer.Inside thread := ⟨rfl, Nat.succ_ne_zero _⟩

theorem leave_entered {thread : ThreadId} {l : Ledger} (h : l.serializer.Settled thread) :
    (l.entered thread).serializer.leave = l.serializer := by
  obtain ⟨⟨owner, depth, current⟩, errors⟩ := l
  rcases h with ⟨rfl, hdepth⟩ | h
  · have hdepth : depth ≠ 0 := hdepth
    simp [entered, Serializer.leave, hdepth]
  · cases h
    rfl

end Ledger

namespace World

variable {w v w' : World L} {j k : WorkerId}

theorem ledger?_of_workers (h : w'.workers = w.workers) : w'.ledger? k = w.ledger? k := by
  unfold ledger?
  rw [h]

theorem worker_of_ledger? {l : Ledger} (h : w.ledger? k = some l) :
    (w.worker k).serializer = l.serializer ∧ (w.worker k).errors = l.errors := by
  obtain ⟨x, hx, rfl⟩ := Option.map_eq_some_iff.1 h
  unfold worker
  rw [hx]
  exact ⟨rfl, rfl⟩

theorem ledger?_modifyWorker {f : Worker → Worker} {g : Ledger → Ledger}
    (hf : ∀ x, (f x).ledger = g x.ledger) :
    (w.modifyWorker j f).ledger? k = if j = k then (w.ledger? k).map g else w.ledger? k := by
  unfold ledger? modifyWorker
  rw [Table.get?_modify]
  by_cases h : j = k
  · rw [if_pos h, if_pos h, Option.map_map, Option.map_map]
    exact congrArg (Option.map · _) (funext hf)
  · rw [if_neg h, if_neg h]

theorem ledger?_modifyWorker_ne (h : j ≠ k) (f : Worker → Worker) :
    (w.modifyWorker j f).ledger? k = w.ledger? k := by
  unfold ledger? modifyWorker
  rw [Table.get?_modify, if_neg h]

theorem ledger?_modifyWorker_same {f : Worker → Worker} (hf : ∀ x, (f x).ledger = x.ledger) :
    (w.modifyWorker j f).ledger? k = w.ledger? k := by
  rw [ledger?_modifyWorker (g := id) hf, Option.map_id, id, ite_self]

theorem ledger?_modifyCache (w : World L) (j k : WorkerId)
    (f : ModuleCache EnvironmentId → ModuleCache EnvironmentId) :
    (w.modifyCache j f).ledger? k = w.ledger? k := ledger?_modifyWorker_same fun _ => rfl

theorem ledger?_reportError (w : World L) (j k : WorkerId) (error : SyntaxError) :
    (w.reportError j error).ledger? k =
      if j = k then (w.ledger? k).map (Ledger.adding [error]) else w.ledger? k :=
  ledger?_modifyWorker fun _ => rfl

def SameLedger (k : WorkerId) (w w' : World L) : Prop := w'.ledger? k = w.ledger? k

theorem sameLedger_refl (w : World L) : w.SameLedger k w := rfl

/-- From one world to another a ledger is carried on: where the serializer is of the first kind it is
the same afterwards, and where it is of the second the errors have grown by what was reported. -/
def Carries (k : WorkerId) (I J : Serializer UnitId → Prop) (w : World L) (t : List Report)
    (w' : World L) : Prop :=
  ∀ l, w.ledger? k = some l → I l.serializer → ∃ errors,
    w'.ledger? k = some ⟨l.serializer, errors⟩ ∧
    (J l.serializer → errors = l.errors ++ Report.on k t)

section Carries

variable {I I' J : Serializer UnitId → Prop} {s t : List Report}

theorem Carries.trans (h : w.Carries k I J s v) (h' : v.Carries k I J t w') :
    w.Carries k I J (s ++ t) w' := by
  intro l hl hI
  obtain ⟨errors, hv, herrors⟩ := h l hl hI
  obtain ⟨errors', hw', herrors'⟩ := h' _ hv hI
  refine ⟨errors', hw', fun hJ => ?_⟩
  rw [herrors' hJ, herrors hJ, Report.on_append, List.append_assoc]

theorem Carries.mono (hI : ∀ s, I' s → I s) (h : w.Carries k I J t w') : w.Carries k I' J t w' :=
  fun l hl hl' => h l hl (hI _ hl')

theorem carries_of_same (h : w.SameLedger k w') : w.Carries k I J [] w' := by
  intro l hl _
  exact ⟨l.errors, h.trans hl, fun _ => by simp⟩

theorem carries_reportError (w : World L) (j : WorkerId) (error : SyntaxError) :
    w.Carries k I J [⟨j, error⟩] (w.reportError j error) := by
  intro l hl _
  rw [ledger?_reportError, hl]
  by_cases h : j = k
  · subst h
    exact ⟨l.errors ++ [error], by simp [Ledger.adding], fun _ => by simp [Report.on]⟩
  · exact ⟨l.errors, by simp [h], fun _ => by simp [Report.on, h]⟩

end Carries

end World

def Program.Carries (others : World L → World L → Prop)
    (call : (callee : Callee L) → Reporting L callee.Result) (k : WorkerId)
    (I J : Serializer UnitId → Prop) (p : Run L α) : Prop :=
  ∀ w o w' t, p.Runs others call w o w' t → w.Carries k I J t w'

/-- Code that is called for a worker carries a ledger on; what it reports by coming back is still to
be entered. -/
def CallsCarry (call : (callee : Callee L) → Reporting L callee.Result) (j : Option WorkerId)
    (k : WorkerId) (I J : Serializer UnitId → Prop) (callee : Callee L) : Prop :=
  ∀ w o w' t, call callee w o w' t →
    ∃ t', t = t' ++ callee.reports j o ∧ w.Carries k I J t' w'

section Rules

variable {others : World L → World L → Prop}
  {call : (callee : Callee L) → Reporting L callee.Result} {j k : WorkerId}
  {I I' J : Serializer UnitId → Prop}

theorem Program.Carries.mono (hI : ∀ s, I' s → I s) {p : Run L α}
    (hp : p.Carries others call k I J) : p.Carries others call k I' J :=
  fun w o w' t h => (hp w o w' t h).mono hI

theorem Program.Carries.thenOutcome {p : Run L β} {f : Outcome β → Run L α}
    (hp : p.Carries others call k I J) (hf : ∀ o, (f o).Carries others call k I J) :
    (p.thenOutcome f).Carries others call k I J := by
  intro w o w' t h
  obtain ⟨o₁, v, t₁, t₂, hfirst, hrest, rfl⟩ := Program.runs_thenOutcome.1 h
  exact (hp w o₁ v t₁ hfirst).trans (hf o₁ v o w' t₂ hrest)

variable (hothers : ∀ w w', others w w' → SameLedger k w w')
include hothers

theorem ledger?_others {w v : World L} (h : ReflTransGen others w v) : w.SameLedger k v := by
  induction h with
  | refl => rfl
  | tail _ hstep ih => exact (hothers _ _ hstep).trans ih

theorem carries_ended (o : Outcome α) :
    (Program.ended o : Run L α).Carries others call k I J := by
  rintro w o w' t ⟨hmoves, -, rfl⟩
  exact carries_of_same (ledger?_others hothers hmoves)

theorem carries_bind {p : Run L β} {f : β → Run L α} (hp : p.Carries others call k I J)
    (hf : ∀ b, (f b).Carries others call k I J) : (p >>= f).Carries others call k I J := by
  apply hp.thenOutcome
  intro o
  cases o with
  | done b => exact hf b
  | panic payload => exact carries_ended hothers _

theorem Program.Moves.carries {p : Run L α}
    (hp : p.Moves (SameLedger k)) : p.Carries others call k I J := by
  intro w o w' t h
  obtain ⟨hmoves, rfl⟩ := hp.runs hothers h
  exact carries_of_same (ledger?_others (fun _ _ h => h) hmoves)

theorem Program.OwnSteps.along {R : World L → List Report → World L → Prop} {callable : Callee L → Prop}
    (hsame : ∀ w w', SameLedger k w w' → R w [] w')
    (htrans : ∀ w v w' s t, R w s v → R v t w' → R w (s ++ t) w')
    (hcall : ∀ callee, callable callee → ∀ w o w' t, call callee w o w' t → R w t w') {p : Run L α}
    (hp : p.OwnSteps (SameLedger k) callable) {w w' : World L} {o : Outcome α} {t : List Report}
    (h : p.Runs others call w o w' t) : R w t w' := by
  induction p generalizing w t with
  | ended outcome =>
    obtain ⟨hmoves, -, rfl⟩ := h
    exact hsame _ _ (ledger?_others hothers hmoves)
  | step move next ih =>
    obtain ⟨v, v', hv, hmove, hrest⟩ := h
    have hbefore : SameLedger k w v' := ((hp v).1 v' hmove).trans (ledger?_others hothers hv)
    exact htrans _ _ _ _ _ (hsame _ _ hbefore) (ih v (hp v).2 hrest)
  | call callee next ih =>
    obtain ⟨v, o₁, v', t₁, t₂, hv, hfirst, hrest, rfl⟩ := h
    have hbefore := hsame _ _ (ledger?_others hothers hv)
    have hcalled := htrans _ _ _ _ _ hbefore (hcall callee hp.1 v o₁ v' t₁ hfirst)
    exact htrans _ _ _ _ _ hcalled (ih o₁ (hp.2 o₁) hrest)

theorem carries_read (f : World L → α) : (Program.read f : Run L α).Carries others call k I J :=
  Program.Moves.carries hothers (Program.moves_read sameLedger_refl f)

theorem carries_modify {f : World L → World L} (hf : ∀ w, (f w).ledger? k = w.ledger? k) :
    (Program.modify f : Run L Unit).Carries others call k I J :=
  Program.Moves.carries hothers (Program.moves_modify hf)

theorem carries_transact {f : World L → α × World L}
    (hf : ∀ w, (f w).2.ledger? k = w.ledger? k) :
    (Program.transact f : Run L α).Carries others call k I J :=
  Program.Moves.carries hothers (Program.moves_transact hf)

theorem carries_outside {i : Option WorkerId} {callee : Callee L}
    (hcall : CallsCarry call i k I J callee) (hsilent : ∀ o, callee.reports i o = []) :
    (outside callee).Carries others call k I J := by
  rintro w o w' t ⟨v, o₁, v', t₁, t₂, hv, hfirst, ⟨hv', -, rfl⟩, rfl⟩
  obtain ⟨t', rfl, hcarries⟩ := hcall v o₁ v' t₁ hfirst
  rw [hsilent, List.append_nil, List.append_nil]
  have hbefore : w.Carries k I J [] v := carries_of_same (ledger?_others hothers hv)
  have hafter : v'.Carries k I J [] w' := carries_of_same (ledger?_others hothers hv')
  simpa using (hbefore.trans hcarries).trans hafter

end Rules

/-! ## Running scripts -/

section Scripts

variable {others : World L → World L → Prop}
  {call : (callee : Callee L) → Reporting L callee.Result} {j k : WorkerId}
  {I J : Serializer UnitId → Prop} {u : UnitId}
  (hothers : ∀ w w', others w w' → SameLedger k w w')
include hothers

theorem carries_reportAll {errors : List SyntaxError} {w w' : World L} {o : Outcome Unit}
    {t : List Report} (h : (Script.reportAll j errors).Runs others call w o w' t) :
    t = [] ∧ w.Carries k I J (Report.all j errors) w' := by
  induction errors generalizing w with
  | nil =>
    obtain ⟨hmoves, -, rfl⟩ := h
    exact ⟨rfl, carries_of_same (ledger?_others hothers hmoves)⟩
  | cons error rest ih =>
    obtain ⟨v, hv, hrest⟩ := Program.runs_modify_bind.1 h
    obtain ⟨rfl, hcarries⟩ := ih hrest
    have hbefore : w.Carries k I J [] v := carries_of_same (ledger?_others hothers hv)
    exact ⟨rfl, (hbefore.trans (carries_reportError v j error)).trans hcarries⟩

variable (hcall : ∀ callee, CallsCarry call (some j) k I J callee)
include hcall

theorem carries_compile (resource : Resource) (time : UInt64) (source : String) :
    (Script.compile j u resource time source).Carries others call k I J := by
  intro w o w' t h
  obtain ⟨v, o₁, v', t₁, t₂, hv, hfirst, rfl, hrest⟩ := Program.runs_invokeOutside_bind.1 h
  obtain ⟨t', rfl, hcarries⟩ := hcall _ v o₁ v' t₁ hfirst
  have hbefore : w.Carries k I J t' v' :=
    (carries_of_same (ledger?_others hothers hv)).trans hcarries
  match o₁ with
  | .panic payload =>
    obtain ⟨hmoves, -, rfl⟩ := hrest
    rw [List.append_assoc]
    exact hbefore.trans (carries_of_same (ledger?_others hothers hmoves))
  | .done (.ok body) =>
    have hafter : (do
        Program.modify fun w => w.setCompiled u body time
        return .ok (body, time) : Run L (Answer (L.Body × UInt64))).Carries others call k I J :=
      carries_bind hothers (carries_modify hothers fun w => ledger?_of_workers rfl) fun _ =>
        carries_ended hothers _
    rw [List.append_assoc]
    exact hbefore.trans (hafter _ _ _ _ hrest)
  | .done (.error errors) =>
    have hentered : ∃ v'', t₂ = [] ∧ v'.Carries k I J (Report.all j errors) v'' ∧
        ReflTransGen others v'' w' := by
      rcases Program.runs_bind.1 hrest with ⟨_, v'', s, s', hall, ⟨hmoves, -, rfl⟩, rfl⟩ |
        ⟨_, v'', hall, hmoves, -⟩
      · obtain ⟨rfl, hentered⟩ := carries_reportAll hothers hall
        exact ⟨v'', rfl, hentered, hmoves⟩
      · obtain ⟨rfl, hentered⟩ := carries_reportAll hothers hall
        exact ⟨v'', rfl, hentered, hmoves⟩
    obtain ⟨v'', rfl, hentered, hmoves⟩ := hentered
    exact (hbefore.trans hentered).trans (carries_of_same (ledger?_others hothers hmoves))

theorem carries_body (resource : Resource) :
    (Script.body j u resource : Run L _).Carries others call k I J := by
  refine carries_bind hothers (carries_read hothers _) fun time =>
    carries_bind hothers (carries_read hothers _) fun known => ?_
  cases known with
  | some c => exact carries_ended hothers _
  | none =>
    refine carries_bind hothers (carries_transact hothers fun w => ledger?_of_workers rfl) fun found => ?_
    cases found with
    | false => exact carries_bind hothers (carries_read hothers _) fun _ => carries_ended hothers _
    | true =>
      refine carries_bind hothers (carries_read hothers _) fun text => ?_
      cases text with
      | error cause => exact carries_ended hothers _
      | ok source => exact carries_compile hothers hcall resource time source

theorem carries_build (resource : Resource) (code : L.Body) (time : UInt64) :
    (Script.build j u resource code time : Run L _).Carries others call k I J := by
  refine carries_bind hothers (carries_transact hothers fun w => ledger?_of_workers rfl) fun env =>
    carries_bind hothers (carries_modify hothers fun w => ledger?_modifyCache w j k _) fun _ =>
      carries_bind hothers (carries_outside hothers (hcall _) fun _ => rfl) fun answer => ?_
  cases answer with
  | error cause => exact carries_ended hothers _
  | ok value =>
    exact carries_bind hothers (carries_modify hothers fun w => ledger?_of_workers rfl) fun _ =>
      carries_ended hothers _

theorem carries_scriptLoad (resource : Resource) (existing : Option EnvironmentId) :
    (Script.load j u resource existing : Run L _).Carries others call k I J := by
  refine carries_bind hothers (carries_read hothers _) fun fresh => ?_
  cases fresh with
  | some env =>
    exact carries_bind hothers (carries_modify hothers fun w => ledger?_modifyCache w j k _) fun _ =>
      carries_ended hothers _
  | none =>
    refine carries_bind hothers (carries_body hothers hcall resource) fun answer => ?_
    cases answer with
    | error cause => exact carries_ended hothers _
    | ok found => exact carries_build hothers hcall resource found.1 found.2

theorem carries_scriptEvaluate (resource : Resource) (env : EnvironmentId) :
    (Script.evaluate j u resource env : Run L _).Carries others call k I J := by
  refine carries_bind hothers (carries_body hothers hcall resource) fun answer => ?_
  cases answer with
  | error cause => exact carries_ended hothers _
  | ok found =>
    refine carries_bind hothers (carries_outside hothers (hcall _) fun _ => rfl) fun value => ?_
    cases value with
    | error cause => exact carries_ended hothers _
    | ok value =>
      refine carries_bind hothers (carries_read hothers _) fun isModule => ?_
      cases isModule with
      | false => exact carries_ended hothers _
      | true =>
        exact carries_bind hothers (carries_modify hothers fun w => ledger?_of_workers rfl) fun _ =>
          carries_ended hothers _

theorem carries_unitLoad (existing : Option EnvironmentId) :
    (ExecutableUnit.load j u existing : Run L _).Carries others call k I J := by
  refine carries_bind hothers (carries_read hothers _) fun source => ?_
  match source with
  | none => exact carries_ended hothers _
  | some (.script resource _) => exact carries_scriptLoad hothers hcall resource existing
  | some (.custom spec _) => exact carries_outside hothers (hcall _) fun _ => rfl

theorem carries_unitEvaluate (env : EnvironmentId) :
    (ExecutableUnit.evaluate j u env : Run L _).Carries others call k I J := by
  refine carries_bind hothers (carries_read hothers _) fun source => ?_
  match source with
  | none => exact carries_ended hothers _
  | some (.script resource _) => exact carries_scriptEvaluate hothers hcall resource env
  | some (.custom spec _) => exact carries_outside hothers (hcall _) fun _ => rfl

theorem carries_addDependency (dependency : UnitId) :
    (ExecutableUnit.addDependency u dependency : Run L _).Carries others call k I J := by
  have hrecord : (Program.modify fun w => w.recordDependency u dependency : Run L Unit).Carries
      others call k I J := carries_modify hothers fun w => ledger?_of_workers rfl
  refine carries_bind hothers (carries_read hothers _) fun source => ?_
  match source with
  | none => exact hrecord
  | some (.script _ _) => exact hrecord
  | some (.custom spec _) => exact carries_outside hothers (hcall _) fun _ => rfl

theorem carries_recordImport (parent : Option UnitId) :
    (Worker.recordImport parent u : Run L _).Carries others call k I J := by
  cases parent with
  | none => exact carries_ended hothers _
  | some parent => exact carries_addDependency hothers hcall u

end Scripts

end ScriptWorker
