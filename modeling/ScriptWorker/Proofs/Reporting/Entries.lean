import ScriptWorker.Proofs.Reporting.Ledgers

/-!
# Entries

Entering and leaving a serializer, and making a script current and putting the previous one back,
undo each other in the ledger, except that the outermost entry has forgotten the errors. So every
operation of the library carries a ledger on, and so does all code of scripts and host, however deep
the operations are inside each other.
-/

namespace ScriptWorker

open Relation World

variable {L : Language} {α β : Type}

namespace Serializer

variable {υ : Type} {thread : ThreadId} {s : Serializer υ}

/-- The thread is inside, or a worker is entered that is not the one whose serializer it is. -/
def Open (thread : ThreadId) (j k : WorkerId) (s : Serializer υ) : Prop :=
  s.Inside thread ∨ j ≠ k ∧ s = create

theorem Open.settled {j k : WorkerId} (h : s.Open thread j k) : s.Settled thread := h.imp_right And.right

theorem Open.inside {k : WorkerId} (h : s.Open thread k k) : s.Inside thread :=
  h.resolve_right fun hne => hne.1 rfl

end Serializer

section Nesting

variable {others : World L → World L → Prop}
  {call : (callee : Callee L) → Reporting L callee.Result} {j k : WorkerId} {thread : ThreadId}
  {w w' : World L} {l : Ledger} {t : List Report}

theorem moves_enter (h : j ≠ k) : (Worker.enter thread j : Run L _).Moves (SameLedger k) := by
  refine Program.Moves.bind (Program.moves_await fun w guard w' henter => ?_) fun guard => ?_
  · obtain ⟨⟨guard', s⟩, -, hpair⟩ := Option.map_eq_some_iff.1 henter
    cases hpair
    exact ledger?_modifyWorker_ne h _
  · have hclear : (Program.modify fun w => w.clearErrors j : Run L Unit).Moves (SameLedger k) :=
      Program.moves_modify fun w => ledger?_modifyWorker_ne h _
    cases guard.isOutermost with
    | false => trivial
    | true =>
      refine Program.Moves.bind (Program.moves_read sameLedger_refl _) fun reloading => ?_
      cases reloading with
      | false => exact hclear.bind fun _ => trivial
      | true =>
        exact Program.Moves.bind (Program.moves_modify fun w => ledger?_modifyCache w j k _)
          fun _ => hclear.bind fun _ => trivial

section Entering

variable (hothers : ∀ w w', others w w' → SameLedger k w w')
include hothers

omit hothers in
theorem ledger?_enter? {guard : SerialGuard} (h : w.enter? thread k = some (guard, w'))
    (hl : w.ledger? k = some l) : guard.isOutermost = decide (l.serializer.depth = 0) ∧
      w'.ledger? k = some ⟨(l.entered thread).serializer, l.errors⟩ := by
  obtain ⟨⟨guard', s⟩, hs, hpair⟩ := Option.map_eq_some_iff.1 h
  cases hpair
  rw [(worker_of_ledger? hl).1] at hs
  obtain ⟨-, rfl, rfl⟩ := Serializer.enter?_eq hs
  constructor
  · simp [SerialGuard.isOutermost]
  · rw [ledger?_modifyWorker (g := fun l' => ⟨(l.entered thread).serializer, l'.errors⟩)
      fun _ => rfl, if_pos rfl, hl]
    rfl

/-- The outermost entry forgets the errors, any other keeps them. -/
theorem ledger?_enter {o : Outcome SerialGuard}
    (h : (Worker.enter thread k).Runs others call w o w' t) (hl : w.ledger? k = some l) :
    t = [] ∧ (∃ guard, o = .done guard) ∧ w'.ledger? k = some (l.entered thread) := by
  obtain ⟨v, guard, v', hv, henter, h⟩ := Program.runs_await_bind.1 h
  obtain ⟨hguard, hv'⟩ := ledger?_enter? henter ((ledger?_others hothers hv).trans hl)
  rw [hguard] at h
  by_cases hdepth : l.serializer.depth = 0
  · rw [decide_eq_true hdepth] at h
    -- whether or not the cache is cleared, the errors are
    have hclear : ∀ {u} {o : Outcome SerialGuard} {t}, (do
        Program.modify fun w => w.clearErrors k
        return guard : Run L SerialGuard).Runs others call u o w' t →
        u.ledger? k = some ⟨(l.entered thread).serializer, l.errors⟩ →
        t = [] ∧ (∃ guard, o = .done guard) ∧ w'.ledger? k = some (l.entered thread) := by
      intro u o t h hu
      obtain ⟨u', hu', hmoves, rfl, rfl⟩ := Program.runs_modify_bind.1 h
      refine ⟨rfl, ⟨_, rfl⟩, ?_⟩
      rw [ledger?_others hothers hmoves, clearErrors, ledger?_modifyWorker
        (g := fun l' => ⟨l'.serializer, []⟩) fun _ => rfl, if_pos rfl,
        ledger?_others hothers hu', hu]
      simp [Ledger.entered, hdepth]
    obtain ⟨u, hu, h⟩ := Program.runs_read_bind.1 h
    have hul := (ledger?_others hothers hu).trans hv'
    cases hreload : (u.worker k).config.reloading with
    | false =>
      rw [hreload] at h
      exact hclear h hul
    | true =>
      rw [hreload] at h
      obtain ⟨u', hu', h⟩ := Program.runs_modify_bind.1 h
      apply hclear h
      rw [ledger?_modifyCache, ledger?_others hothers hu', hul]
  · rw [decide_eq_false hdepth] at h
    obtain ⟨hmoves, rfl, rfl⟩ := h
    refine ⟨rfl, ⟨_, rfl⟩, ?_⟩
    rw [ledger?_others hothers hmoves, hv']
    simp [Ledger.entered, hdepth]

theorem runs_serialized {inside : Run L α} {o : Outcome α}
    (h : (Worker.serialized thread k inside).Runs others call w o w' t)
    (hl : w.ledger? k = some l) :
    ∃ v v', inside.Runs others call v o v' t ∧ v.ledger? k = some (l.entered thread) ∧
      w'.ledger? k = (v'.ledger? k).map Ledger.left := by
  rcases Program.runs_bind.1 h with ⟨guard, v, t₁, t₂, henter, hrest, rfl⟩ |
    ⟨payload, v, henter, -⟩
  · obtain ⟨rfl, -, hv⟩ := ledger?_enter hothers henter hl
    obtain ⟨o₁, v', t₃, t₄, hinside, hleave, rfl⟩ := Program.runs_thenOutcome.1 hrest
    obtain ⟨u, hu, hmoves, rfl, rfl⟩ := Program.runs_modify_bind.1 hleave
    refine ⟨v, v', by simpa using hinside, hv, ?_⟩
    rw [ledger?_others hothers hmoves, leave, ledger?_modifyWorker (g := Ledger.left) fun _ => rfl,
      if_pos rfl, ledger?_others hothers hu]
  · obtain ⟨-, ⟨guard, ho⟩, -⟩ := ledger?_enter hothers henter hl
    cases ho

/-- What runs inside carries the ledger of the thread on, and an outermost entry starts it anew. -/
theorem ledger?_serialized {inside : Run L α} {o : Outcome α}
    (hinside : inside.Carries others call k (Serializer.Inside thread) (Serializer.Inside thread))
    (h : (Worker.serialized thread k inside).Runs others call w o w' t)
    (hl : w.ledger? k = some l) (hsettled : l.serializer.Settled thread) :
    w'.ledger? k = some ⟨l.serializer, (l.entered thread).errors ++ Report.on k t⟩ := by
  obtain ⟨v, v', hrun, hv, hw'⟩ := runs_serialized hothers h hl
  obtain ⟨errors, hv', herrors⟩ := hinside v o v' t hrun _ hv (Ledger.inside_entered thread l)
  rw [hw', hv', herrors (Ledger.inside_entered thread l)]
  simp [Ledger.left, Ledger.leave_entered hsettled]

theorem carries_serialized {inside : Run L α}
    (hinside : inside.Carries others call k (Serializer.Open thread j k) (Serializer.Inside thread)) :
    (Worker.serialized thread j inside).Carries others call k (Serializer.Settled thread)
      (Serializer.Inside thread) := by
  by_cases h : j = k
  · subst h
    intro w o w' t hrun l hl hsettled
    have hinside : inside.Carries others call j (Serializer.Inside thread)
        (Serializer.Inside thread) := hinside.mono fun _ => .inl
    refine ⟨_, ledger?_serialized hothers hinside hrun hl hsettled, fun hJ => ?_⟩
    simp [Ledger.entered, hJ.2]
  · have hinside : inside.Carries others call k (Serializer.Settled thread)
        (Serializer.Inside thread) := hinside.mono fun _ hs => hs.imp_right fun hs => ⟨h, hs⟩
    refine carries_bind hothers (Program.Moves.carries hothers (moves_enter h)) fun guard =>
      hinside.thenOutcome fun o => carries_bind hothers ?_ fun _ => carries_ended hothers _
    exact carries_modify hothers fun w => ledger?_modifyWorker_ne h _

theorem runs_withScript {u : UnitId} {inside : Run L α} {settle : α → World L → World L}
    {o : Outcome (α × Option UnitId)} (hsettle : ∀ a w, (settle a w).ledger? k = w.ledger? k)
    (h : (Worker.withScript k u inside settle).Runs others call w o w' t)
    (hl : w.ledger? k = some l) :
    (∃ v o₁ v', inside.Runs others call v o₁ v' t ∧ v.ledger? k = some (l.showing (some u)) ∧
      w'.ledger? k = (v'.ledger? k).map (Ledger.showing l.serializer.current)) ∧
    ∀ a parent, o = .done (a, parent) → parent = l.serializer.current := by
  obtain ⟨v, hv, h⟩ := Program.runs_transact_bind.1 h
  have hvl : v.ledger? k = some l := (ledger?_others hothers hv).trans hl
  rw [pushScript_eq, (worker_of_ledger? hvl).1] at h
  have hpushed : (v.modifyWorker k fun x =>
      { x with serializer := { x.serializer with current := some u } }).ledger? k =
        some (l.showing (some u)) := by
    rw [ledger?_modifyWorker (g := Ledger.showing (some u)) fun _ => rfl, if_pos rfl, hvl]
    rfl
  have hshown : ∀ (x : World L), (x.restoreScript k ⟨some l.serializer.current⟩).2.ledger? k =
      (x.ledger? k).map (Ledger.showing l.serializer.current) := by
    intro x
    rw [restoreScript_eq, ledger?_modifyWorker (g := Ledger.showing l.serializer.current)
      fun _ => rfl, if_pos rfl]
  rcases Program.runs_bind.1 h with ⟨o₁, u', t₁, t₂, hcaught, h, rfl⟩ | ⟨payload, u', hcaught, -⟩
  case inr =>
    obtain ⟨o₁, v', t₁, t₂, hinside, ⟨-, ho, -⟩, -⟩ := Program.runs_thenOutcome.1 hcaught
    cases ho
  obtain ⟨o₂, v', t₁, t₃, hinside, ⟨hv', ho, rfl⟩, rfl⟩ := Program.runs_thenOutcome.1 hcaught
  cases ho
  cases o₁ with
  | panic payload =>
    obtain ⟨x, hx, hmoves, rfl, rfl⟩ := Program.runs_transact_bind.1 h
    refine ⟨⟨_, _, v', by simpa using hinside, hpushed, ?_⟩, nofun⟩
    rw [ledger?_others hothers hmoves, hshown, ledger?_others hothers (hv'.trans hx)]
  | done result =>
    obtain ⟨x, hx, h⟩ := Program.runs_modify_bind.1 h
    obtain ⟨y, hy, hmoves, rfl, rfl⟩ := Program.runs_transact_bind.1 h
    refine ⟨⟨_, _, v', by simpa using hinside, hpushed, ?_⟩, fun a parent ho => ?_⟩
    · rw [ledger?_others hothers hmoves, hshown, ledger?_others hothers hy, hsettle,
        ledger?_others hothers (hv'.trans hx)]
    · cases ho
      rw [restoreScript_eq]

theorem carries_withScript {u : UnitId} {inside : Run L α} {settle : α → World L → World L}
    (hsettle : ∀ a w, SameLedger k w (settle a w))
    (hinside : inside.Carries others call k (Serializer.Settled thread) (Serializer.Inside thread)) :
    (Worker.withScript j u inside settle).Carries others call k (Serializer.Open thread j k)
      (Serializer.Inside thread) := by
  by_cases h : j = k
  · subst h
    intro w o w' t hrun l hl hopen
    obtain ⟨⟨v, o₁, v', hrun, hv, hw'⟩, -⟩ := runs_withScript hothers hsettle hrun hl
    have hinside' : (l.showing (some u)).serializer.Inside thread := hopen.inside
    obtain ⟨errors, hv', herrors⟩ := hinside v o₁ v' t hrun _ hv (.inl hinside')
    rw [hw', hv', herrors hinside']
    exact ⟨_, rfl, fun _ => rfl⟩
  · have hinside : inside.Carries others call k (Serializer.Open thread j k)
        (Serializer.Inside thread) := hinside.mono fun _ => Serializer.Open.settled
    have hrestore : ∀ frame : ScriptFrame UnitId, (Program.transact fun w => w.restoreScript j frame :
        Run L (Option UnitId)).Carries others call k (Serializer.Open thread j k)
          (Serializer.Inside thread) :=
      fun frame => carries_transact hothers fun w => ledger?_modifyWorker_ne h _
    refine carries_bind hothers (carries_transact hothers fun w => ledger?_modifyWorker_ne h _)
      fun frame => carries_bind hothers (hinside.thenOutcome fun o => carries_ended hothers _)
        fun o => ?_
    cases o with
    | panic payload =>
      exact carries_bind hothers (hrestore frame) fun _ => carries_ended hothers _
    | done result =>
      exact carries_bind hothers (carries_modify hothers (hsettle result)) fun _ =>
        carries_bind hothers (hrestore frame) fun _ => carries_ended hothers _

end Entering

end Nesting

/-! ## Operations -/

section Steps

variable {k : WorkerId}

theorem sameLedger_lookupChecked (w : World L) (j : WorkerId) (key : String) :
    SameLedger k w (w.lookupChecked j key).2 := by
  rw [lookupChecked_eq]
  exact ledger?_modifyWorker_same fun _ => rfl

theorem sameLedger_keepLoad (w : World L) (j : WorkerId) (key : String)
    (answer : Answer EnvironmentId) : SameLedger k w (Worker.keepLoad j key answer w) :=
  ledger?_modifyCache w j k _

theorem sameLedger_keepEvaluation (w : World L) (j : WorkerId) (u : UnitId) (env : EnvironmentId)
    (answer : Answer Value) : SameLedger k w (Worker.keepEvaluation j u env answer w) := by
  unfold Worker.keepEvaluation
  split
  · split
    · exact ledger?_modifyCache w j k _
    · rfl
  · rfl

theorem sameLedger_setActive (w : World L) (thread : ThreadId) (active : Option WorkerId) :
    SameLedger k w (w.setActive thread active) := by
  cases active <;> exact ledger?_of_workers rfl

theorem sameLedger_tryCandidate (w : World L) (root : Repository) (candidate : String) :
    SameLedger k w (w.tryCandidate root candidate).2 := by
  obtain ⟨existence, hw⟩ := Setting.tryCandidate_eq w root candidate
  rw [hw]
  exact ledger?_of_workers rfl

theorem sameLedger_scriptFor (w : World L) (r : ResolverId) (resource : Resource) (name : String) :
    SameLedger k w (w.scriptFor r resource name).2 := by
  unfold scriptFor
  dsimp only
  split <;> exact ledger?_of_workers rfl

end Steps

section Resolving

variable {others : World L → World L → Prop}
  {call : (callee : Callee L) → Reporting L callee.Result} {i : Option WorkerId} {k : WorkerId}
  {I J : Serializer UnitId → Prop}

def Callee.IsResolver (callee : Callee L) : Prop := ∃ spec name near, callee = .resolve spec name near

theorem ownSteps_firstCandidate (tried : List (Repository × String)) :
    (firstCandidate tried : Run L _).OwnSteps (SameLedger k) Callee.IsResolver := by
  induction tried with
  | nil => trivial
  | cons attempt rest ih =>
    refine Program.OwnSteps.bind (Program.ownSteps_transact fun w =>
      sameLedger_tryCandidate w attempt.1 attempt.2) fun found => ?_
    cases found with
    | some resource => trivial
    | none => exact ih

theorem ownSteps_resolve (r : ResolverId) (name : String) (near : Option Repository) :
    (resolve r name near : Run L _).OwnSteps (SameLedger k) Callee.IsResolver := by
  refine Program.OwnSteps.bind (Program.ownSteps_read sameLedger_refl _) fun kind => ?_
  match kind with
  | none => trivial
  | some (.custom spec) => exact Program.ownSteps_invokeOutside ⟨spec, name, near, rfl⟩
  | some (.repositories path extension scripts) =>
    refine Program.OwnSteps.bind (ownSteps_firstCandidate _) fun found => ?_
    cases found with
    | none => trivial
    | some resource =>
      exact Program.OwnSteps.bind (Program.ownSteps_transact fun w =>
        sameLedger_scriptFor w r resource name) fun _ => trivial

theorem ownSteps_locate (j : WorkerId) (caller : Option EnvironmentId) (name : String) :
    (Worker.locate j caller name : Run L _).OwnSteps (SameLedger k) Callee.IsResolver :=
  Program.OwnSteps.bind (Program.ownSteps_read sameLedger_refl _) fun _ =>
    Program.OwnSteps.bind (Program.ownSteps_read sameLedger_refl _) fun _ =>
      ownSteps_resolve _ name _

variable (hothers : ∀ w w', others w w' → SameLedger k w w')
include hothers

theorem carries_locate (hresolve : ∀ spec name near, CallsCarry call i k I J (.resolve spec name near))
    (j : WorkerId) (caller : Option EnvironmentId) (name : String) :
    (Worker.locate j caller name : Run L _).Carries others call k I J := by
  intro w o w' t h
  refine (ownSteps_locate j caller name).along hothers (R := World.Carries k I J)
    (fun _ _ => carries_of_same) (fun _ _ _ _ _ => World.Carries.trans) ?_ h
  rintro _ ⟨spec, name, near, rfl⟩ w o w' t h
  obtain ⟨t', rfl, hcarries⟩ := hresolve spec name near w o w' t h
  rw [show (Callee.resolve spec name near : Callee L).reports i o = [] from rfl, List.append_nil]
  exact hcarries

/-- Where resolvers report nothing, nothing is reported while a name is resolved. -/
theorem silent_locate (hresolve : ∀ spec name near w o w' t,
      call (.resolve spec name near) w o w' t → t = [])
    {j : WorkerId} {caller : Option EnvironmentId} {name : String} {w w' : World L}
    {o : Outcome (Answer UnitId)} {t : List Report}
    (h : (Worker.locate j caller name).Runs others call w o w' t) : t = [] := by
  refine (ownSteps_locate j caller name).along hothers (R := fun _ t _ => t = [])
    (fun _ _ _ => rfl) (fun _ _ _ s t hs ht => ?_) ?_ h
  · rw [hs, ht, List.append_nil]
  · rintro _ ⟨spec, name, near, rfl⟩ w o w' t h
    exact hresolve spec name near w o w' t h

end Resolving

section Operations

variable {others : World L → World L → Prop}
  {call : (callee : Callee L) → Reporting L callee.Result} {j k : WorkerId} {thread : ThreadId}
  (hothers : ∀ w w', others w w' → SameLedger k w w')
  (hcall : ∀ callee, CallsCarry call (some j) k (Serializer.Settled thread)
    (Serializer.Inside thread) callee)
include hothers hcall

theorem carries_checkOrLoad (u : UnitId) (key : String) :
    (Worker.checkOrLoad j u key : Run L _).Carries others call k (Serializer.Open thread j k)
      (Serializer.Inside thread) := by
  refine carries_bind hothers (carries_transact hothers fun w => sameLedger_lookupChecked w j key)
    fun found => ?_
  cases found with
  | some env => exact carries_bind hothers (carries_read hothers _) fun _ => carries_ended hothers _
  | none =>
    exact carries_bind hothers (carries_read hothers _) fun existing =>
      carries_withScript hothers (fun answer w => sameLedger_keepLoad w j key answer)
        (carries_unitLoad hothers hcall existing)

theorem carries_loadUnit (u : UnitId) :
    (Worker.loadUnit thread j u : Run L _).Carries others call k (Serializer.Settled thread)
      (Serializer.Inside thread) :=
  carries_bind hothers (carries_read hothers _) fun key =>
    carries_bind hothers (carries_serialized hothers (carries_checkOrLoad hothers hcall u key))
      fun found => carries_bind hothers (carries_recordImport hothers hcall found.2) fun _ =>
        carries_ended hothers _

theorem carries_loadModule (caller : Option EnvironmentId) (name : String) :
    (Worker.loadModule thread j caller name : Run L _).Carries others call k
      (Serializer.Settled thread) (Serializer.Inside thread) := by
  refine carries_bind hothers (carries_locate hothers (fun _ _ _ => hcall _) j caller name)
    fun answer => ?_
  cases answer with
  | error cause => exact carries_ended hothers _
  | ok u => exact carries_loadUnit hothers hcall u

theorem carries_evaluating (u : UnitId) (env : EnvironmentId) :
    (Worker.withScript j u (ExecutableUnit.evaluate j u env) (Worker.keepEvaluation j u env) :
      Run L _).Carries others call k (Serializer.Open thread j k) (Serializer.Inside thread) :=
  carries_withScript hothers (fun answer w => sameLedger_keepEvaluation w j u env answer)
    (carries_unitEvaluate hothers hcall env)

theorem carries_evaluateScript (u : UnitId) (env : EnvironmentId) :
    (Worker.evaluateScript thread j u env : Run L _).Carries others call k
      (Serializer.Settled thread) (Serializer.Inside thread) :=
  carries_bind hothers (carries_serialized hothers (carries_evaluating hothers hcall u env))
    fun found => carries_bind hothers (carries_recordImport hothers hcall found.2) fun _ =>
      carries_ended hothers _

theorem carries_callNamed (env : EnvironmentId) (function : FunctionRef) (args : List Value) :
    (Worker.callNamed thread j env function args : Run L _).Carries others call k
      (Serializer.Settled thread) (Serializer.Inside thread) := by
  have hfind : (Worker.findFunction env function : Run L _).Carries others call k
      (Serializer.Settled thread) (Serializer.Inside thread) := by
    cases function with
    | callable function text => exact carries_ended hothers _
    | name text => exact carries_read hothers _
  refine carries_bind hothers hfind fun found => ?_
  cases found with
  | error cause => exact carries_ended hothers _
  | ok f =>
    refine carries_bind hothers (carries_bind hothers (carries_read hothers _) fun closure => ?_)
      fun answer => carries_ended hothers _
    cases closure with
    | none => exact carries_ended hothers _
    | some closure =>
      exact carries_bind hothers (carries_transact hothers fun w => sameLedger_setActive w thread _)
        fun previous => (carries_outside hothers (hcall _) fun _ => rfl).thenOutcome fun o =>
          carries_bind hothers (carries_modify hothers fun w => sameLedger_setActive w thread _)
            fun _ => carries_ended hothers _

theorem carries_called (module : ModuleRef) (function : FunctionRef) (args : List Value) :
    (do
      match ← Worker.findModule thread j module with
      | .error cause => return .error cause
      | .ok env => Worker.callNamed thread j env function args : Run L (Answer Value)).Carries
        others call k (Serializer.Settled thread) (Serializer.Inside thread) := by
  have hfind : (Worker.findModule thread j module : Run L _).Carries others call k
      (Serializer.Settled thread) (Serializer.Inside thread) := by
    cases module with
    | environment env => exact carries_ended hothers _
    | name name => exact carries_loadModule hothers hcall none name
  refine carries_bind hothers hfind fun answer => ?_
  cases answer with
  | error cause => exact carries_ended hothers _
  | ok env => exact carries_callNamed hothers hcall env function args

theorem carries_invoke (module : ModuleRef) (function : FunctionRef) (args : List Value) :
    (Worker.invoke thread j module function args : Run L _).Carries others call k
      (Serializer.Settled thread) (Serializer.Inside thread) :=
  carries_serialized hothers
    ((carries_called hothers hcall module function args).mono fun _ => Serializer.Open.settled)

end Operations

end ScriptWorker
