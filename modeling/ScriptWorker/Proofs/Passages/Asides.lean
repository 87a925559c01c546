import ScriptWorker.Proofs.Loading.Requests
import ScriptWorker.Proofs.Passages.Edges

/-!
# Steps that keep contexts and edges

Most steps of the library touch neither serializers nor active workers nor recorded dependencies. A
program that calls code from outside is one of such steps if all the steps of its own are.
-/

namespace ScriptWorker

variable {L : Language}

namespace Program

variable {ω κ : Type} {ρ : κ → Type} {α β : Type} {R : ω → ω → Prop} {callable : κ → Prop}

/-- A program whose own steps are all of a kind, whatever comes of the code that it calls. -/
def OwnSteps (R : ω → ω → Prop) (callable : κ → Prop) : Program ω κ ρ α → Prop
  | ended _ => True
  | step move next => ∀ w, (∀ w', move w = some w' → R w w') ∧ (next w).OwnSteps R callable
  | call callee next => callable callee ∧ ∀ o, (next o).OwnSteps R callable

theorem OwnSteps.thenOutcome {p : Program ω κ ρ β} {f : Outcome β → Program ω κ ρ α}
    (hp : p.OwnSteps R callable) (hf : ∀ o, (f o).OwnSteps R callable) :
    (p.thenOutcome f).OwnSteps R callable := by
  induction p with
  | ended outcome => exact hf outcome
  | step move next ih => exact fun w => ⟨(hp w).1, ih w (hp w).2⟩
  | call callee next ih => exact ⟨hp.1, fun o => ih o (hp.2 o)⟩

theorem OwnSteps.bind {p : Program ω κ ρ β} {f : β → Program ω κ ρ α}
    (hp : p.OwnSteps R callable) (hf : ∀ b, (f b).OwnSteps R callable) :
    (p >>= f).OwnSteps R callable := by
  apply hp.thenOutcome
  intro o
  cases o with
  | done b => exact hf b
  | panic payload => trivial

theorem Moves.ownSteps {p : Program ω κ ρ α} (hp : p.Moves R) : p.OwnSteps R callable := by
  induction p with
  | ended outcome => trivial
  | step move next ih => exact fun w => ⟨(hp w).1, ih w (hp w).2⟩
  | call callee next ih => exact hp.elim

theorem ownSteps_invokeOutside {callee : κ} (h : callable callee) :
    (invokeOutside callee : Program ω κ ρ _).OwnSteps R callable := ⟨h, fun _ => trivial⟩

theorem ownSteps_read (hR : ∀ w, R w w) (f : ω → α) :
    (read f : Program ω κ ρ α).OwnSteps R callable := (moves_read hR f).ownSteps

theorem ownSteps_modify {f : ω → ω} (hf : ∀ w, R w (f w)) :
    (modify f : Program ω κ ρ Unit).OwnSteps R callable := (moves_modify hf).ownSteps

theorem ownSteps_transact {f : ω → α × ω} (hf : ∀ w, R w (f w).2) :
    (transact f : Program ω κ ρ α).OwnSteps R callable := (moves_transact hf).ownSteps

end Program

def Callee.unit? : Callee L → Option UnitId
  | .load _ u _ _ => some u
  | .evaluate _ u _ _ => some u
  | .depend _ u _ => some u
  | _ => none

namespace World

/-- What touches neither serializers nor active workers. -/
structure Level (w w' : World L) : Prop where
  size : w'.workers.size = w.workers.size
  serializer : ∀ k, (w'.worker k).serializer = (w.worker k).serializer
  active : w'.active = w.active

theorem Level.context {w w' : World L} (h : w.Level w') (thread : ThreadId) :
    w'.context thread = w.context thread :=
  context_congr (by rw [h.active]) fun k => by rw [h.serializer]; exact ⟨rfl, rfl⟩

theorem Level.orderly {w w' : World L} (h : w.Level w') (hw : w.Orderly) : w'.Orderly :=
  fun k => by rw [h.serializer]; exact hw k

/-- What moreover records no dependency. -/
structure Aside (w w' : World L) : Prop extends Level w w' where
  gains : w.Gains w' []

theorem level_of_same {w w' : World L} (hworkers : w'.workers = w.workers)
    (hactive : w'.active = w.active) : w.Level w' :=
  ⟨by rw [hworkers], fun k => by unfold worker; rw [hworkers], hactive⟩

theorem aside_of_same {w w' : World L} (hworkers : w'.workers = w.workers)
    (hactive : w'.active = w.active) (hunits : w'.units = w.units) : w.Aside w' :=
  ⟨level_of_same hworkers hactive, gains_of_units hunits⟩

theorem aside_refl (w : World L) : w.Aside w := aside_of_same rfl rfl rfl

theorem aside_modifyWorker (w : World L) (k : WorkerId) {f : Worker → Worker}
    (hf : ∀ x, (f x).serializer = x.serializer) : w.Aside (w.modifyWorker k f) where
  size := by simp
  serializer j := by
    rw [worker_modifyWorker]
    split
    · next h => rw [hf, h.1]
    · rfl
  active := rfl
  gains := gains_of_units rfl

theorem aside_setCompiled (w : World L) (u : UnitId) (body : L.Body) (time : UInt64) :
    w.Aside (w.setCompiled u body time) where
  toLevel := level_of_same rfl rfl
  gains := by
    unfold setCompiled
    refine gains_nil (fun p unit hunit => ?_) fun p unit hunit hnone => ?_ <;> dsimp only at hunit ⊢
    · rw [Table.get?_modify]
      by_cases h : u = p
      · rw [if_pos h, hunit]
        refine ⟨_, rfl, ?_⟩
        dsimp only
        split
        · next hsource => exact ⟨rfl, rfl, fun _ _ hcustom => by rw [hsource] at hcustom; cases hcustom⟩
        · exact ⟨rfl, rfl, fun _ version hcustom => ⟨version, hcustom⟩⟩
      · rw [if_neg h]
        exact ⟨unit, hunit, rfl, rfl, fun _ version hcustom => ⟨version, hcustom⟩⟩
    · rw [Table.get?_modify, hnone] at hunit
      split at hunit <;> cases hunit

theorem aside_scriptFor (w : World L) (r : ResolverId) (resource : Resource) (name : String) :
    w.Aside (w.scriptFor r resource name).2 := by
  unfold scriptFor
  dsimp only
  split
  · exact w.aside_refl
  · refine ⟨level_of_same rfl rfl, gains_nil (fun p unit hunit => ?_) fun p unit hunit hnone => ?_⟩
    · have hlt : p < w.units.size := (List.getElem?_eq_some_iff.1 hunit).1
      refine ⟨unit, ?_, rfl, rfl, fun _ version hcustom => ⟨version, hcustom⟩⟩
      change (w.units.push _).get? p = some unit
      rw [Table.get?_push, if_neg (Nat.ne_of_lt hlt)]
      exact hunit
    · change (w.units.push _).get? p = some unit at hunit
      rw [Table.get?_push] at hunit
      split at hunit
      · cases hunit
        rfl
      · rw [hnone] at hunit
        cases hunit

end World

open World

/-- Steps that keep contexts and edges, on the way calling no code of a unit of the host. -/
abbrev Program.Quiet {α : Type} (p : Run L α) : Prop :=
  p.OwnSteps World.Aside fun callee => callee.unit? = none

section Programs

variable {thread : ThreadId} {k : WorkerId} {u : UnitId}

theorem quiet_read {α : Type} (f : World L → α) :
    (Program.read f : Run L α).Quiet := Program.ownSteps_read aside_refl f

theorem quiet_firstCandidate (tried : List (Repository × String)) :
    (firstCandidate tried : Run L _).Quiet := by
  induction tried with
  | nil => trivial
  | cons attempt rest ih =>
    refine Program.OwnSteps.bind (Program.ownSteps_transact fun w => ?_) fun found => ?_
    · unfold tryCandidate
      split <;> exact aside_of_same rfl rfl rfl
    · cases found with
      | some resource => trivial
      | none => exact ih

theorem quiet_resolve (r : ResolverId) (name : String) (near : Option Repository) :
    (resolve r name near : Run L _).Quiet := by
  refine Program.OwnSteps.bind (quiet_read _) fun kind => ?_
  match kind with
  | none => trivial
  | some (.custom spec) => exact Program.ownSteps_invokeOutside rfl
  | some (.repositories path extension scripts) =>
    refine Program.OwnSteps.bind (quiet_firstCandidate _) fun found => ?_
    cases found with
    | none => trivial
    | some resource =>
      exact Program.OwnSteps.bind
        (Program.ownSteps_transact fun w => w.aside_scriptFor r resource name) fun _ => trivial

theorem quiet_locate (caller : Option EnvironmentId) (name : String) :
    (Worker.locate k caller name : Run L _).Quiet :=
  Program.OwnSteps.bind (quiet_read _) fun _ =>
    Program.OwnSteps.bind (quiet_read _) fun _ => quiet_resolve _ name _

theorem aside_reportError (w : World L) (error : SyntaxError) : w.Aside (w.reportError k error) :=
  w.aside_modifyWorker k fun _ => rfl

theorem aside_modifyCache (w : World L) (k : WorkerId)
    (f : ModuleCache EnvironmentId → ModuleCache EnvironmentId) : w.Aside (w.modifyCache k f) :=
  w.aside_modifyWorker k fun _ => rfl

theorem aside_clearErrors (w : World L) (k : WorkerId) : w.Aside (w.clearErrors k) :=
  w.aside_modifyWorker k fun _ => rfl

theorem aside_stamp (w : World L) (env : EnvironmentId) (sum : UInt64) :
    w.Aside (w.stamp env sum) := aside_of_same rfl rfl rfl

theorem quiet_reportAll (errors : List SyntaxError) :
    (Script.reportAll k errors : Run L _).Quiet := by
  induction errors with
  | nil => trivial
  | cons error rest ih =>
    exact Program.OwnSteps.bind (Program.ownSteps_modify fun w => aside_reportError w error)
      fun _ => ih

theorem quiet_compile (resource : Resource) (time : UInt64) (source : String) :
    (Script.compile k u resource time source : Run L _).Quiet := by
  refine Program.OwnSteps.bind (Program.ownSteps_invokeOutside rfl) fun answer => ?_
  cases answer with
  | ok body =>
    exact Program.OwnSteps.bind (Program.ownSteps_modify fun w => w.aside_setCompiled u body time)
      fun _ => trivial
  | error errors => exact Program.OwnSteps.bind (quiet_reportAll errors) fun _ => trivial

theorem quiet_body (resource : Resource) : (Script.body k u resource : Run L _).Quiet := by
  refine Program.OwnSteps.bind (quiet_read _) fun time =>
    Program.OwnSteps.bind (quiet_read _) fun known => ?_
  cases known with
  | some c => trivial
  | none =>
    refine Program.OwnSteps.bind
      (Program.ownSteps_transact fun w => aside_of_same rfl rfl rfl) fun found => ?_
    cases found with
    | false => exact Program.OwnSteps.bind (quiet_read _) fun _ => trivial
    | true =>
      refine Program.OwnSteps.bind (quiet_read _) fun text => ?_
      cases text with
      | error cause => trivial
      | ok source => exact quiet_compile resource time source

theorem quiet_build (resource : Resource) (code : L.Body) (time : UInt64) :
    (Script.build k u resource code time : Run L _).Quiet := by
  refine Program.OwnSteps.bind (Program.ownSteps_transact fun w => aside_of_same rfl rfl rfl) fun env =>
    Program.OwnSteps.bind (Program.ownSteps_modify fun w => aside_modifyCache w k _) fun _ =>
      Program.OwnSteps.bind (Program.ownSteps_invokeOutside rfl) fun answer => ?_
  cases answer with
  | error cause => trivial
  | ok value =>
    exact Program.OwnSteps.bind (Program.ownSteps_modify fun w => aside_stamp w env _) fun _ => trivial

theorem quiet_scriptLoad (resource : Resource) (existing : Option EnvironmentId) :
    (Script.load k u resource existing : Run L _).Quiet := by
  refine Program.OwnSteps.bind (quiet_read _) fun fresh => ?_
  cases fresh with
  | some env =>
    exact Program.OwnSteps.bind (Program.ownSteps_modify fun w => aside_modifyCache w k _)
      fun _ => trivial
  | none =>
    refine Program.OwnSteps.bind (quiet_body resource) fun answer => ?_
    cases answer with
    | error cause => trivial
    | ok found => exact quiet_build resource found.1 found.2

theorem quiet_scriptEvaluate (resource : Resource) (env : EnvironmentId) :
    (Script.evaluate k u resource env : Run L _).Quiet := by
  refine Program.OwnSteps.bind (quiet_body resource) fun answer => ?_
  cases answer with
  | error cause => trivial
  | ok found =>
    refine Program.OwnSteps.bind (Program.ownSteps_invokeOutside rfl) fun value => ?_
    cases value with
    | error cause => trivial
    | ok value =>
      refine Program.OwnSteps.bind (quiet_read _) fun isModule => ?_
      cases isModule with
      | false => trivial
      | true =>
        exact Program.OwnSteps.bind (Program.ownSteps_modify fun w => aside_stamp w env _)
          fun _ => trivial

end Programs

def Request.IsQuiet : Request L → Prop
  | .loadModule .. => False
  | .invoke .. => False
  | .evaluate .. => False
  | .recordDependency .. => False
  | _ => True

theorem quiet_answer {interpreter : Interpreter L} {thread : ThreadId} {request : Request L}
    (h : request.IsQuiet) : (interpreter.answer thread request).Quiet := by
  have hscheduler : ∀ (w : World L) s, w.Aside (w.withScheduler s) :=
    fun w s => aside_of_same rfl rfl rfl
  cases request with
  | setProperty env name value => exact Program.ownSteps_modify fun w => aside_of_same rfl rfl rfl
  | newModule name key => exact Program.ownSteps_transact fun w => aside_of_same rfl rfl rfl
  | newFunction name closure => exact Program.ownSteps_transact fun w => aside_of_same rfl rfl rfl
  | newWrapper inner => exact Program.ownSteps_transact fun w => aside_of_same rfl rfl rfl
  | newHostObject payload => exact Program.ownSteps_transact fun w => aside_of_same rfl rfl rfl
  | stamp env sum => exact Program.ownSteps_modify fun w => aside_stamp w env sum
  | resolve k caller name => exact quiet_locate caller name
  | markChecked k key env => exact Program.ownSteps_modify fun w => aside_modifyCache w k _
  | report k error => exact Program.ownSteps_modify fun w => aside_reportError w error
  | currentScript k =>
    refine (Program.moves_await fun w a w' hfound => ?_).ownSteps
    obtain ⟨script, -, hpair⟩ := Option.map_eq_some_iff.1 hfound
    cases hpair
    exact w.aside_refl
  | schedule k module function args timing =>
    exact (moves_schedule (fun w jobs => aside_of_same rfl rfl rfl) hscheduler k module function args
      timing).ownSteps
  | cancel k task => exact Program.OwnSteps.bind (quiet_read _) fun _ => (moves_perform hscheduler _).ownSteps
  | cancelOn l task => exact Program.OwnSteps.bind (quiet_read _) fun _ => (moves_perform hscheduler _).ownSteps
  | edit repository change =>
    exact (moves_edit (fun w storage => aside_of_same rfl rfl rfl) repository change).ownSteps
  | sleep length =>
    exact Program.OwnSteps.bind
      (moves_waitAtMost (fun w alarms => aside_of_same rfl rfl rfl) length _).ownSteps fun _ => trivial
  | effect effect =>
    refine (Program.moves_await fun w a w' hfound => ?_).ownSteps
    obtain ⟨⟨notice, state⟩, -, hpair⟩ := Option.map_eq_some_iff.1 hfound
    cases hpair
    exact aside_of_same rfl rfl rfl
  | loadModule k caller name => exact h.elim
  | invoke k module function args => exact h.elim
  | evaluate k u env => exact h.elim
  | recordDependency u dependency => exact h.elim
  | _ => exact quiet_read _

end ScriptWorker
