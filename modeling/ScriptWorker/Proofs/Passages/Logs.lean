import ScriptWorker.Proofs.Runs

/-!
# Operations and their passages

Calls of functions, loads of modules and evaluations of scripts go on inside each other, on one
worker or on several. A passage keeps the world in which an operation was entered and the one in which
it was left. The programs here are those of the library with a log beside the world, in which every
operation notes its passage when it is left. Nothing reads the log: without it the runs are those of
the library.
-/

namespace ScriptWorker

open Relation

/-- What an operation on a worker is for. -/
inductive Errand where
  | invoke
  | load (unit : Option UnitId)
  | evaluate (unit : UnitId)

def Errand.unit? : Errand → Option UnitId
  | invoke => none
  | load unit => unit
  | evaluate unit => some unit

/-- An operation that was entered and left. -/
structure Passage (L : Language) where
  worker : WorkerId
  errand : Errand
  before : World L
  after : World L
  returned : Bool

def Outcome.returned {α : Type} : Outcome α → Bool
  | .done _ => true
  | .panic _ => false

/-- A world with the passages of the operations that were left, in the order in which they were. -/
abbrev Logged (L : Language) := World L × List (Passage L)

/-- Programs on the shared world with a log. -/
abbrev LoggedRun (L : Language) (α : Type) := Program (Logged L) (Callee L) Callee.Result α

namespace Program

variable {ω σ κ : Type} {ρ : κ → Type} {α β : Type}

def beside (σ : Type) : Program ω κ ρ α → Program (ω × σ) κ ρ α
  | ended outcome => ended outcome
  | step move next => step (fun a => (move a.1).map fun w => (w, a.2)) fun a => (next a.1).beside σ
  | call callee next => call callee fun outcome => (next outcome).beside σ

theorem beside_thenOutcome (p : Program ω κ ρ α) (f : Outcome α → Program ω κ ρ β) :
    (p.thenOutcome f).beside σ = (p.beside σ).thenOutcome fun o => (f o).beside σ := by
  induction p with
  | ended outcome => rfl
  | step move next ih => exact congrArg (step _) (funext fun a => ih a.1)
  | call callee next ih => exact congrArg (call callee) (funext ih)

theorem beside_bind (p : Program ω κ ρ α) (f : α → Program ω κ ρ β) :
    (p >>= f).beside σ = p.beside σ >>= fun a => (f a).beside σ := by
  refine (beside_thenOutcome p _).trans (congrArg (thenOutcome _) (funext fun o => ?_))
  cases o <;> rfl

theorem beside_thenAlways (p : Program ω κ ρ α) (cleanup : Program ω κ ρ Unit) :
    (p.thenAlways cleanup).beside σ = (p.beside σ).thenAlways (cleanup.beside σ) :=
  (beside_thenOutcome p _).trans
    (congrArg (thenOutcome _) (funext fun o => beside_bind cleanup fun _ => ended o))

end Program

def Logged.Moves {L : Language} (others : World L → World L → Prop) (a b : Logged L) : Prop :=
  others a.1 b.1 ∧ b.2 = a.2

namespace LoggedRun

variable {L : Language} {α : Type}

def plain (p : Run L α) : LoggedRun L α := p.beside (List (Passage L))

/-- Note the passage of an operation once it is left, however that is. -/
def noting (k : WorkerId) (errand : Errand) (before : World L) (p : LoggedRun L α) :
    LoggedRun L α :=
  p.thenOutcome fun o => do
    Program.modify fun a => (a.1, a.2 ++ [⟨k, errand, before, a.1, o.returned⟩])
    Program.ended o

variable (thread : ThreadId)

def loads (k : WorkerId) (caller : Option EnvironmentId) (name : String) :
    LoggedRun L (Answer EnvironmentId) := do
  let before ← Program.read Prod.fst
  (plain (Worker.locate k caller name)).thenOutcome fun
    | .done (.ok u) => noting k (.load (some u)) before (plain (Worker.loadUnit thread k u))
    | .done (.error cause) => noting k (.load none) before (pure (.error cause))
    | .panic payload => noting k (.load none) before (Program.panic payload)

def finds (k : WorkerId) : ModuleRef → LoggedRun L (Answer EnvironmentId)
  | .environment env => pure (.ok env)
  | .name name => loads thread k none name

def invokes (k : WorkerId) (module : ModuleRef) (function : FunctionRef) (args : List Value) :
    LoggedRun L (Answer Value) := do
  let before ← Program.read Prod.fst
  noting k .invoke before do
    let _ ← plain (Worker.enter thread k)
    Program.thenAlways
      (do
        match ← finds thread k module with
        | .error cause => return .error cause
        | .ok env => plain (Worker.callNamed thread k env function args))
      (plain (Program.modify fun w => w.leave k))

def evaluates (k : WorkerId) (u : UnitId) (env : EnvironmentId) : LoggedRun L (Answer Value) := do
  let before ← Program.read Prod.fst
  noting k (.evaluate u) before (plain (Worker.evaluateScript thread k u env))

end LoggedRun

namespace Interpreter

variable {L : Language} {α : Type} (interpreter : Interpreter L) (thread : ThreadId)

def loggedAnswer : (request : Request L) → LoggedRun L request.Reply
  | .loadModule k caller name => LoggedRun.loads thread k caller name
  | .invoke k module function args => LoggedRun.invokes thread k module function args
  | .evaluate k u env => LoggedRun.evaluates thread k u env
  | request => LoggedRun.plain (interpreter.answer thread request)

def logged : Code L α → LoggedRun L α
  | .ended outcome => .ended outcome
  | .ask request next =>
    (interpreter.loggedAnswer thread request).thenOutcome fun outcome => logged (next outcome)

variable (others : World L → World L → Prop)

def loggedComesTo : (depth : Nat) → (callee : Callee L) → Logged L → Outcome callee.Result →
    Logged L → List Empty → Prop
  | 0, _ => fun _ _ _ _ => False
  | depth + 1, callee =>
    (interpreter.logged thread (interpreter.code callee)).Runs (Logged.Moves others)
      (loggedComesTo depth)

end Interpreter

/-! ## Without the log -/

section Erasure

variable {L : Language} {α β ε : Type} {others : World L → World L → Prop}
  {call : (callee : Callee L) → World L → Outcome callee.Result → World L → List ε → Prop}
  {loggedCall : (callee : Callee L) → Logged L → Outcome callee.Result → Logged L → List ε → Prop}
  {thread : ThreadId}

theorem logged_moves_iff {w v : World L} {log log' : List (Passage L)} :
    ReflTransGen (Logged.Moves others) (w, log) (v, log') ↔
      ReflTransGen others w v ∧ log' = log := by
  constructor
  · intro h
    have hmoves : ∀ {a b : Logged L}, ReflTransGen (Logged.Moves others) a b →
        ReflTransGen others a.1 b.1 ∧ b.2 = a.2 := by
      intro a b h
      induction h with
      | refl => exact ⟨.refl, rfl⟩
      | tail _ hstep ih => exact ⟨ih.1.tail hstep.1, hstep.2.trans ih.2⟩
    exact hmoves h
  · rintro ⟨h, rfl⟩
    exact h.lift (fun v => (v, log')) fun _ _ hstep => ⟨hstep, rfl⟩

variable (others call loggedCall) in
/-- A program with a log has the runs of another one without. -/
def Erases (q : LoggedRun L α) (p : Run L α) : Prop :=
  ∀ w log o w' t, (∃ log', q.Runs (Logged.Moves others) loggedCall (w, log) o (w', log') t) ↔
    p.Runs others call w o w' t

theorem erases_ended (o : Outcome α) :
    Erases others call loggedCall (.ended o) (.ended o : Run L α) := by
  intro w log o' w' t
  constructor
  · rintro ⟨log', hmoves, h⟩
    exact ⟨(logged_moves_iff.1 hmoves).1, h⟩
  · rintro ⟨hmoves, h⟩
    exact ⟨log, logged_moves_iff.2 ⟨hmoves, rfl⟩, h⟩

theorem Erases.thenOutcome {q : LoggedRun L β} {p : Run L β} {g : Outcome β → LoggedRun L α}
    {f : Outcome β → Run L α} (hq : Erases others call loggedCall q p)
    (hg : ∀ o, Erases others call loggedCall (g o) (f o)) :
    Erases others call loggedCall (q.thenOutcome g) (p.thenOutcome f) := by
  intro w log o w' t
  rw [Program.runs_thenOutcome]
  constructor
  · rintro ⟨log', h⟩
    obtain ⟨o₁, ⟨v, log₁⟩, t₁, t₂, hfirst, hrest, rfl⟩ := Program.runs_thenOutcome.1 h
    exact ⟨o₁, v, t₁, t₂, (hq w log o₁ v t₁).1 ⟨log₁, hfirst⟩,
      (hg o₁ v log₁ o w' t₂).1 ⟨log', hrest⟩, rfl⟩
  · rintro ⟨o₁, v, t₁, t₂, hfirst, hrest, rfl⟩
    obtain ⟨log₁, hfirst⟩ := (hq w log o₁ v t₁).2 hfirst
    obtain ⟨log', hrest⟩ := (hg o₁ v log₁ o w' t₂).2 hrest
    exact ⟨log', Program.runs_thenOutcome.2 ⟨o₁, (v, log₁), t₁, t₂, hfirst, hrest, rfl⟩⟩

theorem Erases.bind {q : LoggedRun L β} {p : Run L β} {g : β → LoggedRun L α} {f : β → Run L α}
    (hq : Erases others call loggedCall q p)
    (hg : ∀ b, Erases others call loggedCall (g b) (f b)) :
    Erases others call loggedCall (q >>= g) (p >>= f) := by
  apply hq.thenOutcome
  intro o
  cases o with
  | done b => exact hg b
  | panic payload => exact erases_ended _

theorem Erases.afterLook {f : Logged L → β} {q : β → LoggedRun L α} {p : Run L α}
    (hq : ∀ b, Erases others call loggedCall (q b) p) :
    Erases others call loggedCall (Program.read f >>= q) p := by
  intro w log o w' t
  constructor
  · rintro ⟨log', h⟩
    obtain ⟨⟨v, log₁⟩, hmoves, hrest⟩ := Program.runs_read_bind.1 h
    obtain ⟨hothers, rfl⟩ := logged_moves_iff.1 hmoves
    exact ((hq _ v log₁ o w' t).1 ⟨log', hrest⟩).after hothers
  · intro h
    obtain ⟨log', hrest⟩ := (hq _ w log o w' t).2 h
    exact ⟨log', Program.runs_read_bind.2 ⟨(w, log), .refl, hrest⟩⟩

theorem Erases.noting {k : WorkerId} {errand : Errand} {before : World L} {q : LoggedRun L α}
    {p : Run L α} (hq : Erases others call loggedCall q p) :
    Erases others call loggedCall (q.noting k errand before) p := by
  intro w log o w' t
  constructor
  · rintro ⟨log', h⟩
    obtain ⟨o₁, ⟨v, log₁⟩, t₁, t₂, hfirst, hrest, rfl⟩ := Program.runs_thenOutcome.1 h
    obtain ⟨⟨v', log₂⟩, hmoves, hmoves', rfl, rfl⟩ := Program.runs_modify_bind.1 hrest
    have hothers := (logged_moves_iff.1 hmoves).1.trans (logged_moves_iff.1 hmoves').1
    rw [List.append_nil]
    exact ((hq w log o v t₁).1 ⟨log₁, hfirst⟩).before hothers
  · intro h
    obtain ⟨log₁, hfirst⟩ := (hq w log o w' t).2 h
    refine ⟨log₁ ++ [⟨k, errand, before, w', o.returned⟩],
      Program.runs_thenOutcome.2 ⟨o, (w', log₁), t, [], hfirst, ?_, by simp⟩⟩
    exact Program.runs_modify_bind.2 ⟨(w', log₁), .refl, .refl, rfl, rfl⟩

section Operations

variable (hcall : ∀ callee w log o w' t,
  (∃ log', loggedCall callee (w, log) o (w', log') t) ↔ call callee w o w' t)
include hcall

theorem erases_plain (p : Run L α) : Erases others call loggedCall (LoggedRun.plain p) p := by
  induction p with
  | ended outcome => exact erases_ended outcome
  | step move next ih =>
    intro w log o w' t
    constructor
    · rintro ⟨log', ⟨v, log₁⟩, ⟨v', log₂⟩, hmoves, hmove, hrest⟩
      obtain ⟨hothers, rfl⟩ := logged_moves_iff.1 hmoves
      obtain ⟨v'', hmoved, hpair⟩ := Option.map_eq_some_iff.1 hmove
      cases hpair
      exact ⟨v, v', hothers, hmoved, (ih v v' log₁ o w' t).1 ⟨log', hrest⟩⟩
    · rintro ⟨v, v', hothers, hmove, hrest⟩
      obtain ⟨log', hrest⟩ := (ih v v' log o w' t).2 hrest
      have hmoved : (move v).map (fun w => (w, log)) = some (v', log) := by rw [hmove]; rfl
      exact ⟨log', (v, log), (v', log), logged_moves_iff.2 ⟨hothers, rfl⟩, hmoved, hrest⟩
  | call callee next ih =>
    intro w log o w' t
    constructor
    · rintro ⟨log', ⟨v, log₁⟩, o₁, ⟨v', log₂⟩, t₁, t₂, hmoves, hfirst, hrest, rfl⟩
      obtain ⟨hothers, rfl⟩ := logged_moves_iff.1 hmoves
      exact ⟨v, o₁, v', t₁, t₂, hothers, (hcall callee v log₁ o₁ v' t₁).1 ⟨log₂, hfirst⟩,
        (ih o₁ v' log₂ o w' t₂).1 ⟨log', hrest⟩, rfl⟩
    · rintro ⟨v, o₁, v', t₁, t₂, hothers, hfirst, hrest, rfl⟩
      obtain ⟨log₂, hfirst⟩ := (hcall callee v log o₁ v' t₁).2 hfirst
      obtain ⟨log', hrest⟩ := (ih o₁ v' log₂ o w' t₂).2 hrest
      exact ⟨log', (v, log), o₁, (v', log₂), t₁, t₂, logged_moves_iff.2 ⟨hothers, rfl⟩, hfirst,
        hrest, rfl⟩

theorem erases_loads (k : WorkerId) (caller : Option EnvironmentId) (name : String) :
    Erases others call loggedCall (LoggedRun.loads thread k caller name)
      (Worker.loadModule thread k caller name) := by
  refine Erases.afterLook fun before => (erases_plain hcall _).thenOutcome fun o => ?_
  match o with
  | .done (.ok u) => exact (erases_plain hcall _).noting
  | .done (.error cause) => exact (erases_ended _).noting
  | .panic payload => exact (erases_ended _).noting

theorem erases_finds (k : WorkerId) (module : ModuleRef) :
    Erases others call loggedCall (LoggedRun.finds thread k module)
      (Worker.findModule thread k module) := by
  cases module with
  | environment env => exact erases_ended _
  | name name => exact erases_loads hcall k none name

theorem erases_invokes (k : WorkerId) (module : ModuleRef) (function : FunctionRef)
    (args : List Value) :
    Erases others call loggedCall (LoggedRun.invokes thread k module function args)
      (Worker.invoke thread k module function args) := by
  refine Erases.afterLook fun before => Erases.noting ?_
  refine (erases_plain hcall _).bind fun _ => Erases.thenOutcome ?_ fun o =>
    (erases_plain hcall _).bind fun _ => erases_ended o
  refine (erases_finds hcall k module).bind fun answer => ?_
  cases answer with
  | error cause => exact erases_ended _
  | ok env => exact erases_plain hcall _

theorem erases_loggedAnswer (interpreter : Interpreter L) (request : Request L) :
    Erases others call loggedCall (interpreter.loggedAnswer thread request)
      (interpreter.answer thread request) := by
  cases request with
  | loadModule k caller name => exact erases_loads hcall k caller name
  | invoke k module function args => exact erases_invokes hcall k module function args
  | evaluate k u env => exact Erases.afterLook fun before => (erases_plain hcall _).noting
  | _ => exact erases_plain hcall _

theorem erases_logged (interpreter : Interpreter L) (code : Code L α) :
    Erases others call loggedCall (interpreter.logged thread code)
      (interpreter.run thread code) := by
  induction code with
  | ended outcome => exact erases_ended outcome
  | ask request next ih => exact (erases_loggedAnswer hcall interpreter request).thenOutcome ih

end Operations

/-- Whatever comes of a call comes of it with a log, and the other way round. -/
theorem Interpreter.loggedComesTo_iff (interpreter : Interpreter L) (depth : Nat)
    (callee : Callee L) (w : World L) (log : List (Passage L)) (o : Outcome callee.Result)
    (w' : World L) (t : List Empty) :
    (∃ log', interpreter.loggedComesTo thread others depth callee (w, log) o (w', log') t) ↔
      interpreter.comesTo thread others depth callee w o w' t := by
  induction depth generalizing callee w log o w' t with
  | zero => exact ⟨fun ⟨_, h⟩ => h.elim, False.elim⟩
  | succ depth ih => exact erases_logged ih interpreter (interpreter.code callee) w log o w' t

/-- With a log a piece of code has the runs that it has without. -/
theorem Interpreter.runs_logged_iff (interpreter : Interpreter L) (depth : Nat) (code : Code L α)
    {w w' : World L} {o : Outcome α} {t : List Empty} :
    (∃ log, (interpreter.logged thread code).Runs (Logged.Moves others)
        (interpreter.loggedComesTo thread others depth) (w, []) o (w', log) t) ↔
      (interpreter.run thread code).Runs others (interpreter.comesTo thread others depth) w o w' t :=
  erases_logged (interpreter.loggedComesTo_iff depth) interpreter code w [] o w' t

end Erasure

end ScriptWorker
