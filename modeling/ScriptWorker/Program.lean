import ScriptWorker.Failure

/-!
# Programs

What a thread still has to do, as a tree of atomic steps on a shared world. A step may have to wait;
after it the program goes on with what the step saw. Between two steps other threads may move. A
call hands over to code from outside, whose outcome, a panic included, comes back to the caller.
-/

namespace ScriptWorker

/-- Programs over worlds `ω` that call code named by `κ`, with results of the types `ρ`. -/
inductive Program (ω κ : Type) (ρ : κ → Type) (α : Type) where
  | ended (outcome : Outcome α)
  /-- `move` is the change of the world, or `none` while the step has to wait; `next` is computed
  from the world before the change. -/
  | step (move : ω → Option ω) (next : ω → Program ω κ ρ α)
  | call (callee : κ) (next : Outcome (ρ callee) → Program ω κ ρ α)

namespace Program

variable {ω κ : Type} {ρ : κ → Type} {α β : Type}

def thenOutcome : Program ω κ ρ α → (Outcome α → Program ω κ ρ β) → Program ω κ ρ β
  | ended outcome, f => f outcome
  | step move next, f => step move fun w => (next w).thenOutcome f
  | call callee next, f => call callee fun outcome => (next outcome).thenOutcome f

/-- Go on with the result of a program; a panic ends both. -/
def bind (p : Program ω κ ρ α) (f : α → Program ω κ ρ β) : Program ω κ ρ β :=
  p.thenOutcome fun
    | .done a => f a
    | .panic payload => ended (.panic payload)

instance : Monad (Program ω κ ρ) where
  pure a := ended (.done a)
  bind := bind

def panic (payload : Option String) : Program ω κ ρ α := ended (.panic payload)

def thenAlways (p : Program ω κ ρ α) (cleanup : Program ω κ ρ Unit) : Program ω κ ρ α :=
  p.thenOutcome fun outcome => cleanup.bind fun _ => ended outcome

/-- The outcome of a program as its result: a panic stops here. -/
def caught (p : Program ω κ ρ α) : Program ω κ ρ (Outcome α) :=
  p.thenOutcome fun outcome => ended (.done outcome)

def await (f : ω → Option (α × ω)) : Program ω κ ρ α :=
  step (fun w => (f w).map Prod.snd) fun w =>
    match f w with
    | some (a, _) => pure a
    | none => panic none

def transact (f : ω → α × ω) : Program ω κ ρ α :=
  step (fun w => some (f w).2) fun w => pure (f w).1

def modify (f : ω → ω) : Program ω κ ρ Unit :=
  step (fun w => some (f w)) fun _ => pure ()

def read (f : ω → α) : Program ω κ ρ α := step some fun w => pure (f w)

/-- Run code from outside; its panic goes on. -/
def invokeOutside (callee : κ) : Program ω κ ρ (ρ callee) := call callee ended

@[simp] theorem ended_thenOutcome (o : Outcome α) (f : Outcome α → Program ω κ ρ β) :
    (ended o).thenOutcome f = f o := rfl

theorem thenOutcome_assoc {γ : Type} (p : Program ω κ ρ α) (f : Outcome α → Program ω κ ρ β)
    (g : Outcome β → Program ω κ ρ γ) :
    (p.thenOutcome f).thenOutcome g = p.thenOutcome fun o => (f o).thenOutcome g := by
  induction p with
  | ended o => rfl
  | step move next ih => simp only [thenOutcome]; congr; funext w; exact ih w
  | call callee next ih => simp only [thenOutcome]; congr; funext o; exact ih o

theorem thenOutcome_ended (p : Program ω κ ρ α) : p.thenOutcome ended = p := by
  induction p with
  | ended o => rfl
  | step move next ih => simp only [thenOutcome]; congr; funext w; exact ih w
  | call callee next ih => simp only [thenOutcome]; congr; funext o; exact ih o

instance : LawfulMonad (Program ω κ ρ) :=
  have id_map {α : Type} (p : Program ω κ ρ α) : id <$> p = p := by
    refine Eq.trans (congrArg p.thenOutcome (funext fun o => ?_)) p.thenOutcome_ended
    cases o <;> rfl
  have bind_assoc {α β γ : Type} (p : Program ω κ ρ α) (f : α → Program ω κ ρ β)
      (g : β → Program ω κ ρ γ) : p >>= f >>= g = p >>= fun a => f a >>= g := by
    refine (thenOutcome_assoc ..).trans (congrArg p.thenOutcome (funext fun o => ?_))
    cases o <;> rfl
  LawfulMonad.mk' _ id_map (fun _ _ => rfl) bind_assoc

end Program

end ScriptWorker
