import Mathlib.Logic.Relation
import ScriptWorker.Execution.Requests

/-!
# Runs of programs

What one thread's program may come to, as a relation between the world it starts in, its outcome and
the world it leaves. Between two steps other threads may make moves of their own. Code from outside
runs inside the call that needs it, so a run is cut along the calls that it makes.
-/

namespace ScriptWorker

open Relation

namespace Program

variable {ω κ ε : Type} {ρ : κ → Type} {α β : Type}

/-- The runs of a program from a world to an outcome, another world, and the list of what shows on
the way. `others` are the moves of other threads, and `call` gives the runs of code from outside. -/
def Runs (others : ω → ω → Prop)
    (call : (callee : κ) → ω → Outcome (ρ callee) → ω → List ε → Prop) :
    Program ω κ ρ α → ω → Outcome α → ω → List ε → Prop
  | ended outcome, w, o, w', t => ReflTransGen others w w' ∧ o = outcome ∧ t = []
  | step move next, w, o, w', t =>
    ∃ v v', ReflTransGen others w v ∧ move v = some v' ∧ Runs others call (next v) v' o w' t
  | .call callee next, w, o, w', t =>
    ∃ v o₁ v' t₁ t₂, ReflTransGen others w v ∧ call callee v o₁ v' t₁ ∧
      Runs others call (next o₁) v' o w' t₂ ∧ t = t₁ ++ t₂

section Steps

variable {returns : (callee : κ) → Outcome (ρ callee) → Prop} {w v : ω}

/-- A step of a program; code from outside comes back with something that may come of it. -/
inductive Takes (returns : (callee : κ) → Outcome (ρ callee) → Prop) :
    Program ω κ ρ α → ω → Program ω κ ρ α → ω → Prop
  | step {move : ω → Option ω} {next : ω → Program ω κ ρ α} {w v : ω} : move w = some v →
    Takes returns (.step move next) w (next w) v
  | call {callee : κ} {next : Outcome (ρ callee) → Program ω κ ρ α} {outcome : Outcome (ρ callee)}
    {w : ω} : returns callee outcome → Takes returns (.call callee next) w (next outcome) w

theorem takes_step {move : ω → Option ω} {next : ω → Program ω κ ρ α} {q : Program ω κ ρ α} :
    (Program.step move next).Takes returns w q v ↔ move w = some v ∧ q = next w := by
  constructor
  · rintro ⟨hmove⟩
    exact ⟨hmove, rfl⟩
  · rintro ⟨hmove, rfl⟩
    exact .step hmove

end Steps

section Rules

variable {others : ω → ω → Prop}
  {call : (callee : κ) → ω → Outcome (ρ callee) → ω → List ε → Prop}
  {w v w' : ω} {o : Outcome α} {t : List ε}

/-- What others do before the first step belongs to the run. -/
theorem Runs.after {p : Program ω κ ρ α} (h : p.Runs others call v o w' t)
    (hwv : ReflTransGen others w v) : p.Runs others call w o w' t := by
  cases p with
  | ended outcome => exact ⟨hwv.trans h.1, h.2⟩
  | step move next =>
    obtain ⟨u, u', hu, hmove, hrest⟩ := h
    exact ⟨u, u', hwv.trans hu, hmove, hrest⟩
  | call callee next =>
    obtain ⟨u, o₁, u', t₁, t₂, hu, hcall, hrest, ht⟩ := h
    exact ⟨u, o₁, u', t₁, t₂, hwv.trans hu, hcall, hrest, ht⟩

theorem Runs.before {p : Program ω κ ρ α} (h : p.Runs others call w o v t)
    (hvw : ReflTransGen others v w') : p.Runs others call w o w' t := by
  induction p generalizing w t with
  | ended outcome => exact ⟨h.1.trans hvw, h.2⟩
  | step move next ih =>
    obtain ⟨u, u', hu, hmove, hrest⟩ := h
    exact ⟨u, u', hu, hmove, ih u hrest⟩
  | call callee next ih =>
    obtain ⟨u, o₁, u', t₁, t₂, hu, hcall, hrest, ht⟩ := h
    exact ⟨u, o₁, u', t₁, t₂, hu, hcall, ih o₁ hrest, ht⟩

theorem runs_thenOutcome {p : Program ω κ ρ β} {f : Outcome β → Program ω κ ρ α} :
    (p.thenOutcome f).Runs others call w o w' t ↔
      ∃ o₁ v t₁ t₂, p.Runs others call w o₁ v t₁ ∧ (f o₁).Runs others call v o w' t₂ ∧
        t = t₁ ++ t₂ := by
  induction p generalizing w t with
  | ended outcome =>
    constructor
    · intro h
      exact ⟨outcome, w, [], t, ⟨.refl, rfl, rfl⟩, h, rfl⟩
    · rintro ⟨o₁, v, t₁, t₂, ⟨hv, rfl, rfl⟩, hf, rfl⟩
      exact hf.after hv
  | step move next ih =>
    constructor
    · rintro ⟨u, u', hu, hmove, hrest⟩
      obtain ⟨o₁, v, t₁, t₂, hp, hf, rfl⟩ := (ih u).1 hrest
      exact ⟨o₁, v, t₁, t₂, ⟨u, u', hu, hmove, hp⟩, hf, rfl⟩
    · rintro ⟨o₁, v, t₁, t₂, ⟨u, u', hu, hmove, hp⟩, hf, rfl⟩
      exact ⟨u, u', hu, hmove, (ih u).2 ⟨o₁, v, t₁, t₂, hp, hf, rfl⟩⟩
  | call callee next ih =>
    constructor
    · rintro ⟨u, o₀, u', t₀, t', hu, hcall, hrest, rfl⟩
      obtain ⟨o₁, v, t₁, t₂, hp, hf, rfl⟩ := (ih o₀).1 hrest
      exact ⟨o₁, v, t₀ ++ t₁, t₂, ⟨u, o₀, u', t₀, t₁, hu, hcall, hp, rfl⟩, hf, by simp⟩
    · rintro ⟨o₁, v, t₁, t₂, ⟨u, o₀, u', t₀, t', hu, hcall, hp, rfl⟩, hf, rfl⟩
      exact ⟨u, o₀, u', t₀, t' ++ t₂, hu, hcall, (ih o₀).2 ⟨o₁, v, t', t₂, hp, hf, rfl⟩, by simp⟩

theorem runs_bind {p : Program ω κ ρ β} {f : β → Program ω κ ρ α} :
    (p >>= f).Runs others call w o w' t ↔
      (∃ b v t₁ t₂, p.Runs others call w (.done b) v t₁ ∧ (f b).Runs others call v o w' t₂ ∧
        t = t₁ ++ t₂) ∨
      ∃ payload v, p.Runs others call w (.panic payload) v t ∧ ReflTransGen others v w' ∧
        o = .panic payload := by
  change (p.thenOutcome _).Runs others call w o w' t ↔ _
  rw [runs_thenOutcome]
  constructor
  · rintro ⟨o₁, v, t₁, t₂, hp, hf, rfl⟩
    cases o₁ with
    | done b => exact .inl ⟨b, v, t₁, t₂, hp, hf, rfl⟩
    | panic payload =>
      obtain ⟨hv, rfl, rfl⟩ := hf
      exact .inr ⟨payload, v, by simpa using hp, hv, rfl⟩
  · rintro (⟨b, v, t₁, t₂, hp, hf, rfl⟩ | ⟨payload, v, hp, hv, rfl⟩)
    · exact ⟨.done b, v, t₁, t₂, hp, hf, rfl⟩
    · exact ⟨.panic payload, v, t, [], hp, ⟨hv, rfl, rfl⟩, by simp⟩

theorem runs_pure {a : α} :
    (pure a : Program ω κ ρ α).Runs others call w o w' t ↔
      ReflTransGen others w w' ∧ o = .done a ∧ t = [] := Iff.rfl

theorem runs_read_bind {f : ω → β} {g : β → Program ω κ ρ α} :
    (Program.read f >>= g).Runs others call w o w' t ↔
      ∃ v, ReflTransGen others w v ∧ (g (f v)).Runs others call v o w' t := by
  change (∃ v v', _ ∧ some v = some v' ∧ _) ↔ _
  constructor
  · rintro ⟨v, v', hv, hv', hrest⟩
    cases hv'
    exact ⟨v, hv, hrest⟩
  · rintro ⟨v, hv, hrest⟩
    exact ⟨v, v, hv, rfl, hrest⟩

theorem runs_modify_bind {f : ω → ω} {g : Unit → Program ω κ ρ α} :
    (Program.modify f >>= g).Runs others call w o w' t ↔
      ∃ v, ReflTransGen others w v ∧ (g ()).Runs others call (f v) o w' t := by
  change (∃ v v', _ ∧ some (f v) = some v' ∧ _) ↔ _
  constructor
  · rintro ⟨v, v', hv, hv', hrest⟩
    cases hv'
    exact ⟨v, hv, hrest⟩
  · rintro ⟨v, hv, hrest⟩
    exact ⟨v, f v, hv, rfl, hrest⟩

theorem runs_transact_bind {f : ω → β × ω} {g : β → Program ω κ ρ α} :
    (Program.transact f >>= g).Runs others call w o w' t ↔
      ∃ v, ReflTransGen others w v ∧ (g (f v).1).Runs others call (f v).2 o w' t := by
  change (∃ v v', _ ∧ some (f v).2 = some v' ∧ _) ↔ _
  constructor
  · rintro ⟨v, v', hv, hv', hrest⟩
    cases hv'
    exact ⟨v, hv, hrest⟩
  · rintro ⟨v, hv, hrest⟩
    exact ⟨v, (f v).2, hv, rfl, hrest⟩

theorem runs_await_bind {f : ω → Option (β × ω)} {g : β → Program ω κ ρ α} :
    (Program.await f >>= g).Runs others call w o w' t ↔
      ∃ v b v', ReflTransGen others w v ∧ f v = some (b, v') ∧
        (g b).Runs others call v' o w' t := by
  change (∃ v v', _ ∧ (f v).map Prod.snd = some v' ∧ _) ↔ _
  constructor
  · rintro ⟨v, v', hv, hmove, hrest⟩
    cases hf : f v with
    | none => simp [hf] at hmove
    | some found =>
      obtain ⟨b, u⟩ := found
      simp only [hf, Option.map_some, Option.some.injEq] at hmove hrest
      subst hmove
      exact ⟨v, b, u, hv, hf, hrest⟩
  · rintro ⟨v, b, v', hv, hf, hrest⟩
    refine ⟨v, v', hv, by simp [hf], ?_⟩
    simp only [hf]
    exact hrest

theorem runs_invokeOutside_bind {callee : κ} {g : ρ callee → Program ω κ ρ α} :
    (Program.invokeOutside callee >>= g).Runs others call w o w' t ↔
      ∃ v o₁ v' t₁ t₂, ReflTransGen others w v ∧ call callee v o₁ v' t₁ ∧ t = t₁ ++ t₂ ∧
        match o₁ with
        | .done a => (g a).Runs others call v' o w' t₂
        | .panic payload => ReflTransGen others v' w' ∧ o = .panic payload ∧ t₂ = [] := by
  change (∃ v o₁ v' t₁ t₂, _ ∧ _ ∧ Runs others call _ v' o w' t₂ ∧ t = t₁ ++ t₂) ↔ _
  constructor
  · rintro ⟨v, o₁, v', t₁, t₂, hv, hcall, hrest, ht⟩
    refine ⟨v, o₁, v', t₁, t₂, hv, hcall, ht, ?_⟩
    cases o₁ <;> exact hrest
  · rintro ⟨v, o₁, v', t₁, t₂, hv, hcall, ht, hrest⟩
    refine ⟨v, o₁, v', t₁, t₂, hv, hcall, ?_, ht⟩
    cases o₁ <;> exact hrest

theorem exists_runs_iff {ε' : Type} {bare : (callee : κ) → ω → Outcome (ρ callee) → ω → List ε' → Prop}
    (hcall : ∀ callee w o w', (∃ t, call callee w o w' t) ↔ ∃ t, bare callee w o w' t)
    {p : Program ω κ ρ α} :
    (∃ t, p.Runs others call w o w' t) ↔ ∃ t, p.Runs others bare w o w' t := by
  induction p generalizing w with
  | ended outcome =>
    exact ⟨fun ⟨_, hmoves, h, _⟩ => ⟨[], hmoves, h, rfl⟩,
      fun ⟨_, hmoves, h, _⟩ => ⟨[], hmoves, h, rfl⟩⟩
  | step move next ih =>
    constructor
    · rintro ⟨t, v, v', hv, hmove, hrest⟩
      obtain ⟨t', hrest⟩ := (ih v).1 ⟨t, hrest⟩
      exact ⟨t', v, v', hv, hmove, hrest⟩
    · rintro ⟨t, v, v', hv, hmove, hrest⟩
      obtain ⟨t', hrest⟩ := (ih v).2 ⟨t, hrest⟩
      exact ⟨t', v, v', hv, hmove, hrest⟩
  | call callee next ih =>
    constructor
    · rintro ⟨t, v, o₁, v', t₁, t₂, hv, hfirst, hrest, -⟩
      obtain ⟨s₁, hfirst⟩ := (hcall callee v o₁ v').1 ⟨t₁, hfirst⟩
      obtain ⟨s₂, hrest⟩ := (ih o₁).1 ⟨t₂, hrest⟩
      exact ⟨s₁ ++ s₂, v, o₁, v', s₁, s₂, hv, hfirst, hrest, rfl⟩
    · rintro ⟨t, v, o₁, v', t₁, t₂, hv, hfirst, hrest, -⟩
      obtain ⟨s₁, hfirst⟩ := (hcall callee v o₁ v').2 ⟨t₁, hfirst⟩
      obtain ⟨s₂, hrest⟩ := (ih o₁).2 ⟨t₂, hrest⟩
      exact ⟨s₁ ++ s₂, v, o₁, v', s₁, s₂, hv, hfirst, hrest, rfl⟩

end Rules

end Program

namespace Interpreter

variable {L : Language} (interpreter : Interpreter L) (thread : ThreadId)
  (others : World L → World L → Prop)

/-- What comes of calling code from outside, with at most so many calls inside each other. -/
def comesTo : (depth : Nat) → (callee : Callee L) → World L → Outcome callee.Result → World L →
    List Empty → Prop
  | 0, _ => fun _ _ _ _ => False
  | depth + 1, callee =>
    (interpreter.run thread (interpreter.code callee)).Runs others (comesTo depth)

end Interpreter

end ScriptWorker
