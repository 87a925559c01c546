import ScriptWorker.Schedule.Slot

/-!
# Operations that come to an end

Every operation on loops takes finitely many steps, however other threads move in between: each step
lowers the rank of the stage that it leads to.
-/

namespace ScriptWorker

/-- Stages `σ` of an operation that answers with `ρ`. -/
class Staged (σ : Type) (ρ : outParam Type) where
  advance : Scheduler → σ → Progress σ ρ
  rank : σ → Nat × Nat
  rank_lt : ∀ s x s' x', advance s x = .next s' x' → Prod.Lex (· < ·) (· < ·) (rank x') (rank x)

def Enqueue.rank : Enqueue → Nat
  | create .. => 4
  | accept .. => 3
  | announce .. => 0
  | refuse _ => 2
  | refuseRunning _ => 1
  | refuseSettle _ => 0

theorem Enqueue.rank_lt (s : Scheduler) (x : Enqueue) (s' : Scheduler) (x' : Enqueue)
    (h : x.advance s = .next s' x') : x'.rank < x.rank := by
  cases x <;> simp only [advance] at h <;> (try split at h) <;> cases h <;> simp [rank]

def Cancel.rank : Cancel → Nat
  | swapPending .. => 5
  | swapRunning .. => 4
  | settle .. => 3
  | unqueue .. => 2
  | wake .. => 1
  | release _ => 0

theorem Cancel.rank_lt (s : Scheduler) (x : Cancel) (s' : Scheduler) (x' : Cancel)
    (h : x.advance s = .next s' x') : x'.rank < x.rank := by
  cases x <;> simp only [advance] at h <;> (repeat' split at h) <;> cases h <;> simp [rank]

/-- How many tasks a shutdown drops shows when it has stopped the loop. -/
def Shutdown.rank : Shutdown → Nat × Nat
  | stop _ => (1, 0)
  | wake _ rest => (0, 3 * rest.length + 1)
  | discard rest _ => (0, 3 * rest.length)
  | discardRunning _ rest _ => (0, 3 * rest.length + 2)
  | settle _ rest _ => (0, 3 * rest.length + 1)

theorem Shutdown.rank_lt (s : Scheduler) (x : Shutdown) (s' : Scheduler) (x' : Shutdown)
    (h : x.advance s = .next s' x') : Prod.Lex (· < ·) (· < ·) x'.rank x.rank := by
  cases x with
  | stop loop => simp only [advance] at h; cases h; exact .left _ _ (by decide)
  | wake loop rest => simp only [advance] at h; cases h; exact .right _ (by simp)
  | discard rest dropped =>
    cases rest with
    | nil => simp [advance] at h
    | cons task rest =>
      simp only [advance] at h
      split at h <;> cases h <;> exact .right _ (by simp only [List.length_cons]; omega)
  | discardRunning task rest dropped =>
    simp only [advance] at h
    split at h <;> cases h <;> exact .right _ (by omega)
  | settle task rest dropped => simp only [advance] at h; cases h; exact .right _ (by omega)

def Start.rank : Start → Nat
  | swap _ => 1
  | count _ => 0

theorem Start.rank_lt (s : Scheduler) (x : Start) (s' : Scheduler) (x' : Start)
    (h : x.advance s = .next s' x') : x'.rank < x.rank := by
  cases x <;> simp only [advance] at h <;> (try split at h) <;> cases h
  simp [rank]

def Conclude.rank : Conclude → Nat
  | release .. => 3
  | complete .. => 2
  | settle .. => 0
  | halt .. => 2
  | haltRelease .. => 1
  | rearm .. => 0

theorem Conclude.rank_lt (s : Scheduler) (x : Conclude) (s' : Scheduler) (x' : Conclude)
    (h : x.advance s = .next s' x') : x'.rank < x.rank := by
  cases x <;> simp only [advance] at h <;> (try split at h) <;> cases h <;> simp [rank]

def SlotStage.rank : SlotStage → Nat × Nat
  | acquire .. => (5, 0)
  | held .. => (4, 0)
  | enqueue _ inner => (2, inner.rank)
  | shutdown _ inner => (2 + inner.rank.1, inner.rank.2)
  | release .. => (0, 0)
  | releasePanic .. => (0, 0)

theorem SlotStage.rank_lt (s : Scheduler) (x : SlotStage) (s' : Scheduler) (x' : SlotStage)
    (h : x.advance s = .next s' x') : Prod.Lex (· < ·) (· < ·) x'.rank x.rank := by
  cases x with
  | acquire w use =>
    simp only [advance] at h
    (repeat' split at h) <;> cases h
    exact .left _ _ (by decide)
  | held w use =>
    simp only [advance] at h
    (repeat' split at h) <;> cases h <;> exact .left _ _ (by simp [Shutdown.rank])
  | enqueue w inner =>
    simp only [advance] at h
    split at h <;> cases h
    · next hinner => exact .right _ (Enqueue.rank_lt _ _ _ _ hinner)
    · exact .left _ _ (by decide)
    · exact .left _ _ (by decide)
  | shutdown w inner =>
    simp only [advance] at h
    split at h <;> cases h
    · next hinner =>
      have hlt := Shutdown.rank_lt _ _ _ _ hinner
      simp only [rank]
      rcases Prod.lex_def.1 hlt with hlt | ⟨heq, hlt⟩
      · exact .left _ _ (by omega)
      · rw [heq]; exact .right _ hlt
    · exact .left _ _ (by omega)
    · exact .left _ _ (by omega)
  | release w reply => simp [advance] at h
  | releasePanic w text => simp [advance] at h

instance : Staged Enqueue TaskId where
  advance s x := x.advance s
  rank x := (0, x.rank)
  rank_lt s x s' x' h := .right _ (Enqueue.rank_lt s x s' x' h)

instance : Staged Cancel Bool where
  advance s x := x.advance s
  rank x := (0, x.rank)
  rank_lt s x s' x' h := .right _ (Cancel.rank_lt s x s' x' h)

instance : Staged Shutdown Nat where
  advance s x := x.advance s
  rank := Shutdown.rank
  rank_lt := Shutdown.rank_lt

instance : Staged Start (Option Nat) where
  advance s x := x.advance s
  rank x := (0, x.rank)
  rank_lt s x s' x' h := .right _ (Start.rank_lt s x s' x' h)

instance : Staged Conclude Unit where
  advance s x := x.advance s
  rank x := (0, x.rank)
  rank_lt s x s' x' h := .right _ (Conclude.rank_lt s x s' x' h)

instance : Staged SlotStage SlotReply where
  advance s x := x.advance s
  rank := SlotStage.rank
  rank_lt := SlotStage.rank_lt

end ScriptWorker
