import ScriptWorker.Handle

/-!
# Execution serializers

One reentrant lock for each worker. The thread that holds it may enter again, others wait until it
has left as often as it entered. The lock also guards the current script: the unit whose body runs.
A frame keeps the unit that was current when it was pushed, and puts it back when it ends.
-/

namespace ScriptWorker

structure Serializer (υ : Type) where
  owner : Option ThreadId
  depth : Nat
  current : Option υ
  deriving Inhabited

/-- One entry into a serializer, with the depth that it found. -/
structure SerialGuard where
  depth : Nat
  deriving DecidableEq, Repr, Inhabited

def SerialGuard.isOutermost (g : SerialGuard) : Bool := g.depth = 1

/-- A pushed unit: what was current before it, until that has been put back. -/
structure ScriptFrame (υ : Type) where
  saved : Option (Option υ)

namespace Serializer

variable {υ : Type}

def create : Serializer υ := ⟨none, 0, none⟩

def isLocked (s : Serializer υ) : Bool := s.depth ≠ 0

def admits (s : Serializer υ) (thread : ThreadId) : Bool :=
  match s.owner with
  | none => true
  | some owner => owner = thread

/-- Enter; `none` while another thread is inside. -/
def enter? (s : Serializer υ) (thread : ThreadId) : Option (SerialGuard × Serializer υ) :=
  if s.admits thread then
    some (⟨s.depth + 1⟩, { s with owner := some thread, depth := s.depth + 1 })
  else none

theorem enter?_eq {s s' : Serializer υ} {thread : ThreadId} {guard : SerialGuard}
    (h : s.enter? thread = some (guard, s')) : s.admits thread ∧ guard = ⟨s.depth + 1⟩ ∧
      s' = { s with owner := some thread, depth := s.depth + 1 } := by
  unfold enter? at h
  split at h
  · next hadmits =>
    cases h
    exact ⟨hadmits, rfl, rfl⟩
  · cases h

def leave (s : Serializer υ) : Serializer υ :=
  { s with depth := s.depth - 1, owner := if s.depth ≤ 1 then none else s.owner }

def push (s : Serializer υ) (unit : υ) : ScriptFrame υ × Serializer υ :=
  (⟨some s.current⟩, { s with current := some unit })

/-- End a frame, if it has not ended: what it saved is current again. -/
def restore (s : Serializer υ) (frame : ScriptFrame υ) : Option υ × ScriptFrame υ × Serializer υ :=
  match frame.saved with
  | none => (none, frame, s)
  | some parent => (parent, ⟨none⟩, { s with current := parent })

def shown (s : Serializer υ) : String :=
  "ExecutionSerializer \x7b locked: " ++ (if s.isLocked then "true" else "false") ++ " \x7d"

end Serializer

end ScriptWorker
