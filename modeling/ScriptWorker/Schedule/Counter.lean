/-!
# Counters of outstanding work

A counter holds one slot for every accepted task that has not finished. Releasing a slot of a counter
that stands at zero is ignored.
-/

namespace ScriptWorker

structure AsyncCounter where
  count : Nat
  deriving DecidableEq, Repr, Inhabited

namespace AsyncCounter

def create : AsyncCounter := ⟨0⟩

def increment (c : AsyncCounter) : AsyncCounter := ⟨c.count + 1⟩

def decrement (c : AsyncCounter) : AsyncCounter := ⟨c.count - 1⟩

def isIdle (c : AsyncCounter) : Bool := c.count = 0

end AsyncCounter

end ScriptWorker
