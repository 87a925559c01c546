import ScriptWorker.Collections.SkewHeap

/-!
# Delay queues

Items wait for their deadlines. The item with the earliest deadline comes out first, and of items
with one deadline the one that was pushed first.
-/

namespace ScriptWorker

/-- A point of time, and a length of time, in nanoseconds. -/
abbrev Instant := Nat

abbrev Duration := Nat

structure QueueEntry (α : Type) where
  readyAt : Instant
  /-- Place in the order of pushes. -/
  order : Nat
  item : α
  deriving Inhabited

/-- Whether one entry comes out no later than another. -/
def QueueEntry.before {α : Type} (a b : QueueEntry α) : Bool :=
  a.readyAt < b.readyAt || (a.readyAt = b.readyAt && a.order ≤ b.order)

structure DelayQueue (α : Type) where
  heap : SkewHeap (QueueEntry α)
  pushes : Nat
  deriving Inhabited

namespace DelayQueue

variable {α : Type}

def empty : DelayQueue α := ⟨.empty, 0⟩

def size (q : DelayQueue α) : Nat := q.heap.size

def isEmpty (q : DelayQueue α) : Bool := q.size = 0

def push (q : DelayQueue α) (readyAt : Instant) (item : α) : DelayQueue α :=
  ⟨q.heap.insert QueueEntry.before ⟨readyAt, q.pushes, item⟩, q.pushes + 1⟩

def nextDeadline (q : DelayQueue α) : Option Instant := q.heap.top?.map QueueEntry.readyAt

def popReady (q : DelayQueue α) (now : Instant) : Option (α × DelayQueue α) :=
  match q.heap.pop? QueueEntry.before with
  | some (entry, rest) => if entry.readyAt ≤ now then some (entry.item, ⟨rest, q.pushes⟩) else none
  | none => none

def retain (q : DelayQueue α) (keep : α → Bool) : Nat × DelayQueue α :=
  let kept := q.heap.elements.filter fun entry => keep entry.item
  (q.size - kept.length, ⟨SkewHeap.ofList QueueEntry.before kept, q.pushes⟩)

def takeEntries : Nat → SkewHeap (QueueEntry α) → List (QueueEntry α)
  | 0, _ => []
  | count + 1, heap =>
    match heap.pop? QueueEntry.before with
    | none => []
    | some (entry, rest) => entry :: takeEntries count rest

def entries (q : DelayQueue α) : List (QueueEntry α) := takeEntries q.size q.heap

def toList (q : DelayQueue α) : List α := q.entries.map QueueEntry.item

def drain (q : DelayQueue α) : List α × DelayQueue α := (q.toList, ⟨.empty, q.pushes⟩)

end DelayQueue

end ScriptWorker
