/-!
# Skew heaps

Trees in which no element comes after an element below it. Merging walks down the right edges of two
heaps and swaps the children on the way back, which keeps the right edges short on average.
-/

namespace ScriptWorker

inductive SkewHeap (α : Type) where
  | empty
  | node (left : SkewHeap α) (top : α) (right : SkewHeap α)
  deriving Inhabited

namespace SkewHeap

variable {α : Type}

def size : SkewHeap α → Nat
  | empty => 0
  | node left _ right => left.size + right.size + 1

def elements : SkewHeap α → List α
  | empty => []
  | node left top right => top :: (left.elements ++ right.elements)

/-- One heap with the elements of two; `before` says which top stays on top. -/
def merge (before : α → α → Bool) : SkewHeap α → SkewHeap α → SkewHeap α
  | empty, other => other
  | one, empty => one
  | node l a r, node l' b r' =>
    if before a b then node (merge before r (node l' b r')) a l
    else node (merge before r' (node l a r)) b l'
termination_by one other => one.size + other.size
decreasing_by all_goals simp only [size]; omega

def insert (before : α → α → Bool) (a : α) (h : SkewHeap α) : SkewHeap α :=
  merge before (node empty a empty) h

def top? : SkewHeap α → Option α
  | empty => none
  | node _ top _ => some top

def pop? (before : α → α → Bool) : SkewHeap α → Option (α × SkewHeap α)
  | empty => none
  | node left top right => some (top, merge before left right)

def ofList (before : α → α → Bool) (items : List α) : SkewHeap α :=
  items.foldl (fun h a => insert before a h) empty

theorem length_elements (h : SkewHeap α) : h.elements.length = h.size := by
  induction h with
  | empty => rfl
  | node l a r ihl ihr => simp [elements, size, ihl, ihr]

theorem size_merge (before : α → α → Bool) (g h : SkewHeap α) :
    (merge before g h).size = g.size + h.size := by
  fun_induction merge before g h with
  | case1 => simp [size]
  | case2 => simp [size]
  | case3 l a r l' b r' hab ih => simp only [size, ih]; omega
  | case4 l a r l' b r' hab ih => simp only [size, ih]; omega

end SkewHeap

end ScriptWorker
