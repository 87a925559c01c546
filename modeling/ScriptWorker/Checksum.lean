import ScriptWorker.Digest.SipHash

/-!
# Checksums over what a unit reaches

The checksum of a unit is the sum of one hash for each distinct key among the unit and everything
reachable through recorded dependencies, taken modulo `2 ^ 64`. Each key counts once, so the sum does
not depend on the order of the dependencies, and a cycle does no harm.
-/

namespace ScriptWorker

/-- What a checksum reads of a unit. -/
structure DependencyNode (κ : Type) where
  key : κ
  version : UInt64
  /-- Places of the dependencies in the graph. -/
  dependencies : List Nat

abbrev DependencyGraph (κ : Type) := List (DependencyNode κ)

namespace DependencyGraph

variable {κ : Type} [DecidableEq κ]

/-- Nodes whose key has not been counted, each with all its dependencies. -/
def unseen (graph : DependencyGraph κ) (seen : List κ) : Nat :=
  (graph.filter fun node => !decide (node.key ∈ seen)).foldr
    (fun node count => node.dependencies.length + 1 + count) 0

theorem unseen_cons_le (graph : DependencyGraph κ) (seen : List κ) (key : κ) :
    unseen graph (key :: seen) ≤ unseen graph seen := by
  unfold unseen
  induction graph with
  | nil => simp
  | cons first rest ih =>
    rw [List.filter_cons, List.filter_cons]
    by_cases hseen : first.key ∈ seen
    · simpa [hseen] using ih
    · by_cases hkey : first.key = key
      · subst hkey
        simp [hseen] at ih ⊢
        omega
      · simp [hseen, hkey] at ih ⊢
        omega

theorem unseen_lt (graph : DependencyGraph κ) (seen : List κ) (node : DependencyNode κ)
    (hmem : node ∈ graph) (hkey : node.key ∉ seen) :
    unseen graph (node.key :: seen) + node.dependencies.length < unseen graph seen := by
  induction graph with
  | nil => simp at hmem
  | cons first rest ih =>
    have hrest := unseen_cons_le rest seen node.key
    unfold unseen at ih hrest ⊢
    rw [List.filter_cons, List.filter_cons]
    rcases List.mem_cons.1 hmem with rfl | hmem
    · simp [hkey] at hrest ⊢
      omega
    · have hless := ih hmem
      by_cases hseen : first.key ∈ seen
      · simpa [hseen] using hless
      · by_cases hsame : first.key = node.key
        · simp [hsame, hkey] at hless ⊢
          omega
        · simp [hseen, hsame] at hless ⊢
          omega

/-- Add the hashes of the pending nodes and of all they reach. The node added last is visited first,
and of nodes with one key the first visited counts. -/
def visit (hash : κ → UInt64 → UInt64) (graph : DependencyGraph κ) (pending : List Nat)
    (seen : List κ) (sum : UInt64) : UInt64 :=
  match pending with
  | [] => sum
  | place :: rest =>
    match _hnode : graph[place]? with
    | none => visit hash graph rest seen sum
    | some node =>
      if _hseen : node.key ∈ seen then visit hash graph rest seen sum
      else
        visit hash graph (node.dependencies.reverse ++ rest) (node.key :: seen)
          (sum + hash node.key node.version)
termination_by unseen graph seen + pending.length
decreasing_by
  · simp
  · simp
  · have hless := unseen_lt graph seen node (List.mem_of_getElem? _hnode) _hseen
    simp
    omega

/-- The checksum of a root with the given key and version over its dependencies. -/
def checksum (hash : κ → UInt64 → UInt64) (graph : DependencyGraph κ) (key : κ) (version : UInt64)
    (dependencies : List Nat) : UInt64 :=
  visit hash graph dependencies.reverse [key] (hash key version)

end DependencyGraph

def entryHash (key : String) (version : UInt64) : UInt64 :=
  Digest.sipHash (key.toUTF8.toList ++ 0xff :: Digest.bytesOf version)

end ScriptWorker
