import Mathlib.Data.List.Count
import ScriptWorker.Schedule.DelayQueue

/-!
# What a delay queue holds

The elements of a heap are rearranged and never lost or made up. So each operation on a delay queue
changes how often an item is in it by what the operation is for.
-/

namespace ScriptWorker

open List

namespace SkewHeap

variable {α : Type} (before : α → α → Bool)

theorem perm_merge (g h : SkewHeap α) :
    (merge before g h).elements ~ g.elements ++ h.elements := by
  fun_induction merge before g h with
  | case1 => exact .refl _
  | case2 => simp [elements]
  | case3 l a r l' b r' hab ih =>
    simp only [elements, cons_append] at ih ⊢
    refine .cons a ?_
    calc (merge before r (node l' b r')).elements ++ l.elements
        ~ (r.elements ++ (b :: (l'.elements ++ r'.elements))) ++ l.elements := ih.append_right _
      _ ~ l.elements ++ (r.elements ++ (b :: (l'.elements ++ r'.elements))) := perm_append_comm
      _ = _ := by simp
  | case4 l a r l' b r' hab ih =>
    simp only [elements, cons_append] at ih ⊢
    have hrest : (merge before r' (node l a r)).elements ++ l'.elements ~
        (a :: (l.elements ++ r.elements)) ++ (l'.elements ++ r'.elements) :=
      calc (merge before r' (node l a r)).elements ++ l'.elements
          ~ (r'.elements ++ (a :: (l.elements ++ r.elements))) ++ l'.elements := ih.append_right _
        _ ~ ((a :: (l.elements ++ r.elements)) ++ r'.elements) ++ l'.elements :=
          perm_append_comm.append_right _
        _ = (a :: (l.elements ++ r.elements)) ++ (r'.elements ++ l'.elements) := by simp
        _ ~ _ := perm_append_comm.append_left _
    exact (hrest.cons b).trans perm_middle.symm

theorem perm_insert (a : α) (h : SkewHeap α) :
    (insert before a h).elements ~ a :: h.elements := by
  simpa [insert, elements] using perm_merge before (node empty a empty) h

theorem perm_ofList (items : List α) : (ofList before items).elements ~ items := by
  have hfold : ∀ (h : SkewHeap α), (items.foldl (fun h a => insert before a h) h).elements ~
      h.elements ++ items := by
    induction items with
    | nil => intro h; simp
    | cons a rest ih =>
      intro h
      calc ((a :: rest).foldl (fun h a => insert before a h) h).elements
          ~ (insert before a h).elements ++ rest := ih _
        _ ~ (a :: h.elements) ++ rest := (perm_insert before a h).append_right _
        _ ~ h.elements ++ a :: rest := perm_middle.symm
  exact hfold empty

theorem perm_pop? {a : α} {h rest : SkewHeap α} (hpop : h.pop? before = some (a, rest)) :
    h.elements ~ a :: rest.elements := by
  cases h with
  | empty => cases hpop
  | node l b r =>
    cases hpop
    exact .cons a (perm_merge before l r).symm

end SkewHeap

namespace DelayQueue

variable {α : Type}

def items (q : DelayQueue α) : List α := q.heap.elements.map QueueEntry.item

theorem perm_push (q : DelayQueue α) (readyAt : Instant) (a : α) :
    (q.push readyAt a).items ~ a :: q.items :=
  (SkewHeap.perm_insert _ _ _).map QueueEntry.item

theorem perm_popReady {q rest : DelayQueue α} {now : Instant} {a : α}
    (h : q.popReady now = some (a, rest)) : q.items ~ a :: rest.items := by
  unfold popReady at h
  split at h
  · next entry heap hpop =>
    split at h
    · cases h
      exact (SkewHeap.perm_pop? _ hpop).map QueueEntry.item
    · cases h
  · cases h

theorem perm_retain (q : DelayQueue α) (keep : α → Bool) :
    (q.retain keep).2.items ~ q.items.filter keep := by
  refine ((SkewHeap.perm_ofList _ _).map QueueEntry.item).trans ?_
  unfold items
  rw [List.filter_map]
  exact .refl _

theorem perm_takeEntries {count : Nat} {heap : SkewHeap (QueueEntry α)} (h : heap.size ≤ count) :
    takeEntries count heap ~ heap.elements := by
  induction count generalizing heap with
  | zero =>
    have hsize : heap.elements.length = 0 := by
      rw [SkewHeap.length_elements]
      omega
    rw [List.length_eq_zero_iff.1 hsize]
    exact .refl _
  | succ count ih =>
    unfold takeEntries
    cases hpop : heap.pop? QueueEntry.before with
    | none =>
      cases heap with
      | empty => exact .refl _
      | node l a r => cases hpop
    | some popped =>
      obtain ⟨entry, rest⟩ := popped
      have hperm := SkewHeap.perm_pop? _ hpop
      have hlength := hperm.length_eq
      rw [List.length_cons, SkewHeap.length_elements, SkewHeap.length_elements] at hlength
      exact ((ih (by omega)).cons entry).trans hperm.symm

theorem perm_drain (q : DelayQueue α) : q.drain.1 ~ q.items :=
  (perm_takeEntries (Nat.le_refl _)).map QueueEntry.item

@[simp] theorem items_drain (q : DelayQueue α) : q.drain.2.items = [] := rfl

@[simp] theorem items_empty : (empty : DelayQueue α).items = [] := rfl

end DelayQueue

end ScriptWorker
