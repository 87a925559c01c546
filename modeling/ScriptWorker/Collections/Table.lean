/-!
# Tables

Rows that are only ever added, each named for good by its place.
-/

namespace ScriptWorker

structure Table (α : Type) where
  rows : List α

namespace Table

variable {α : Type}

def empty : Table α := ⟨[]⟩

instance : Inhabited (Table α) := ⟨empty⟩

def size (t : Table α) : Nat := t.rows.length

def get? (t : Table α) (i : Nat) : Option α := t.rows[i]?

/-- Add a row; its place is the number of rows before it. -/
def push (t : Table α) (a : α) : Table α := ⟨t.rows ++ [a]⟩

def modify (t : Table α) (i : Nat) (f : α → α) : Table α := ⟨t.rows.modify i f⟩

@[simp] theorem size_push (t : Table α) (a : α) : (t.push a).size = t.size + 1 := by
  simp [push, size]

@[simp] theorem size_modify (t : Table α) (i : Nat) (f : α → α) : (t.modify i f).size = t.size := by
  simp [modify, size]

theorem get?_push (t : Table α) (a : α) (i : Nat) :
    (t.push a).get? i = if i = t.size then some a else t.get? i := by
  simp only [push, get?, size, List.getElem?_append]
  by_cases h : i = t.rows.length
  · simp [h]
  · by_cases hlt : i < t.rows.length
    · simp [h, hlt]
    · have hgt : t.rows.length < i := by omega
      have hge : t.rows.length ≤ i := by omega
      simp [h, hlt, List.getElem?_eq_none, show 1 ≤ i - t.rows.length by omega]

theorem get?_modify (t : Table α) (i j : Nat) (f : α → α) :
    (t.modify i f).get? j = if i = j then (t.get? j).map f else t.get? j := by
  simp only [modify, get?, List.getElem?_modify]
  by_cases h : i = j <;> simp [h]

theorem modify_congr {t : Table α} {i : Nat} {f g : α → α}
    (h : ∀ a, t.get? i = some a → f a = g a) : t.modify i f = t.modify i g := by
  unfold modify
  congr 1
  apply List.ext_getElem?
  intro j
  rw [List.getElem?_modify, List.getElem?_modify]
  by_cases hj : i = j
  · subst hj
    cases hrow : t.rows[i]? with
    | none => rfl
    | some a => simp [h a hrow]
  · simp [hj]

theorem modify_id (t : Table α) (i : Nat) : (t.modify i fun a => a) = t := by
  unfold modify
  congr 1
  apply List.ext_getElem?
  intro j
  rw [List.getElem?_modify]
  split <;> simp

end Table

end ScriptWorker
