/-!
# Dictionaries in insertion order

A finite map that remembers in which order its keys first came. Replacing a value keeps the place of
its key; a removed key that comes again goes to the end.
-/

namespace ScriptWorker

/-- Pairs in insertion order, no key twice. -/
structure Dictionary (κ ν : Type) where
  entries : List (κ × ν)
  nodup : (entries.map Prod.fst).Nodup

namespace Dictionary

variable {κ ν : Type}

def empty : Dictionary κ ν := ⟨[], List.nodup_nil⟩

instance : Inhabited (Dictionary κ ν) := ⟨empty⟩

def keys (d : Dictionary κ ν) : List κ := d.entries.map Prod.fst

def values (d : Dictionary κ ν) : List ν := d.entries.map Prod.snd

def size (d : Dictionary κ ν) : Nat := d.entries.length

def isEmpty (d : Dictionary κ ν) : Bool := d.entries.isEmpty

variable [DecidableEq κ]

def find (k : κ) : List (κ × ν) → Option ν
  | [] => none
  | p :: rest => if p.1 = k then some p.2 else find k rest

def get? (d : Dictionary κ ν) (k : κ) : Option ν := find k d.entries

def contains (d : Dictionary κ ν) (k : κ) : Bool := decide (k ∈ d.keys)

def replaceIn (k : κ) (v : ν) (pairs : List (κ × ν)) : List (κ × ν) :=
  pairs.map fun p => if p.1 = k then (k, v) else p

theorem map_fst_replaceIn (k : κ) (v : ν) (pairs : List (κ × ν)) :
    (replaceIn k v pairs).map Prod.fst = pairs.map Prod.fst := by
  induction pairs with
  | nil => rfl
  | cons p rest ih =>
    simp only [replaceIn, List.map_cons] at ih ⊢
    by_cases h : p.1 = k <;> simp [h, ih]

/-- Replace the value of a key, or add the pair at the end. -/
def insert (d : Dictionary κ ν) (k : κ) (v : ν) : Dictionary κ ν :=
  if h : k ∈ d.keys then
    ⟨replaceIn k v d.entries, by rw [map_fst_replaceIn]; exact d.nodup⟩
  else
    ⟨d.entries ++ [(k, v)], by
      rw [List.map_append, List.nodup_append]
      refine ⟨d.nodup, by simp, ?_⟩
      intro a ha b hb hab
      simp only [List.map_cons, List.map_nil, List.mem_singleton] at hb
      subst hb hab
      exact h ha⟩

def erase (d : Dictionary κ ν) (k : κ) : Dictionary κ ν :=
  ⟨d.entries.filter (fun p => !decide (p.1 = k)), d.nodup.sublist (List.filter_sublist.map _)⟩

def ofList (pairs : List (κ × ν)) : Dictionary κ ν :=
  pairs.foldl (fun d p => d.insert p.1 p.2) empty

@[simp] theorem get?_empty (k : κ) : (empty : Dictionary κ ν).get? k = none := rfl

theorem find_replaceIn (k k' : κ) (v : ν) (pairs : List (κ × ν)) :
    find k' (replaceIn k v pairs) =
      if k = k' then (find k pairs).map fun _ => v else find k' pairs := by
  induction pairs with
  | nil => simp [replaceIn, find]
  | cons p rest ih =>
    simp only [replaceIn, List.map_cons, find] at ih ⊢
    by_cases hp : p.1 = k <;> by_cases h : k = k' <;> by_cases h' : p.1 = k' <;> simp_all

theorem find_eq_none_of_not_mem (k : κ) (pairs : List (κ × ν)) (h : k ∉ pairs.map Prod.fst) :
    find k pairs = none := by
  induction pairs with
  | nil => rfl
  | cons p rest ih =>
    simp only [List.map_cons, List.mem_cons, not_or] at h
    rw [find, if_neg (fun e => h.1 e.symm), ih h.2]

theorem exists_find_of_mem (k : κ) (pairs : List (κ × ν)) (h : k ∈ pairs.map Prod.fst) :
    ∃ v, find k pairs = some v := by
  induction pairs with
  | nil => simp at h
  | cons p rest ih =>
    by_cases hp : p.1 = k
    · exact ⟨p.2, by simp [find, hp]⟩
    · rw [List.map_cons, List.mem_cons] at h
      obtain ⟨v, hv⟩ := ih (h.resolve_left fun e => hp e.symm)
      exact ⟨v, by simp [find, hp, hv]⟩

theorem find_append (k : κ) (xs ys : List (κ × ν)) :
    find k (xs ++ ys) = (find k xs).or (find k ys) := by
  induction xs with
  | nil => rfl
  | cons p rest ih => by_cases h : p.1 = k <;> simp [find, h, ih]

@[simp] theorem get?_insert (d : Dictionary κ ν) (k k' : κ) (v : ν) :
    (d.insert k v).get? k' = if k = k' then some v else d.get? k' := by
  unfold insert get?
  split
  next hk =>
    obtain ⟨w, hw⟩ := exists_find_of_mem k d.entries hk
    simp [find_replaceIn, hw]
  next hk =>
    have hn := find_eq_none_of_not_mem k d.entries hk
    by_cases h : k = k'
    · subst h; simp [find_append, find, hn]
    · simp [find_append, find, h]

@[simp] theorem get?_erase (d : Dictionary κ ν) (k k' : κ) :
    (d.erase k).get? k' = if k = k' then none else d.get? k' := by
  unfold erase get?
  simp only
  induction d.entries with
  | nil => simp [find]
  | cons p rest ih =>
    by_cases hp : p.1 = k <;> by_cases h : k = k' <;> by_cases h' : p.1 = k' <;>
      simp_all [find]

end Dictionary

end ScriptWorker
