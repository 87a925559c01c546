import ScriptWorker.Proofs.Repositories.Segments
import ScriptWorker.Repository.Location

/-!
# Normal forms of paths

A path in normal form is a row of proper segments with slashes between them, behind a slash or not.
Normalizing keeps of any path just such a row, the segments that its pieces lead to from the root,
and the leading slash. It leaves normal forms alone, so it may be done to the front of a path before
it is done to the whole, unless the front comes to nothing and would leave its slash at the beginning.
-/

namespace ScriptWorker.Path

/-- The segments after one more piece of a path: an empty piece and `.` stay where they are, `..`
takes the last segment back, any other piece goes on. -/
def goOn (segments : List String) (piece : String) : List String :=
  if piece = "" ∨ piece = "." then segments
  else if piece = ".." then segments.dropLast
  else segments ++ [piece]

/-- The segments that the pieces between the slashes of a path lead to. -/
def LeadsTo (p : String) (segments : List String) : Prop :=
  ∃ pieces : List String, p = "/".intercalate pieces ∧ (∀ piece ∈ pieces, '/' ∉ piece.toList) ∧
    segments = pieces.foldl goOn []

def written (absolute : Bool) (segments : List (List Char)) : List Char :=
  if absolute then '/' :: joinWith '/' segments else joinWith '/' segments

/-- The segments that normalizing keeps of a path. -/
def kept (p : List Char) : List (List Char) := collapse [] (splitAt '/' p)

theorem normalizeChars_eq (p : List Char) :
    normalizeChars p = written (isAbsoluteChars p) (kept p) := rfl

section Pieces

variable {stack pieces : List (List Char)}

theorem joinWith_eq_intercalate (separator : Char) (pieces : List (List Char)) :
    joinWith separator pieces = [separator].intercalate pieces := by
  induction pieces with
  | nil => rfl
  | cons piece pieces ih =>
    cases pieces with
    | nil => simp [joinWith]
    | cons next pieces => simp [joinWith, ih]

theorem joinWith_splitAt (separator : Char) (p : List Char) :
    joinWith separator (splitAt separator p) = p := by
  induction p with
  | nil => rfl
  | cons c p ih =>
    obtain ⟨piece, pieces, hsplit⟩ := List.exists_cons_of_ne_nil (splitAt_ne_nil separator p)
    rw [hsplit] at ih
    by_cases hc : c = separator
    · simp [splitAt, hc, hsplit, joinWith, ih]
    · cases pieces with
      | nil =>
        have hpiece : piece = p := ih
        simp [splitAt, hc, hsplit, joinWith, hpiece]
      | cons next pieces =>
        have hrest : piece ++ separator :: joinWith separator (next :: pieces) = p := ih
        simp [splitAt, hc, hsplit, joinWith, hrest]

theorem collapse_pieces (stack first second : List (List Char)) :
    collapse stack (first ++ second) = collapse (collapse stack first).reverse second := by
  induction first generalizing stack with
  | nil => simp [collapse]
  | cons piece first ih =>
    rw [List.cons_append, collapse, collapse]
    by_cases hstays : piece = [] ∨ piece = ['.']
    · simp only [if_pos hstays]
      apply ih
    · by_cases hclimbs : piece = ['.', '.']
      · simp only [if_neg hstays, if_pos hclimbs]
        apply ih
      · simp only [if_neg hstays, if_neg hclimbs]
        apply ih

theorem proper_collapse (hstack : ∀ segment ∈ stack, Proper segment)
    (hpieces : ∀ piece ∈ pieces, '/' ∉ piece) :
    ∀ segment ∈ collapse stack pieces, Proper segment := by
  induction pieces generalizing stack with
  | nil =>
    intro segment hmem
    exact hstack segment (List.mem_reverse.1 hmem)
  | cons piece pieces ih =>
    have hsolid := hpieces piece List.mem_cons_self
    have hpieces := fun p hp => hpieces p (List.mem_cons_of_mem _ hp)
    unfold collapse
    by_cases hstays : piece = [] ∨ piece = ['.']
    · rw [if_pos hstays]
      exact ih hstack hpieces
    · rw [if_neg hstays]
      by_cases hclimbs : piece = ['.', '.']
      · rw [if_pos hclimbs]
        exact ih (fun s hs => hstack s (List.mem_of_mem_tail hs)) hpieces
      · rw [if_neg hclimbs]
        apply ih _ hpieces
        intro s hs
        rcases List.mem_cons.1 hs with rfl | hs
        · exact ⟨fun h => hstays (.inl h), hsolid, fun h => hstays (.inr h), hclimbs⟩
        · exact hstack s hs

theorem map_collapse (stack pieces : List (List Char)) :
    (collapse stack pieces).map String.ofList =
      (pieces.map String.ofList).foldl goOn (stack.reverse.map String.ofList) := by
  induction pieces generalizing stack with
  | nil => rfl
  | cons piece pieces ih =>
    have hstays : (String.ofList piece = "" ∨ String.ofList piece = ".") ↔
        (piece = [] ∨ piece = ['.']) := or_congr String.ofList_inj String.ofList_inj
    have hclimbs : String.ofList piece = ".." ↔ piece = ['.', '.'] := String.ofList_inj
    rw [List.map_cons, List.foldl_cons, collapse, goOn]
    simp only [hstays, hclimbs]
    split
    · apply ih
    · split
      · rw [ih]
        cases stack <;> simp
      · rw [ih]
        simp

theorem proper_kept (p : List Char) : ∀ segment ∈ kept p, Proper segment := by
  apply proper_collapse
  · intro segment hmem
    cases hmem
  · intro piece hmem
    exact not_mem_of_mem_splitAt hmem

theorem kept_append (p q : List Char) :
    kept (p ++ '/' :: q) = collapse (kept p).reverse (splitAt '/' q) := by
  unfold kept
  rw [splitAt_append_separator, collapse_pieces]

end Pieces

section Normal

variable {absolute : Bool} {segments : List (List Char)} {p q : List Char}

theorem kept_joinWith (h : ∀ segment ∈ segments, Proper segment) :
    kept (joinWith '/' segments) = segments := by
  rcases segments.eq_nil_or_concat with rfl | ⟨front, last, rfl⟩
  · rfl
  · rw [List.concat_eq_append] at h ⊢
    have hfront : ∀ segment ∈ front, '/' ∉ segment := fun s hs =>
      (h s (List.mem_append_left _ hs)).solid
    have hlast : '/' ∉ last := (h last (by simp)).solid
    have hall : collapse [] ((front ++ [last]) ++ []) =
        collapse ((front ++ [last]).reverse ++ []) [] := collapse_append h [] []
    unfold kept
    rw [joinWith_append_singleton, splitAt_directoryChars hfront, splitAt_of_not_mem hlast]
    simpa [collapse] using hall

theorem kept_written (absolute : Bool) (h : ∀ segment ∈ segments, Proper segment) :
    kept (written absolute segments) = segments := by
  cases absolute with
  | false => exact kept_joinWith h
  | true =>
    have hroot := kept_append [] (joinWith '/' segments)
    exact hroot.trans (kept_joinWith h)

theorem isAbsoluteChars_joinWith (h : ∀ segment ∈ segments, Proper segment) :
    isAbsoluteChars (joinWith '/' segments) = false := by
  rcases segments.eq_nil_or_concat with rfl | ⟨front, last, rfl⟩
  · rfl
  · rw [List.concat_eq_append] at h ⊢
    rw [joinWith_append_singleton]
    apply isAbsoluteChars_directoryChars
    · intro segment hmem
      exact h segment (List.mem_append_left _ hmem)
    · exact (h last (by simp)).relative

theorem isAbsoluteChars_written (absolute : Bool) (h : ∀ segment ∈ segments, Proper segment) :
    isAbsoluteChars (written absolute segments) = absolute := by
  cases absolute with
  | false => exact isAbsoluteChars_joinWith h
  | true => rfl

theorem kept_normalizeChars (p : List Char) : kept (normalizeChars p) = kept p :=
  kept_written _ (proper_kept p)

theorem isAbsoluteChars_normalizeChars (p : List Char) :
    isAbsoluteChars (normalizeChars p) = isAbsoluteChars p :=
  isAbsoluteChars_written _ (proper_kept p)

/-- Two paths have one normal form if both or neither start at the root, and the same is kept. -/
theorem normalizeChars_eq_iff : normalizeChars p = normalizeChars q ↔
    isAbsoluteChars p = isAbsoluteChars q ∧ kept p = kept q := by
  constructor
  · intro h
    constructor
    · rw [← isAbsoluteChars_normalizeChars p, h, isAbsoluteChars_normalizeChars]
    · rw [← kept_normalizeChars p, h, kept_normalizeChars]
  · rintro ⟨habsolute, hkept⟩
    rw [normalizeChars_eq, normalizeChars_eq, habsolute, hkept]

theorem normalizeChars_normalizeChars (p : List Char) :
    normalizeChars (normalizeChars p) = normalizeChars p :=
  normalizeChars_eq_iff.2 ⟨isAbsoluteChars_normalizeChars p, kept_normalizeChars p⟩

theorem isAbsoluteChars_append (h : p ≠ []) (q : List Char) :
    isAbsoluteChars (p ++ q) = isAbsoluteChars p := by
  cases p with
  | nil => exact absurd rfl h
  | cons c p =>
    by_cases hc : c = '/'
    · subst hc
      rfl
    · simp [isAbsoluteChars, hc]

/-- A front that does not come to nothing, or is nothing, may be normalized first. -/
theorem normalizeChars_append_iff (p q : List Char) :
    normalizeChars (p ++ '/' :: q) = normalizeChars (normalizeChars p ++ '/' :: q) ↔
      p = [] ∨ isAbsoluteChars p = true ∨ normalizeChars p ≠ [] := by
  have hkept : kept (p ++ '/' :: q) = kept (normalizeChars p ++ '/' :: q) := by
    rw [kept_append, kept_append, kept_normalizeChars]
  rw [normalizeChars_eq_iff, and_iff_left hkept]
  by_cases hp : p = []
  · subst hp
    simp [normalizeChars, isAbsoluteChars, splitAt, collapse, joinWith]
  · rw [isAbsoluteChars_append hp]
    by_cases hnormal : normalizeChars p = []
    · -- the slash in the middle comes to stand first
      have hroot : isAbsoluteChars (normalizeChars p ++ '/' :: q) = true := by
        rw [hnormal]
        rfl
      rw [hroot]
      simp [hp, hnormal]
    · rw [isAbsoluteChars_append hnormal, isAbsoluteChars_normalizeChars]
      simp [hnormal]

end Normal

section Texts

theorem isAbsoluteChars_iff (p : List Char) :
    isAbsoluteChars p = true ↔ p.head? = some '/' := by
  cases p with
  | nil => simp [isAbsoluteChars]
  | cons c p =>
    by_cases hc : c = '/'
    · subst hc
      simp [isAbsoluteChars]
    · simp [isAbsoluteChars, hc]

theorem map_toList_ofList (segments : List (List Char)) :
    (segments.map String.ofList).map String.toList = segments := by
  rw [List.map_map]
  have hid : String.toList ∘ String.ofList = id := funext fun _ => String.toList_ofList
  rw [hid, List.map_id]

theorem ofList_joinWith (segments : List (List Char)) :
    String.ofList (joinWith '/' segments) = "/".intercalate (segments.map String.ofList) := by
  apply String.toList_inj.1
  rw [String.toList_ofList, String.toList_intercalate, map_toList_ofList]
  exact joinWith_eq_intercalate '/' segments

theorem leadsTo_kept (p : String) : LeadsTo p ((kept p.toList).map String.ofList) := by
  refine ⟨(splitAt '/' p.toList).map String.ofList, ?_, ?_, ?_⟩
  · rw [← ofList_joinWith, joinWith_splitAt, String.ofList_toList]
  · intro piece hmem
    obtain ⟨chars, hchars, rfl⟩ := List.mem_map.1 hmem
    rw [String.toList_ofList]
    exact not_mem_of_mem_splitAt hchars
  · exact map_collapse [] (splitAt '/' p.toList)

theorem normalize_eq_written (p : String) : normalize p =
    (if p.toList.head? = some '/' then "/" else "") ++
      "/".intercalate ((kept p.toList).map String.ofList) := by
  apply String.toList_inj.1
  unfold normalize
  rw [String.toList_ofList, normalizeChars_eq, written, ← ofList_joinWith, String.toList_append,
    String.toList_ofList]
  simp only [isAbsoluteChars_iff]
  split <;> rfl

theorem normalize_append_iff (p q : String) :
    normalize (p ++ "/" ++ q) = normalize (normalize p ++ "/" ++ q) ↔
      p = "" ∨ p.toList.head? = some '/' ∨ normalize p ≠ "" := by
  have htext (front : List Char) : front ++ "/".toList ++ q.toList = front ++ '/' :: q.toList := by
    simp
  have hempty (t : String) : t = "" ↔ t.toList = [] := String.toList_inj.symm
  rw [← isAbsoluteChars_iff, ne_eq, hempty, hempty, ← String.toList_inj]
  unfold normalize
  simp only [String.toList_append, String.toList_ofList, htext]
  exact normalizeChars_append_iff p.toList q.toList

end Texts

/-- A normal form starts at the root just when its path does, and is else a row of proper segments
with slashes between them, those that the path leads to. It is its own normal form, and it can stand
for the path in front of any other, unless a path that does not start at the root came to nothing. -/
theorem normalize_canonical (p : String) :
    ((normalize p).toList.head? = some '/' ↔ p.toList.head? = some '/') ∧
    (∃ segments, LeadsTo p segments ∧ (∀ segment ∈ segments, Proper segment.toList) ∧
      normalize p =
        (if p.toList.head? = some '/' then "/" else "") ++ "/".intercalate segments) ∧
    normalize (normalize p) = normalize p ∧
    ∀ q, normalize (p ++ "/" ++ q) = normalize (normalize p ++ "/" ++ q) ↔
      p = "" ∨ p.toList.head? = some '/' ∨ normalize p ≠ "" := by
  refine ⟨?_, ⟨_, leadsTo_kept p, ?_, normalize_eq_written p⟩, ?_, normalize_append_iff p⟩
  · unfold normalize
    rw [String.toList_ofList, ← isAbsoluteChars_iff, ← isAbsoluteChars_iff,
      isAbsoluteChars_normalizeChars]
  · intro segment hmem
    obtain ⟨chars, hchars, rfl⟩ := List.mem_map.1 hmem
    rw [String.toList_ofList]
    exact proper_kept p.toList chars hchars
  · unfold normalize
    rw [String.toList_ofList, normalizeChars_normalizeChars]

/-- A front that comes to nothing leaves its slash behind. -/
example : normalize ("a/.." ++ "/" ++ "b") = "b" ∧
    normalize (normalize "a/.." ++ "/" ++ "b") = "/b" := by decide +kernel

end ScriptWorker.Path

namespace ScriptWorker.Repository

/-- An entry named from a child is the entry that both names together name from the repository,
unless the child's name leads back to the root. -/
theorem entryOf_child_iff {tree : Files.Tree} {store : StoreId} {storeName directory below : String}
    {name : String} (path : String)
    (h : (memory store storeName directory).child tree name = memory store storeName below) :
    Resource.entryOf below path = Resource.entryOf directory (name ++ "/" ++ path) ↔
      directory ++ name = "" ∨ (directory ++ name).toList.head? = some '/' ∨
        Path.normalize (directory ++ name) ≠ "" := by
  have hbelow : Path.normalize (directory ++ name) ++ "/" = below := by
    injection h
  have hjoint : directory ++ (name ++ "/" ++ path) = directory ++ name ++ "/" ++ path := by
    simp only [String.append_assoc]
  rw [← Path.normalize_append_iff _ path, ← hbelow, eq_comm]
  unfold Resource.entryOf
  rw [hjoint]

end ScriptWorker.Repository
