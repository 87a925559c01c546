import ScriptWorker.Path

/-!
# Segments of paths

A path is split into segments and put together again. A directory is a text in which a slash follows
each segment; what stands behind it is split and normalized as if the directory's segments had been
worked off before. Walking along segments is like collapsing them, but fails above the root, where
collapsing stays.
-/

namespace ScriptWorker.Path

/-- A segment that names something: not empty, without slashes, and neither `.` nor `..`. -/
structure Proper (segment : List Char) : Prop where
  nonempty : segment ≠ []
  solid : '/' ∉ segment
  stays : segment ≠ ['.']
  climbs : segment ≠ ['.', '.']

/-- The text of a directory: each segment with a slash behind it. -/
def directoryChars (segments : List (List Char)) : List Char := segments.flatMap (· ++ ['/'])

section Splitting

variable {separator : Char} {piece rest p : List Char} {pieces segments : List (List Char)}

theorem splitAt_ne_nil (separator : Char) (p : List Char) : splitAt separator p ≠ [] := by
  cases p with
  | nil => simp [splitAt]
  | cons c rest =>
    unfold splitAt
    split
    · simp
    · split <;> simp

theorem splitAt_of_not_mem (h : separator ∉ p) : splitAt separator p = [p] := by
  induction p with
  | nil => rfl
  | cons c p ih =>
    obtain ⟨hc, hp⟩ := not_or.1 (mt List.mem_cons.2 h)
    rw [splitAt, if_neg (Ne.symm hc), ih hp]

theorem splitAt_append_separator (separator : Char) (p q : List Char) :
    splitAt separator (p ++ separator :: q) = splitAt separator p ++ splitAt separator q := by
  induction p with
  | nil => simp [splitAt]
  | cons c p ih =>
    by_cases hc : c = separator
    · simp [splitAt, hc, ih]
    · obtain ⟨piece, pieces, hsplit⟩ := List.exists_cons_of_ne_nil (splitAt_ne_nil separator p)
      rw [hsplit] at ih
      simp [splitAt, hc, ih, hsplit]

theorem splitAt_append (h : separator ∉ piece) (rest : List Char) :
    splitAt separator (piece ++ separator :: rest) = piece :: splitAt separator rest := by
  rw [splitAt_append_separator, splitAt_of_not_mem h, List.singleton_append]

theorem not_mem_of_mem_splitAt (h : piece ∈ splitAt separator p) : separator ∉ piece := by
  induction p generalizing piece with
  | nil =>
    rw [splitAt, List.mem_singleton] at h
    simp [h]
  | cons c p ih =>
    unfold splitAt at h
    split at h
    · rcases List.mem_cons.1 h with rfl | h
      · exact List.not_mem_nil
      · exact ih h
    · next hc =>
      obtain ⟨first, others, hsplit⟩ := List.exists_cons_of_ne_nil (splitAt_ne_nil separator p)
      rw [hsplit] at h
      rcases List.mem_cons.1 h with rfl | h
      · have hfirst := ih (hsplit ▸ List.mem_cons_self)
        exact fun hmem => (List.mem_cons.1 hmem).elim (Ne.symm hc) hfirst
      · exact ih (hsplit ▸ List.mem_cons_of_mem _ h)

@[simp] theorem directoryChars_nil : directoryChars [] = [] := rfl

@[simp] theorem directoryChars_cons (segment : List Char) (segments : List (List Char)) :
    directoryChars (segment :: segments) = segment ++ '/' :: directoryChars segments := by
  simp [directoryChars]

@[simp] theorem directoryChars_append (first second : List (List Char)) :
    directoryChars (first ++ second) = directoryChars first ++ directoryChars second :=
  List.flatMap_append

theorem splitAt_directoryChars (h : ∀ segment ∈ segments, '/' ∉ segment) (rest : List Char) :
    splitAt '/' (directoryChars segments ++ rest) = segments ++ splitAt '/' rest := by
  induction segments with
  | nil => rfl
  | cons segment segments ih =>
    rw [directoryChars_cons, List.append_assoc, List.cons_append,
      splitAt_append (h segment List.mem_cons_self),
      ih fun s hs => h s (List.mem_cons_of_mem _ hs), List.cons_append]

theorem joinWith_append_singleton (segments : List (List Char)) (last : List Char) :
    joinWith '/' (segments ++ [last]) = directoryChars segments ++ last := by
  induction segments with
  | nil => rfl
  | cons segment segments ih =>
    obtain ⟨next, others, hrest⟩ : ∃ next others, segments ++ [last] = next :: others :=
      List.exists_cons_of_ne_nil (by simp)
    rw [List.cons_append, hrest, joinWith, ← hrest, ih, directoryChars_cons, List.append_assoc,
      List.cons_append]

end Splitting

section Collapsing

variable {stack segments pieces : List (List Char)} {segment last : List Char}

theorem collapse_filter (stack pieces : List (List Char)) :
    collapse stack (pieces.filter fun piece => !piece.isEmpty) = collapse stack pieces := by
  induction pieces generalizing stack with
  | nil => rfl
  | cons piece pieces ih =>
    cases piece with
    | nil => simpa [collapse] using ih stack
    | cons c piece =>
      rw [List.filter_cons_of_pos rfl]
      simp only [collapse, ih]

theorem collapse_append (h : ∀ segment ∈ segments, Proper segment)
    (stack rest : List (List Char)) :
    collapse stack (segments ++ rest) = collapse (segments.reverse ++ stack) rest := by
  induction segments generalizing stack with
  | nil => rfl
  | cons segment segments ih =>
    have hproper := h segment List.mem_cons_self
    rw [List.cons_append, collapse, if_neg (by simp [hproper.nonempty, hproper.stays]),
      if_neg hproper.climbs, ih fun s hs => h s (List.mem_cons_of_mem _ hs)]
    simp

/-- Where segments lead from a directory, both as stacks with the last segment first, or `none` when
they climb above the root. -/
def walk : List (List Char) → List (List Char) → Option (List (List Char))
  | stack, [] => some stack
  | stack, segment :: rest =>
    if segment = ['.'] then walk stack rest
    else if segment = ['.', '.'] then
      match stack with
      | [] => none
      | _ :: lower => walk lower rest
    else walk (segment :: stack) rest

/-- A walk that stays below the root has collapsed its segments. -/
theorem collapse_of_walk {stack' : List (List Char)} (hpieces : ∀ piece ∈ pieces, piece ≠ [])
    (h : walk stack pieces = some stack') (rest : List (List Char)) :
    collapse stack (pieces ++ rest) = collapse stack' rest := by
  induction pieces generalizing stack with
  | nil =>
    cases h
    rfl
  | cons piece pieces ih =>
    have hne := hpieces piece List.mem_cons_self
    have hpieces := fun p hp => hpieces p (List.mem_cons_of_mem _ hp)
    rw [List.cons_append, collapse]
    unfold walk at h
    split at h
    · next hstays => rw [if_pos (.inr hstays), ih hpieces h]
    · next hstays =>
      rw [if_neg (not_or.2 ⟨hne, hstays⟩)]
      split at h
      · next hclimbs =>
        rw [if_pos hclimbs]
        cases stack with
        | nil => cases h
        | cons top lower => exact ih hpieces h
      · next hclimbs => rw [if_neg hclimbs, ih hpieces h]

theorem proper_of_walk {stack' : List (List Char)} (hstack : ∀ segment ∈ stack, Proper segment)
    (hpieces : ∀ piece ∈ pieces, piece ≠ [] ∧ '/' ∉ piece) (h : walk stack pieces = some stack') :
    ∀ segment ∈ stack', Proper segment := by
  induction pieces generalizing stack with
  | nil =>
    cases h
    exact hstack
  | cons piece pieces ih =>
    have hpiece := hpieces piece List.mem_cons_self
    have hpieces := fun p hp => hpieces p (List.mem_cons_of_mem _ hp)
    unfold walk at h
    split at h
    · exact ih hstack hpieces h
    · next hstays =>
      split at h
      · cases stack with
        | nil => cases h
        | cons top lower => exact ih (fun s hs => hstack s (List.mem_cons_of_mem _ hs)) hpieces h
      · next hclimbs =>
        refine ih (fun s hs => ?_) hpieces h
        rcases List.mem_cons.1 hs with rfl | hs
        · exact ⟨hpiece.1, hpiece.2, hstays, hclimbs⟩
        · exact hstack s hs

end Collapsing

section Directories

variable {segments : List (List Char)} {name p : List Char}

theorem isAbsoluteChars_directoryChars (h : ∀ segment ∈ segments, Proper segment)
    (hp : isAbsoluteChars p = false) : isAbsoluteChars (directoryChars segments ++ p) = false := by
  cases segments with
  | nil => exact hp
  | cons segment segments =>
    have hproper := h segment List.mem_cons_self
    cases segment with
    | nil => exact absurd rfl hproper.nonempty
    | cons c segment =>
      have hc : c ≠ '/' := fun hc => hproper.solid (hc ▸ List.mem_cons_self)
      rw [directoryChars_cons, List.append_assoc, List.cons_append]
      unfold isAbsoluteChars
      split
      · next heq => exact absurd (List.cons.inj heq).1 hc
      · rfl

theorem normalizeChars_directoryChars (h : ∀ segment ∈ segments, Proper segment)
    (hp : isAbsoluteChars p = false) : normalizeChars (directoryChars segments ++ p) =
      joinWith '/' (collapse segments.reverse (splitAt '/' p)) := by
  unfold normalizeChars
  rw [isAbsoluteChars_directoryChars h hp, splitAt_directoryChars fun s hs => (h s hs).solid,
    collapse_append h, List.append_nil]
  rfl

theorem Proper.relative (h : Proper name) : isAbsoluteChars name = false := by
  cases name with
  | nil => rfl
  | cons c name =>
    unfold isAbsoluteChars
    split
    · next heq => exact (h.solid (heq ▸ List.mem_cons_self)).elim
    · rfl

theorem normalizeChars_name (h : ∀ segment ∈ segments, Proper segment) (hname : Proper name) :
    normalizeChars (directoryChars segments ++ name) = directoryChars segments ++ name := by
  rw [normalizeChars_directoryChars h hname.relative, splitAt_of_not_mem hname.solid,
    ← joinWith_append_singleton]
  congr 1
  have hkept : collapse segments.reverse ([name] ++ []) =
      collapse ([name].reverse ++ segments.reverse) [] :=
    collapse_append (by simpa using hname) segments.reverse []
  simpa [collapse] using hkept

theorem upperChars_directoryChars (h : ∀ segment ∈ segments, Proper segment) (hname : Proper name) :
    upperChars (directoryChars (segments ++ [name])) = directoryChars segments := by
  obtain ⟨front, last, rfl⟩ : ∃ front last, name = front ++ [last] :=
    ⟨_, _, (List.dropLast_concat_getLast hname.nonempty).symm⟩
  have hsolid : '/' ∉ (front ++ [last]).reverse := fun hmem => hname.solid (List.mem_reverse.1 hmem)
  have hlast : (last == '/') = false := by
    rw [beq_eq_false_iff_ne]
    exact fun heq => hsolid (by simp [heq])
  have hrest : ((directoryChars segments).reverse.dropWhile (· != '/')).reverse =
      directoryChars segments := by
    rcases List.eq_nil_or_concat segments with rfl | ⟨lower, segment, rfl⟩
    · rfl
    · simp
  have hdrop : ((front ++ [last]).reverse ++ (directoryChars segments).reverse).dropWhile
      (· != '/') = (directoryChars segments).reverse.dropWhile (· != '/') := by
    refine List.dropWhile_append_of_pos fun c hc => ?_
    rw [bne_iff_ne]
    exact fun heq => hsolid (heq ▸ hc)
  have htext : (directoryChars (segments ++ [front ++ [last]])).reverse =
      '/' :: last :: (front.reverse ++ (directoryChars segments).reverse) := by
    simp
  unfold upperChars
  rw [htext, List.dropWhile_cons_of_pos rfl, List.dropWhile_cons_of_neg (by simp [hlast])]
  calc ((last :: (front.reverse ++ (directoryChars segments).reverse)).dropWhile (· != '/')).reverse
      = (((front ++ [last]).reverse ++ (directoryChars segments).reverse).dropWhile
          (· != '/')).reverse := by simp
    _ = ((directoryChars segments).reverse.dropWhile (· != '/')).reverse := by rw [hdrop]
    _ = directoryChars segments := hrest

end Directories

end ScriptWorker.Path
