import ScriptWorker.Proofs.Loading.Requests
import ScriptWorker.Proofs.Repositories.Spellings

/-!
# Candidates for a name

A name is tried at some paths in some repositories, one after the other. Each path ends in the
extension, so its last segment names something, and from a directory of a memory store it leads to one
entry. Trying the paths finds the first of these entries that is stored.
-/

namespace ScriptWorker

namespace Path

theorem stripStartChars_eq_some_iff {start text rest : List Char} :
    stripStartChars start text = some rest ↔ text = start ++ rest := by
  induction start generalizing text with
  | nil => simp [stripStartChars]
  | cons c start ih =>
    cases text with
    | nil => simp [stripStartChars]
    | cons d text =>
      unfold stripStartChars
      split
      · next heq => simp [ih, heq]
      · next hne => simp [Ne.symm hne]

theorem startsWith_iff {start text : String} :
    startsWith start text = true ↔ ∃ rest, text = start ++ rest := by
  unfold startsWith stripStart
  rw [Option.isSome_map, Option.isSome_iff_exists]
  constructor
  · rintro ⟨rest, h⟩
    refine ⟨String.ofList rest, String.toList_inj.1 ?_⟩
    simpa using stripStartChars_eq_some_iff.1 h
  · rintro ⟨rest, rfl⟩
    exact ⟨rest.toList, stripStartChars_eq_some_iff.2 (by simp)⟩

theorem endsWith_iff {ending text : String} :
    endsWith ending text = true ↔ ∃ stem, text = stem ++ ending := by
  unfold endsWith
  rw [Option.isSome_iff_exists]
  constructor
  · rintro ⟨rest, h⟩
    refine ⟨String.ofList rest.reverse, String.toList_inj.1 ?_⟩
    simpa using congrArg List.reverse (stripStartChars_eq_some_iff.1 h)
  · rintro ⟨stem, rfl⟩
    exact ⟨stem.toList.reverse, stripStartChars_eq_some_iff.2 (by simp)⟩

theorem splitAt_append_last {separator : Char} {ending : List Char} (h : separator ∉ ending)
    (p : List Char) :
    ∃ pieces front, splitAt separator (p ++ ending) = pieces ++ [front ++ ending] := by
  induction p with
  | nil => exact ⟨[], [], splitAt_of_not_mem h⟩
  | cons c p ih =>
    obtain ⟨pieces, front, hsplit⟩ := ih
    rw [List.cons_append, splitAt]
    split
    · exact ⟨[] :: pieces, front, by rw [hsplit, List.cons_append]⟩
    · rw [hsplit]
      cases pieces with
      | nil => exact ⟨[], c :: front, rfl⟩
      | cons piece pieces => exact ⟨(c :: piece) :: pieces, front, rfl⟩

theorem getLast?_segments {ending : String} (hfull : ending ≠ "") (hsolid : '/' ∉ ending.toList)
    (p : String) : ∃ front, (segments (p ++ ending)).getLast? = some (front ++ ending) := by
  obtain ⟨pieces, front, hsplit⟩ := splitAt_append_last hsolid p.toList
  have hkept : ([front ++ ending.toList].filter fun s => !s.isEmpty) = [front ++ ending.toList] := by
    simp [hfull]
  refine ⟨String.ofList front, ?_⟩
  unfold segments
  rw [String.toList_append, hsplit, List.filter_append, hkept, List.map_append, List.map_singleton,
    List.getLast?_concat]
  exact congrArg some (String.toList_inj.1 (by simp))

end Path

namespace ModuleName

def Near (name : String) : Prop := (∃ rest, name = "./" ++ rest) ∨ ∃ rest, name = "../" ++ rest

def Complete (extension name : String) : Prop := ∃ stem, name = stem ++ ("." ++ extension)

/-- Where a name is searched: the repositories, and the paths that are tried in each. -/
structure Search (modulePath : List Repository) (extension : String) (near : Option Repository)
    (name : String) where
  places : List Repository
  paths : List String
  /-- A near name that is asked for from a repository is searched there alone. -/
  nearby : ∀ repository, near = some repository → Near name → places = [repository]
  /-- Any other name is searched in all of the module path. -/
  everywhere : (Near name → near = none) → places = modulePath
  complete : Complete extension name → paths = [name]
  plain : ¬Complete extension name →
    paths = [name ++ "." ++ extension, name ++ "/mod." ++ extension]

def Search.attempts {modulePath : List Repository} {extension : String} {near : Option Repository}
    {name : String} (search : Search modulePath extension near name) : List (Repository × String) :=
  search.places.flatMap fun place => search.paths.map fun path => (place, path)

theorem isRelative_iff {name : String} : isRelative name = true ↔ Near name := by
  unfold isRelative Near
  rw [Bool.or_eq_true, Path.startsWith_iff, Path.startsWith_iff]

theorem candidates_of_complete {extension name : String} (h : Complete extension name) :
    candidates extension name = [name] :=
  if_pos (Path.endsWith_iff.2 h)

theorem candidates_of_not_complete {extension name : String} (h : ¬Complete extension name) :
    candidates extension name = [name ++ "." ++ extension, name ++ "/mod." ++ extension] := by
  unfold candidates
  rw [if_neg fun hends => h (Path.endsWith_iff.1 hends)]
  congr 1
  · exact String.append_assoc.symm
  · rw [show "/mod." = "/mod" ++ "." from rfl]
    simp only [String.append_assoc]

/-- The attempts that are made for a name are those of its search. -/
theorem exists_search (modulePath : List Repository) (extension : String) (near : Option Repository)
    (name : String) :
    ∃ search : Search modulePath extension near name,
      attempts modulePath extension near name = search.attempts := by
  refine ⟨⟨roots modulePath near name, candidates extension name, ?_, ?_,
    candidates_of_complete, candidates_of_not_complete⟩, rfl⟩
  · rintro repository rfl hnear
    exact if_pos (isRelative_iff.2 hnear)
  · intro hfar
    cases near with
    | none => rfl
    | some repository => exact if_neg fun hrelative => nomatch hfar (isRelative_iff.1 hrelative)

structure Plain (extension : String) : Prop where
  solid : '/' ∉ extension.toList
  letter : ∃ c rest, extension.toList = c :: rest ∧ c ≠ '.'

theorem plain_plainExtension {extension : String} (hfull : plainExtension extension ≠ "")
    (hsolid : '/' ∉ extension.toList) : Plain (plainExtension extension) where
  solid hmem := by
    rw [plainExtension, String.toList_ofList] at hmem
    exact hsolid ((List.dropWhile_sublist _).mem hmem)
  letter := by
    have hkept : (plainExtension extension).toList ≠ [] := fun heq => hfull (String.toList_inj.1 heq)
    obtain ⟨c, rest, heq⟩ := List.exists_cons_of_ne_nil hkept
    refine ⟨c, rest, heq, fun hdot => ?_⟩
    rw [plainExtension, String.toList_ofList] at heq
    have hhead := List.head?_dropWhile_not (· == '.') extension.toList
    rw [heq] at hhead
    simp [hdot] at hhead

/-- A path at which a module may be found ends in a segment that names something. -/
theorem Plain.getLast?_segments {extension name candidate : String} (h : Plain extension)
    (hcandidate : candidate ∈ candidates extension name) :
    ∀ last ∈ (Path.segments candidate).getLast?, last ≠ "." ∧ last ≠ ".." := by
  obtain ⟨c, rest, hletter, hdot⟩ := h.letter
  have hsolid : '/' ∉ ("." ++ extension).toList := by
    rw [String.toList_append, List.mem_append]
    exact not_or.2 ⟨by decide, h.solid⟩
  have hends : ∃ stem, candidate = stem ++ ("." ++ extension) := by
    by_cases hcomplete : Complete extension name
    · rw [candidates_of_complete hcomplete, List.mem_singleton] at hcandidate
      exact hcandidate ▸ hcomplete
    · rw [candidates_of_not_complete hcomplete] at hcandidate
      simp only [List.mem_cons, List.not_mem_nil, or_false] at hcandidate
      obtain rfl | rfl := hcandidate
      · exact ⟨name, String.append_assoc⟩
      · refine ⟨name ++ "/mod", ?_⟩
        rw [show "/mod." = "/mod" ++ "." from rfl]
        simp only [String.append_assoc]
  obtain ⟨stem, rfl⟩ := hends
  have hfull : "." ++ extension ≠ "" := fun heq => by
    simpa using congrArg String.toList heq
  obtain ⟨front, hlast⟩ := Path.getLast?_segments hfull hsolid stem
  intro last hmem
  rw [hlast, Option.mem_some] at hmem
  subst hmem
  have hends : (front ++ ("." ++ extension)).toList = front.toList ++ '.' :: c :: rest := by
    rw [String.toList_append, String.toList_append, hletter]
    rfl
  constructor
  · intro heq
    have hlength := congrArg List.length (hends.symm.trans (congrArg String.toList heq))
    rw [List.length_append, List.length_cons, List.length_cons] at hlength
    have hone : ".".toList.length = 1 := rfl
    omega
  · intro heq
    have hchars : front.toList ++ '.' :: c :: rest = ['.', '.'] :=
      hends.symm.trans (congrArg String.toList heq)
    have hlength := congrArg List.length hchars
    have hfront : front.toList = [] := by
      rw [← List.length_eq_zero_iff]
      simp only [List.length_append, List.length_cons, List.length_nil] at hlength
      omega
    rw [hfront, List.nil_append, List.cons.injEq, List.cons.injEq] at hchars
    exact hdot hchars.2.1

end ModuleName

end ScriptWorker
