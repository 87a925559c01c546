import ScriptWorker.Proofs.Repositories.Segments
import ScriptWorker.Repository.Storage

/-!
# Directories of a memory store

A handle that is reached from the root of a store by going down by names and up again stands for the
directory below some segments. From there a relative path leads to one more directory and a name in
it, and the entry so named is the one that the path's normal form names.
-/

namespace ScriptWorker

namespace Repository

/-- The directory of a memory store below some segments. -/
def directoryAt (store : StoreId) (storeName : String) (segments : List (List Char)) :
    Repository :=
  .memory store storeName (String.ofList (Path.directoryChars segments))

/-- What is reached from a repository by going down by names and up again. -/
inductive Reached (root : Repository) : Repository → Prop
  | root : Reached root root
  | child {r : Repository} {name : String} (tree : Files.Tree) : Reached root r →
    Path.Proper name.toList → Reached root (r.child tree name)
  | parent {r above : Repository} (tree : Files.Tree) : Reached root r →
    r.parent tree = some above → Reached root above

variable {tree : Files.Tree} {store : StoreId} {storeName name : String}
  {segments pieces : List (List Char)} {r found : Repository}

theorem child_directoryAt (h : ∀ segment ∈ segments, Path.Proper segment)
    (hname : Path.Proper name.toList) :
    (directoryAt store storeName segments).child tree name =
      directoryAt store storeName (segments ++ [name.toList]) := by
  have hnormal : Path.normalize (String.ofList (Path.directoryChars segments) ++ name) ++ "/" =
      String.ofList (Path.directoryChars (segments ++ [name.toList])) := by
    unfold Path.normalize
    rw [String.toList_append, String.toList_ofList, Path.normalizeChars_name h hname]
    apply String.toList_inj.1
    simp
  exact congrArg (memory store storeName) hnormal

theorem parent_directoryAt (h : ∀ segment ∈ segments, Path.Proper segment) {piece : List Char}
    (hpiece : Path.Proper piece) :
    (directoryAt store storeName (segments ++ [piece])).parent tree =
      some (directoryAt store storeName segments) := by
  have hfull : (String.ofList (Path.directoryChars (segments ++ [piece]))).isEmpty = false := by
    rw [String.isEmpty_eq_false_iff]
    intro heq
    have := congrArg String.toList heq
    simp at this
  change (if (String.ofList (Path.directoryChars (segments ++ [piece]))).isEmpty then none
    else some (memory store storeName _)) = _
  rw [hfull, String.toList_ofList, Path.upperChars_directoryChars h hpiece]
  rfl

theorem parent_root : (directoryAt store storeName []).parent tree = none := rfl

/-- A handle that was reached from the root of a store stands for a directory of it. -/
theorem Reached.exists_directoryAt (h : Reached (.memory store storeName "") r) :
    ∃ segments, (∀ segment ∈ segments, Path.Proper segment) ∧
      r = directoryAt store storeName segments := by
  induction h with
  | root => exact ⟨[], by simp, rfl⟩
  | @child r name tree _ hname ih =>
    obtain ⟨segments, hproper, rfl⟩ := ih
    refine ⟨segments ++ [name.toList], fun s hs => ?_, child_directoryAt hproper hname⟩
    rcases List.mem_append.1 hs with hs | hs
    · exact hproper s hs
    · exact List.mem_singleton.1 hs ▸ hname
  | @parent r above tree _ habove ih =>
    obtain ⟨segments, hproper, rfl⟩ := ih
    by_cases hnil : segments = []
    · subst hnil
      rw [parent_root] at habove
      cases habove
    · obtain ⟨lower, last, rfl⟩ : ∃ lower last, segments = lower ++ [last] :=
        ⟨_, _, (List.dropLast_concat_getLast hnil).symm⟩
      have hlower : ∀ s ∈ lower, Path.Proper s := fun s hs => hproper s (List.mem_append_left _ hs)
      have hlast : Path.Proper last := hproper last (by simp)
      rw [parent_directoryAt hlower hlast] at habove
      cases habove
      exact ⟨lower, hlower, rfl⟩

theorem descend_directoryAt (h : ∀ segment ∈ segments, Path.Proper segment)
    (hpieces : ∀ piece ∈ pieces, piece ≠ [] ∧ '/' ∉ piece) :
    (directoryAt store storeName segments).descend tree (pieces.map String.ofList) =
      (Path.walk segments.reverse pieces).map fun stack => directoryAt store storeName stack.reverse := by
  induction pieces generalizing segments with
  | nil => simp [descend, Path.walk]
  | cons piece pieces ih =>
    have hpiece := hpieces piece List.mem_cons_self
    have hpieces := fun p hp => hpieces p (List.mem_cons_of_mem _ hp)
    have hstays : String.ofList piece = "." ↔ piece = ['.'] := String.ofList_inj
    have hclimbs : String.ofList piece = ".." ↔ piece = ['.', '.'] := String.ofList_inj
    rw [List.map_cons, descend]
    unfold Path.walk
    simp only [hstays, hclimbs]
    split
    · exact ih h hpieces
    · next hnot =>
      split
      · by_cases hnil : segments = []
        · subst hnil
          rw [parent_root]
          rfl
        · obtain ⟨lower, last, rfl⟩ : ∃ lower last, segments = lower ++ [last] :=
            ⟨_, _, (List.dropLast_concat_getLast hnil).symm⟩
          have hlower : ∀ s ∈ lower, Path.Proper s := fun s hs => h s (List.mem_append_left _ hs)
          rw [parent_directoryAt hlower (h last (by simp)), Option.bind_some, ih hlower hpieces]
          simp
      · next hnot' =>
        have hproper : Path.Proper (String.ofList piece).toList := by
          rw [String.toList_ofList]
          exact ⟨hpiece.1, hpiece.2, hnot, hnot'⟩
        rw [child_directoryAt h hproper, String.toList_ofList, ih ?_ hpieces]
        · simp
        · intro s hs
          rcases List.mem_append.1 hs with hs | hs
          · exact h s hs
          · rw [List.mem_singleton.1 hs, ← String.toList_ofList (l := piece)]
            exact hproper

theorem getLast?_of_follow {p : String} (h : r.follow tree p = some (found, name)) :
    (Path.segments p).getLast? = some name := by
  unfold follow at h
  split at h
  · cases h
  · next last above hsegments =>
    obtain ⟨found', -, heq⟩ := Option.map_eq_some_iff.1 h
    cases heq
    rw [← List.head?_reverse, hsegments]
    rfl

/-- A path leads from a directory to a name in a directory, and names there what its normal form
names. -/
theorem follow_directoryAt (h : ∀ segment ∈ segments, Path.Proper segment) {p : String}
    (hfollow : (directoryAt store storeName segments).follow tree p = some (found, name))
    (hname : name ≠ "." ∧ name ≠ "..") :
    ∃ segments', (∀ segment ∈ segments', Path.Proper segment) ∧
      found = directoryAt store storeName segments' ∧ Path.Proper name.toList ∧
      (Path.isAbsolute p = false →
        Path.normalize (String.ofList (Path.directoryChars segments) ++ p) =
          String.ofList (Path.directoryChars segments') ++ name) := by
  let pieces := (Path.splitAt '/' p.toList).filter fun s => !s.isEmpty
  have hpieces : ∀ piece ∈ pieces, piece ≠ [] ∧ '/' ∉ piece := fun piece hmem => by
    obtain ⟨hsplit, hfull⟩ := List.mem_filter.1 hmem
    exact ⟨by simpa using hfull, Path.not_mem_of_mem_splitAt hsplit⟩
  obtain ⟨above, last, hends, rfl⟩ : ∃ above last, pieces = above ++ [last] ∧
      name = String.ofList last := by
    have hlast := getLast?_of_follow hfollow
    change (pieces.map String.ofList).getLast? = some name at hlast
    rw [List.getLast?_map] at hlast
    obtain ⟨last, hends, rfl⟩ := Option.map_eq_some_iff.1 hlast
    obtain ⟨above, habove⟩ := List.getLast?_eq_some_iff.1 hends
    exact ⟨above, last, habove, rfl⟩
  have hlast := hpieces last (by simp [hends])
  have habove : ∀ piece ∈ above, piece ≠ [] ∧ '/' ∉ piece := fun piece hmem =>
    hpieces piece (by simp [hends, hmem])
  have hsegments : Path.segments p = above.map String.ofList ++ [String.ofList last] := by
    change pieces.map String.ofList = _
    simp [hends]
  unfold follow at hfollow
  rw [hsegments, List.reverse_append] at hfollow
  simp only [List.reverse_singleton, List.singleton_append, List.reverse_reverse] at hfollow
  rw [descend_directoryAt h habove] at hfollow
  obtain ⟨found', hdescend, heq⟩ := Option.map_eq_some_iff.1 hfollow
  obtain ⟨stack, hwalk, rfl⟩ := Option.map_eq_some_iff.1 hdescend
  cases heq
  have hproper : Path.Proper last := by
    refine ⟨hlast.1, hlast.2, ?_, ?_⟩
    · rintro rfl
      exact hname.1 rfl
    · rintro rfl
      exact hname.2 rfl
  have hstack := Path.proper_of_walk (by simpa using h) habove hwalk
  refine ⟨stack.reverse, by simpa using hstack, rfl, by simpa using hproper, fun hrelative => ?_⟩
  unfold Path.normalize
  rw [String.toList_append, String.toList_ofList, Path.normalizeChars_directoryChars h hrelative,
    ← Path.collapse_filter]
  change String.ofList (Path.joinWith '/' (Path.collapse segments.reverse pieces)) = _
  rw [hends, Path.collapse_of_walk (fun piece hmem => (habove piece hmem).1) hwalk]
  have hkept : Path.collapse stack ([last] ++ []) = Path.collapse ([last].reverse ++ stack) [] :=
    Path.collapse_append (by simpa using hproper) stack []
  rw [← List.append_nil [last], hkept]
  apply String.toList_inj.1
  simp [Path.collapse, Path.joinWith_append_singleton]

end Repository

end ScriptWorker
