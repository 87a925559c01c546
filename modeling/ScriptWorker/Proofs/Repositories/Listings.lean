import ScriptWorker.Proofs.ByteOrder
import ScriptWorker.Proofs.Repositories.Candidates

/-!
# Listings of a memory store

An entry comes into a store by a path whose normal form is a directory with a name in it, so what is left
of an entry's path below any directory is again such a path. Looking it up from that directory comes
back to the entry, by which listings and lookups agree.
-/

namespace ScriptWorker

namespace Dictionary

variable {κ ν : Type} [DecidableEq κ] {d : Dictionary κ ν} {k : κ}

theorem mem_keys_iff : k ∈ d.keys ↔ (d.get? k).isSome := by
  unfold keys get?
  constructor
  · intro h
    obtain ⟨v, hv⟩ := exists_find_of_mem k d.entries h
    rw [hv]
    rfl
  · intro h
    by_contra hnot
    rw [find_eq_none_of_not_mem k d.entries hnot] at h
    cases h

end Dictionary

namespace Path

variable {segments lower pieces : List (List Char)} {name rest : List Char}

def Entry (entry : String) : Prop := ∃ segments name, (∀ segment ∈ segments, Proper segment) ∧
  Proper name ∧ entry.toList = directoryChars segments ++ name

theorem below_of_append (h : ∀ segment ∈ segments, '/' ∉ segment) (hpieces : ∀ piece ∈ pieces, '/' ∉ piece)
    (hname : '/' ∉ name) (heq : directoryChars segments ++ rest = directoryChars pieces ++ name) :
    ∃ lower, pieces = segments ++ lower ∧ rest = directoryChars lower ++ name := by
  have hsplit := congrArg (splitAt '/') heq
  rw [splitAt_directoryChars h, splitAt_directoryChars hpieces, splitAt_of_not_mem hname] at hsplit
  obtain ⟨lower, last, hlast⟩ : ∃ lower last, splitAt '/' rest = lower ++ [last] :=
    ⟨_, _, (List.dropLast_concat_getLast (splitAt_ne_nil '/' rest)).symm⟩
  rw [hlast, ← List.append_assoc] at hsplit
  obtain ⟨rfl, -⟩ := List.append_inj' hsplit rfl
  refine ⟨lower, rfl, ?_⟩
  rw [directoryChars_append, List.append_assoc] at heq
  exact List.append_cancel_left heq

theorem walk_of_proper (h : ∀ segment ∈ lower, Proper segment) (stack : List (List Char)) :
    walk stack lower = some (lower.reverse ++ stack) := by
  induction lower generalizing stack with
  | nil => rfl
  | cons segment lower ih =>
    have hproper := h segment List.mem_cons_self
    unfold walk
    rw [if_neg hproper.stays, if_neg hproper.climbs, ih fun s hs => h s (List.mem_cons_of_mem _ hs)]
    simp

theorem segments_directoryChars (h : ∀ segment ∈ lower, Proper segment) (hname : Proper name) :
    Path.segments (String.ofList (directoryChars lower ++ name)) = (lower ++ [name]).map String.ofList := by
  unfold Path.segments
  rw [String.toList_ofList, splitAt_directoryChars fun s hs => (h s hs).solid,
    splitAt_of_not_mem hname.solid]
  congr 1
  apply List.filter_eq_self.2
  intro piece hpiece
  rcases List.mem_append.1 hpiece with hlower | hlast
  · simpa using (h piece hlower).nonempty
  · rw [List.mem_singleton.1 hlast]
    simpa using hname.nonempty

theorem map_filterMap_stripStart (start : String) (texts : List String) :
    (texts.filterMap (stripStart start)).map (start ++ ·) = texts.filter (startsWith start) := by
  induction texts with
  | nil => rfl
  | cons text texts ih =>
    unfold startsWith at ih ⊢
    cases hstrip : stripStart start text with
    | none => rw [List.filterMap_cons_none hstrip, List.filter_cons_of_neg (by simp [hstrip]), ih]
    | some rest =>
      have htext : start ++ rest = text := by
        obtain ⟨chars, hchars, rfl⟩ := Option.map_eq_some_iff.1 hstrip
        apply String.toList_inj.1
        rw [String.toList_append, String.toList_ofList]
        exact (stripStartChars_eq_some_iff.1 hchars).symm
      rw [List.filterMap_cons_some hstrip, List.filter_cons_of_pos (by simp [hstrip]), List.map_cons, ih,
        htext]

end Path

namespace Repository

variable {tree : Files.Tree} {store : StoreId} {storeName : String} {segments lower : List (List Char)}
  {name : List Char}

theorem follow_below (h : ∀ segment ∈ segments, Path.Proper segment)
    (hlower : ∀ segment ∈ lower, Path.Proper segment) (hname : Path.Proper name) :
    (directoryAt store storeName segments).follow tree
        (String.ofList (Path.directoryChars lower ++ name)) =
      some (directoryAt store storeName (segments ++ lower), String.ofList name) := by
  have hdescend : (directoryAt store storeName segments).descend tree (lower.map String.ofList) =
      some (directoryAt store storeName (segments ++ lower)) := by
    rw [descend_directoryAt h fun piece hpiece =>
      ⟨(hlower piece hpiece).nonempty, (hlower piece hpiece).solid⟩, Path.walk_of_proper hlower]
    simp
  unfold follow
  rw [Path.segments_directoryChars hlower hname]
  simp [hdescend]

end Repository

namespace Store

theorem sorted_sortedEntries (found : Store) : found.sortedEntries.Pairwise (· ≤ ·) :=
  (List.pairwise_mergeSort (fun a b c hab hbc => by simp at hab hbc ⊢; exact hab.trans hbc)
    (fun a b => by simpa using le_total a b) found.entries.keys).imp fun h => by simpa using h

/-- There is one order in which the entries of a store are listed. -/
theorem sortedEntries_eq {found : Store} {entries : List String}
    (hperm : entries.Perm found.entries.keys) (h : entries.Pairwise (· ≤ ·)) :
    found.sortedEntries = entries := by
  have hsame : found.sortedEntries.Perm entries := (List.mergeSort_perm _ _).trans hperm.symm
  apply hsame.eq_of_pairwise (fun a b _ _ hab hba => le_antisymm hab hba)
  · exact found.sorted_sortedEntries
  · exact h

theorem pairwise_sortedEntries (found : Store) : found.sortedEntries.Pairwise Text.BytesLt := by
  have hnodup : found.sortedEntries.Nodup :=
    (List.mergeSort_perm _ _).nodup_iff.2 found.entries.nodup
  apply (found.sorted_sortedEntries.and hnodup).imp
  intro a b hab
  exact (Text.lt_iff_bytesLt a b).1 (lt_of_le_of_ne hab.1 hab.2)

theorem mem_sortedEntries {found : Store} {entry : String} :
    entry ∈ found.sortedEntries ↔ (found.entries.get? entry).isSome := by
  unfold sortedEntries
  rw [List.mem_mergeSort, Dictionary.mem_keys_iff]

end Store

def StoreEdit.path? : StoreEdit → Option String
  | .insert path _ => some path
  | .remove path => some path
  | .touch => none

namespace Storage

/-! ## Stores that are filled through their repositories -/

/-- A relative path that leads from a repository to a name other than `.` and `..`. -/
structure Accepts (s : Storage) (r : Repository) (path : String) : Prop where
  relative : Path.isAbsolute path = false
  found : (s.lookup r path).1.isSome
  named : ∀ name ∈ (Path.segments path).getLast?, name ≠ "." ∧ name ≠ ".."

/-- What can come of a store by insertions and removals at accepted paths, from any directory of it,
whatever is done to other stores in between. -/
inductive Stocked (store : StoreId) (storeName : String) : Storage → Prop
  | created (s : Storage) (now : UInt64) : s.stores.size = store →
    Stocked store storeName (s.createStore storeName now).2
  | inserted {s : Storage} {directory path : String} (content : ByteArray) : Stocked store storeName s →
    Repository.Reached (.memory store storeName "") (.memory store storeName directory) →
    s.Accepts (.memory store storeName directory) path →
    Stocked store storeName (s.writeEntry store directory path content)
  | removed {s : Storage} {directory path : String} : Stocked store storeName s →
    Repository.Reached (.memory store storeName "") (.memory store storeName directory) →
    s.Accepts (.memory store storeName directory) path →
    Stocked store storeName (s.dropEntry store directory path).2
  | elsewhere {s s' : Storage} : Stocked store storeName s →
    (s'.stores.get? store).map Store.entries = (s.stores.get? store).map Store.entries →
    Stocked store storeName s'

variable {s s' : Storage} {store : StoreId} {storeName directory path : String} {r : Repository}

theorem Accepts.entry (h : s.Accepts (.memory store storeName directory) path)
    (hr : Repository.Reached (.memory store storeName "") (.memory store storeName directory)) :
    Path.Entry (Path.normalize (directory ++ path)) := by
  obtain ⟨segments, hproper, hdirectory⟩ := hr.exists_directoryAt
  obtain ⟨resource, hfound⟩ := Option.isSome_iff_exists.1 h.found
  unfold lookup at hfound
  split at hfound
  · cases hfound
  · next found name hfollow =>
    have hlast := h.named name (Repository.getLast?_of_follow hfollow)
    rw [hdirectory] at hfollow
    obtain ⟨segments', hproper', -, hname, hnormal⟩ :=
      Repository.follow_directoryAt hproper hfollow hlast
    cases hdirectory
    refine ⟨segments', name.toList, hproper', hname, ?_⟩
    rw [hnormal h.relative]
    simp

theorem Stocked.entries (h : Stocked store storeName s) : ∃ found, s.stores.get? store = some found ∧
    ∀ entry, (found.entries.get? entry).isSome → Path.Entry entry := by
  induction h with
  | created s now hstore =>
    subst hstore
    refine ⟨Store.create storeName now, ?_, fun entry hentry => ?_⟩
    · unfold createStore
      rw [Table.get?_push, if_pos rfl]
    · cases hentry
  | @inserted s directory path content _ hr haccepts ih =>
    obtain ⟨found, hfound, hentries⟩ := ih
    refine ⟨found.write (Path.normalize (directory ++ path)) content, ?_, fun entry hentry => ?_⟩
    · unfold writeEntry
      rw [Table.get?_modify, if_pos rfl, hfound]
      rfl
    · unfold Store.write at hentry
      rw [Dictionary.get?_insert] at hentry
      by_cases heq : Path.normalize (directory ++ path) = entry
      · exact heq ▸ haccepts.entry hr
      · rw [if_neg heq] at hentry
        exact hentries entry hentry
  | @removed s directory path _ _ _ ih =>
    obtain ⟨found, hfound, hentries⟩ := ih
    refine ⟨found.drop (Path.normalize (directory ++ path)), ?_, fun entry hentry => ?_⟩
    · unfold dropEntry
      rw [Table.get?_modify, if_pos rfl, hfound]
      rfl
    · unfold Store.drop at hentry
      rw [Dictionary.get?_erase] at hentry
      split at hentry
      · cases hentry
      · exact hentries entry hentry
  | elsewhere _ hsame ih =>
    obtain ⟨found, hfound, hentries⟩ := ih
    rw [hfound] at hsame
    obtain ⟨found', hfound', hsame⟩ := Option.map_eq_some_iff.1 hsame
    exact ⟨found', hfound', fun entry hentry => hentries entry (hsame ▸ hentry)⟩

theorem Stocked.bump (h : Stocked store storeName s) (store' : StoreId) (now : UInt64) :
    Stocked store storeName (s.bump store' now) := by
  apply h.elsewhere
  unfold Storage.bump
  rw [Table.get?_modify]
  split
  · cases s.stores.get? store <;> rfl
  · rfl

theorem Stocked.edited {L : Language} {w v : World L} {change : StoreEdit} {outcome : Outcome Bool}
    (h : Stocked store storeName w.storage)
    (hr : Repository.Reached (.memory store storeName "") (.memory store storeName directory))
    (haccepts : ∀ path ∈ change.path?, w.storage.Accepts (.memory store storeName directory) path)
    (hrun : ((Repository.memory store storeName directory).edit change).alone w = some (outcome, v)) :
    Stocked store storeName v.storage := by
  cases change with
  | insert path content =>
    obtain ⟨-, rfl⟩ := Prod.mk.inj (Option.some.inj hrun)
    exact (h.inserted content hr (haccepts path rfl)).bump _ _
  | remove path =>
    have hdropped := h.removed hr (haccepts path rfl)
    rcases hdrop : w.storage.dropEntry store directory path with ⟨there, storage⟩
    rw [hdrop] at hdropped
    cases there with
    | true =>
      have hv : v = { w with storage := storage.bump store w.wallClock } := by
        simp [Program.alone, Repository.edit, Program.transact, Program.modify, bind, Program.bind,
          Program.thenOutcome, Program.evaluate, hdrop, pure] at hrun
        exact hrun.2.symm
      rw [hv]
      exact hdropped.bump _ _
    | false =>
      have hv : v = { w with storage := storage } := by
        simp [Program.alone, Repository.edit, Program.transact, Program.modify, bind, Program.bind,
          Program.thenOutcome, Program.evaluate, hdrop, pure] at hrun
        exact hrun.2.symm
      rw [hv]
      exact hdropped
  | touch =>
    obtain ⟨-, rfl⟩ := Prod.mk.inj (Option.some.inj hrun)
    exact h.bump _ _

/-! ## Handles of a listing -/

theorem resourcesNamed_spec (storeName : String) (names : List String) (s : Storage) :
    ∃ listed s', s.resourcesNamed (.memory store storeName directory) names = (listed, s') ∧
      s'.stores = s.stores ∧ s'.files = s.files ∧ listed.map Resource.name = names ∧
      (∀ place row, s.existence.get? place = some row → s'.existence.get? place = some row) ∧
      ∀ resource ∈ listed, ∃ place, s'.existence.get? place = some none ∧
        resource = .memory store storeName directory resource.name place := by
  induction names generalizing s with
  | nil => exact ⟨[], s, rfl, rfl, rfl, rfl, fun _ _ h => h, fun _ h => nomatch h⟩
  | cons name names ih =>
    obtain ⟨listed, s', hlisted, hstores, hfiles, hnames, hkept, hhandles⟩ :=
      ih (s.resource (.memory store storeName directory) name).2
    have hfirst : s'.existence.get? s.existence.size = some none := by
      apply hkept
      exact (Table.get?_push _ _ _).trans (if_pos rfl)
    refine ⟨.memory store storeName directory name s.existence.size :: listed, s', ?_, hstores, hfiles,
      ?_, fun place row hrow => hkept place row ?_, fun resource hresource => ?_⟩
    · unfold resourcesNamed
      simp only [hlisted]
      rfl
    · rw [List.map_cons, hnames]
      rfl
    · have hlt : place ≠ s.existence.size := by
        intro hsize
        unfold Table.get? Table.size at *
        rw [hsize, List.getElem?_eq_none (Nat.le_refl _)] at hrow
        cases hrow
      exact (Table.get?_push _ _ _).trans ((if_neg hlt).trans hrow)
    · rcases List.mem_cons.1 hresource with rfl | hresource
      · exact ⟨_, hfirst, rfl⟩
      · exact hhandles resource hresource

theorem map_entryNames {found : Store} (hfound : s.stores.get? store = some found) (directory : String) :
    (s.entryNames store directory true).map (directory ++ ·) =
      found.sortedEntries.filter (Path.startsWith directory) := by
  unfold entryNames
  rw [hfound]
  simp only [Bool.true_or, List.filter_true]
  exact Path.map_filterMap_stripStart _ _

theorem entryNames_false (s : Storage) (store : StoreId) (directory : String) :
    s.entryNames store directory false =
      (s.entryNames store directory true).filter fun name => !name.toList.contains '/' := by
  unfold entryNames
  split
  · rfl
  · simp

theorem lookup_below (hr : Repository.Reached (.memory store storeName "") (.memory store storeName directory))
    {name : String} (hentry : Path.Entry (directory ++ name)) :
    Resource.entryOf directory name = directory ++ name ∧
      ∃ resource, (s.lookup (.memory store storeName directory) name).1 = some resource ∧
        resource.key = "memory:" ++ storeName ++ "/" ++ (directory ++ name) ∧
        s.glance (.memory store storeName directory) name =
          some (tell (s.entry? store (directory ++ name)) resource.path) := by
  obtain ⟨segments, hproper, hdirectory⟩ := hr.exists_directoryAt
  cases hdirectory
  obtain ⟨pieces, last, hpieces, hlast, htext⟩ := hentry
  rw [String.toList_append, String.toList_ofList] at htext
  obtain ⟨lower, rfl, hname⟩ := Path.below_of_append (fun s hs => (hproper s hs).solid)
    (fun s hs => (hpieces s hs).solid) hlast.solid htext
  obtain rfl : name = String.ofList (Path.directoryChars lower ++ last) := by
    rw [← hname, String.ofList_toList]
  have hlower : ∀ segment ∈ lower, Path.Proper segment := fun s hs =>
    hpieces s (List.mem_append_right _ hs)
  have hnormal : Path.normalize (String.ofList (Path.directoryChars segments) ++
      String.ofList (Path.directoryChars lower ++ last)) =
      String.ofList (Path.directoryChars segments) ++ String.ofList (Path.directoryChars lower ++ last) := by
    unfold Path.normalize
    rw [String.toList_append, String.toList_ofList, htext, Path.normalizeChars_name hpieces hlast, ← htext,
      String.toList_ofList, String.ofList_append]
  have hlookup : (s.lookup (.memory store storeName (String.ofList (Path.directoryChars segments)))
      (String.ofList (Path.directoryChars lower ++ last))).1 =
      some (s.resource (Repository.directoryAt store storeName (segments ++ lower)) (String.ofList last)).1 := by
    unfold lookup
    rw [show Repository.memory store storeName _ = Repository.directoryAt store storeName segments from rfl,
      Repository.follow_below hproper hlower hlast]
  have hrelative : Path.isAbsolute (String.ofList (Path.directoryChars lower ++ last)) = false := by
    unfold Path.isAbsolute
    rw [String.toList_ofList]
    exact Path.isAbsoluteChars_directoryChars hlower hlast.relative
  have hnamed : ∀ name ∈ (Path.segments (String.ofList (Path.directoryChars lower ++ last))).getLast?,
      name ≠ "." ∧ name ≠ ".." := by
    rw [Path.segments_directoryChars hlower hlast, List.map_append, List.map_singleton, List.getLast?_concat]
    rintro name ⟨⟩
    constructor
    · intro heq
      exact hlast.stays (by simpa using congrArg String.toList heq)
    · intro heq
      exact hlast.climbs (by simpa using congrArg String.toList heq)
  obtain ⟨directory, heq, hnames, hglance⟩ := names_of_lookup hr hrelative hnamed hlookup
  cases heq
  have hsame := hglance s rfl
  rw [hnormal] at hsame hnames
  exact ⟨hnormal, _, hlookup, hnames.key_eq, hsame⟩

/-! ## Listings and lookups -/

/-- What a repository tells of the entries below it, as a whole and directly in it, and whether it is
there. -/
structure Lists (s : Storage) (store : StoreId) (storeName directory : String) (listed direct : List Resource)
    (s' : Storage) : Prop where
  /-- The listing has the stored entries below the directory. -/
  complete : ∀ entry, entry ∈ listed.map (fun resource => directory ++ resource.name) ↔
    (s.entry? store entry).isSome ∧ Path.startsWith directory entry
  /-- It has each of them once, and in byte order. -/
  ordered : (listed.map fun resource => directory ++ resource.name).Pairwise Text.BytesLt
  existing : ∀ resource ∈ listed, (s'.resourceExists resource).1 = true
  /-- Looking a name up that is listed gives a resource of the same key and with the same bytes. -/
  found : ∀ resource ∈ listed, ∃ other content,
    (s'.lookup (.memory store storeName directory) resource.name).1 = some other ∧
    other.key = resource.key ∧ s'.read resource = .ok content ∧
    s'.glance (.memory store storeName directory) resource.name = some (true, .ok content) ∧
    s.entry? store (directory ++ resource.name) = some content
  /-- The other listing has those of them that are directly there. -/
  directly : direct.map Resource.key =
    (listed.filter fun resource => !resource.name.toList.contains '/').map Resource.key
  /-- Other than the root, a directory is there if something is below it. -/
  nonempty : directory ≠ "" →
    (s.repositoryExists (.memory store storeName directory) = true ↔ listed ≠ [])

theorem exists_and_read (hr : Repository.Reached (.memory store storeName "") (.memory store storeName directory))
    {name : String} (hentry : Path.Entry (directory ++ name)) {place : ExistenceId} {content : ByteArray}
    (hfresh : s.existence.get? place = some none)
    (hcontent : s.entry? store (directory ++ name) = some content) :
    (s.resourceExists (.memory store storeName directory name place)).1 = true ∧
      s.read (.memory store storeName directory name place) = .ok content := by
  have hnormal := (lookup_below (s := s) hr hentry).1
  constructor
  · unfold resourceExists
    simp only [hfresh, hnormal, hcontent, Option.isSome_some]
  · unfold read
    simp only [hnormal, hcontent]

theorem repositoryExists_iff {found : Store} (hfound : s.stores.get? store = some found)
    (hroot : directory ≠ "") : s.repositoryExists (.memory store storeName directory) = true ↔
      ∃ entry, (found.entries.get? entry).isSome ∧ Path.startsWith directory entry = true := by
  unfold repositoryExists
  simp only [hfound, Bool.or_eq_true, String.isEmpty_iff, hroot, false_or, List.any_eq_true,
    Dictionary.mem_keys_iff]

theorem key_of_listed {listed : List Resource} (h : ∀ resource ∈ listed, ∃ place : ExistenceId,
    resource = .memory store storeName directory resource.name place) :
    listed.map Resource.key =
      (listed.map Resource.name).map fun name => "memory:" ++ storeName ++ "/" ++ directory ++ name := by
  rw [List.map_map]
  apply List.map_congr_left
  intro resource hresource
  obtain ⟨place, heq⟩ := h resource hresource
  rw [heq]
  rfl

/-- Listings and lookups of a memory repository agree, whatever was inserted and removed. -/
theorem Stocked.lists (h : Stocked store storeName s)
    (hr : Repository.Reached (.memory store storeName "") (.memory store storeName directory)) :
    ∃ listed s' direct s'', s.resources (.memory store storeName directory) true = .ok (listed, s') ∧
      s.resources (.memory store storeName directory) false = .ok (direct, s'') ∧
      s.Lists store storeName directory listed direct s' := by
  obtain ⟨found, hfound, hentries⟩ := h.entries
  obtain ⟨listed, s', hlisted, hstores, hfiles, hnames, -, hhandles⟩ :=
    resourcesNamed_spec storeName (s.entryNames store directory true) s
  obtain ⟨direct, s'', hdirect, -, -, hdirectNames, -, hdirectHandles⟩ :=
    resourcesNamed_spec storeName (s.entryNames store directory false) s
  have hwhole : listed.map (fun resource => directory ++ resource.name) =
      found.sortedEntries.filter (Path.startsWith directory) := by
    rw [← map_entryNames hfound, ← hnames, List.map_map]
    rfl
  have hentry (entry : String) : s.entry? store entry = found.entries.get? entry := by
    unfold entry?
    rw [hfound, Option.bind_some]
  have hsame (entry : String) : s'.entry? store entry = s.entry? store entry := by
    unfold entry?
    rw [hstores]
  have hcomplete (entry : String) : entry ∈ listed.map (fun resource => directory ++ resource.name) ↔
      (s.entry? store entry).isSome ∧ Path.startsWith directory entry := by
    rw [hwhole, List.mem_filter, Store.mem_sortedEntries, hentry]
  have hstored (resource : Resource) (hresource : resource ∈ listed) :
      ∃ content, s.entry? store (directory ++ resource.name) = some content ∧
        Path.Entry (directory ++ resource.name) := by
    have hsome := ((hcomplete _).1 (List.mem_map_of_mem hresource)).1
    obtain ⟨content, hcontent⟩ := Option.isSome_iff_exists.1 hsome
    exact ⟨content, hcontent, hentries _ (hentry _ ▸ hsome)⟩
  refine ⟨listed, s', direct, s'', congrArg Except.ok hlisted, congrArg Except.ok hdirect, hcomplete,
    ?ordered, ?existing, ?found, ?directly, ?nonempty⟩
  case ordered =>
    rw [hwhole]
    exact found.pairwise_sortedEntries.filter _
  case existing =>
    intro resource hresource
    obtain ⟨place, hfresh, heq⟩ := hhandles resource hresource
    obtain ⟨content, hcontent, hentry⟩ := hstored resource hresource
    rw [heq]
    exact (exists_and_read hr hentry hfresh ((hsame _).trans hcontent)).1
  case found =>
    intro resource hresource
    obtain ⟨place, hfresh, heq⟩ := hhandles resource hresource
    obtain ⟨content, hcontent, hentry⟩ := hstored resource hresource
    obtain ⟨-, other, hlookup, hkey, hglance⟩ := lookup_below (s := s') hr hentry
    rw [hsame, hcontent] at hglance
    refine ⟨other, content, hlookup, ?_, ?_, hglance, hcontent⟩
    · rw [hkey, heq, ← String.append_assoc]
      rfl
    · rw [heq]
      exact (exists_and_read hr hentry hfresh ((hsame _).trans hcontent)).2
  case directly =>
    rw [key_of_listed fun resource hresource =>
        (hdirectHandles resource hresource).imp fun _ h => h.2,
      key_of_listed fun resource hresource =>
        (hhandles resource (List.mem_filter.1 hresource).1).imp fun _ h => h.2,
      hdirectNames, entryNames_false, ← hnames, List.filter_map]
    rfl
  case nonempty =>
    intro hroot
    rw [repositoryExists_iff hfound hroot]
    constructor
    · rintro ⟨entry, hthere, hbelow⟩ rfl
      have hlists := (hcomplete entry).2 ⟨hentry entry ▸ hthere, hbelow⟩
      cases hlists
    · intro hfull
      obtain ⟨resource, rest, hlist⟩ := List.exists_cons_of_ne_nil hfull
      have hmem : resource ∈ listed := by
        rw [hlist]
        exact List.mem_cons_self
      have hthere := (hcomplete (directory ++ resource.name)).1 (List.mem_map_of_mem hmem)
      exact ⟨_, hentry _ ▸ hthere.1, hthere.2⟩

/-- A store in which one entry has the name of a directory, another one shares a beginning with it, and a
third one went away again. -/
def overlapping : Storage :=
  ((((((Storage.empty.createStore "app" 0).2.writeEntry 0 "" "a/b" ⟨#[1]⟩).writeEntry 0 "" "ab" ⟨#[2]⟩).writeEntry
    0 "" "a" ⟨#[3]⟩).writeEntry 0 "a/" "./c/../c//d" ⟨#[4]⟩).writeEntry 0 "a/" "e" ⟨#[5]⟩)
    |>.dropEntry 0 "" "a/e" |>.2

theorem overlapping_lists : ∃ listed s' direct s'', Stocked 0 "app" overlapping ∧
    Repository.Reached (.memory 0 "app" "") (.memory 0 "app" "a/") ∧
    overlapping.resources (.memory 0 "app" "a/") true = .ok (listed, s') ∧
    overlapping.resources (.memory 0 "app" "a/") false = .ok (direct, s'') ∧
    listed.map Resource.name = ["b", "c/d"] ∧ direct.map Resource.name = ["b"] ∧
    overlapping.Lists 0 "app" "a/" listed direct s' := by
  have hroot : Repository.Reached (.memory 0 "app" "") (.memory 0 "app" "") := .root
  have hname : Path.Proper "a".toList := ⟨by decide, by decide, by decide, by decide⟩
  have hbelow : Repository.Reached (.memory 0 "app" "") (.memory 0 "app" "a/") :=
    .child Files.Tree.empty .root hname
  have hstocked : Stocked 0 "app" overlapping := by
    refine .removed (.inserted _ (.inserted _ (.inserted _ (.inserted _ (.inserted _ (.created _ 0 rfl)
      hroot ?_) hroot ?_) hroot ?_) hbelow ?_) hbelow ?_) hroot ?_ <;>
      exact ⟨by decide, by decide +kernel, by decide +kernel⟩
  obtain ⟨listed, s', direct, s'', hlisted, hdirect, hlists⟩ := hstocked.lists hbelow
  have hkeys : (overlapping.stores.get? 0).map (fun found => found.entries.keys) =
      some ["a/b", "ab", "a", "a/c/d"] := by decide +kernel
  obtain ⟨found, hfound, hkeys⟩ := Option.map_eq_some_iff.1 hkeys
  have hsorted : found.sortedEntries = ["a", "a/b", "a/c/d", "ab"] :=
    Store.sortedEntries_eq (by rw [hkeys]; decide) (by decide)
  have hbelowNames : overlapping.entryNames 0 "a/" true = ["b", "c/d"] := by
    unfold entryNames
    rw [hfound]
    dsimp only
    rw [hsorted]
    decide +kernel
  have hdirectlyNames : overlapping.entryNames 0 "a/" false = ["b"] := by
    rw [entryNames_false, hbelowNames]
    decide
  have hnames : listed.map Resource.name = ["b", "c/d"] := by
    have hsame := congrArg (fun found => found.1.map Resource.name) (Except.ok.inj hlisted)
    rw [hbelowNames] at hsame
    exact hsame.symm
  have hdirectNames : direct.map Resource.name = ["b"] := by
    have hsame := congrArg (fun found => found.1.map Resource.name) (Except.ok.inj hdirect)
    rw [hdirectlyNames] at hsame
    exact hsame.symm
  exact ⟨listed, s', direct, s'', hstocked, hbelow, hlisted, hdirect, hnames, hdirectNames, hlists⟩

end Storage

end ScriptWorker
