import ScriptWorker.Proofs.Loading.Importing
import ScriptWorker.Proofs.Repositories.Directories

/-!
# Spellings of a path

An entry of a memory store can be named by many paths from many directories. Looking a path up, writing
at it and removing it all come to the entry that its normal form names, and the key of a resource is
that entry behind the name of the store. So two spellings have one key just when they name one entry.
-/

namespace ScriptWorker

variable {L : Language}

/-- What a program that runs no code from outside comes to when nobody interferes. -/
def Program.alone {α : Type} (p : Run L α) (w : World L) : Option (Outcome α × World L) :=
  (p.evaluate (fun _ _ => (none : Option (_ × _ × List Empty))) w).map fun (o, w', _) => (o, w')

theorem Program.alone_bind {α β : Type} (p : Run L β) (f : β → Run L α) (w : World L) :
    (p >>= f).alone w = (p.alone w).bind fun (o, v) =>
      match o with
      | .done b => (f b).alone v
      | .panic payload => some (.panic payload, v) := by
  unfold Program.alone
  rw [show (p >>= f) = p.thenOutcome _ from rfl, Program.evaluate_thenOutcome]
  cases p.evaluate (fun _ _ => none) w with
  | none => rfl
  | some first =>
    obtain ⟨o, v, t⟩ := first
    cases o with
    | panic payload => rfl
    | done b =>
      dsimp only [Option.map_some, Option.bind_some]
      cases (f b).evaluate (fun _ _ => none) v <;> rfl

theorem Program.alone_read_bind {α β : Type} (f : World L → β) (g : β → Run L α) (w : World L) :
    (Program.read f >>= g).alone w = (g (f w)).alone w := rfl

theorem Program.alone_transact_bind {α β : Type} (f : World L → β × World L) (g : β → Run L α)
    (w : World L) : (Program.transact f >>= g).alone w = (g (f w).1).alone (f w).2 := rfl

namespace Storage

/-- What a fresh handle for a path tells: whether the resource is there, and its bytes. -/
def glance (s : Storage) (r : Repository) (path : String) :
    Option (Bool × Except IoFailure ByteArray) :=
  match s.lookup r path with
  | (none, _) => none
  | (some resource, s) =>
    let (found, s) := s.resourceExists resource
    some (found, s.read resource)

def tell (content : Option ByteArray) (path : String) : Bool × Except IoFailure ByteArray :=
  (content.isSome, match content with
    | some content => .ok content
    | none => .error ⟨.notFound, some (path ++ " not found")⟩)

/-- One entry of the stores was set or taken out, and no file changed. -/
structure Puts (s s' : Storage) (store : StoreId) (entry : String) (content : Option ByteArray) :
    Prop where
  files : s'.files = s.files
  entries : ∀ store' entry', s'.entry? store' entry' =
    if store' = store ∧ entry' = entry then content else s.entry? store' entry'

variable {s s' : Storage} {store : StoreId} {found : Store} {entry : String}
  {content : Option ByteArray}

theorem puts_writeEntry (hstore : s.stores.get? store = some found) (directory path : String)
    (content : ByteArray) : s.Puts (s.writeEntry store directory path content) store
      (Path.normalize (directory ++ path)) (some content) where
  files := rfl
  entries store' entry' := by
    unfold entry? writeEntry
    rw [Table.get?_modify]
    by_cases hsame : store = store'
    · subst hsame
      rw [if_pos rfl, hstore]
      simp only [Option.map_some, Option.bind_some, Store.write, Dictionary.get?_insert, true_and,
        eq_comm]
    · rw [if_neg hsame, if_neg fun h => hsame h.1.symm]

theorem puts_dropEntry (s : Storage) (store : StoreId) (directory path : String) :
    s.Puts (s.dropEntry store directory path).2 store (Path.normalize (directory ++ path)) none where
  files := rfl
  entries store' entry' := by
    unfold entry? dropEntry
    rw [Table.get?_modify]
    by_cases hsame : store = store'
    · subst hsame
      cases s.stores.get? store with
      | none => simp
      | some found =>
        simp only [if_true, Option.map_some, Option.bind_some, Store.drop, Dictionary.get?_erase,
          true_and, eq_comm]
    · rw [if_neg hsame, if_neg fun h => hsame h.1.symm]

@[simp] theorem entry_bump (s : Storage) (store : StoreId) (now : UInt64) (store' : StoreId)
    (entry : String) : entry? (s.bump store now) store' entry = s.entry? store' entry := by
  unfold entry? bump
  rw [Table.get?_modify]
  split
  · cases s.stores.get? store' <;> rfl
  · rfl

theorem Puts.bump (h : s.Puts s' store entry content) (now : UInt64) :
    s.Puts (s'.bump store now) store entry content where
  files := h.files
  entries store' entry' := by rw [entry_bump, h.entries]

theorem Puts.tell (h : s.Puts s' store entry content) (entry' path : String) :
    Storage.tell (s'.entry? store entry') path =
      if entry = entry' then Storage.tell content path
      else Storage.tell (s.entry? store entry') path := by
  rw [h.entries]
  simp only [true_and, eq_comm]
  split <;> rfl

end Storage

def Resource.Names (resource : Resource) (store : StoreId) (storeName entry : String) : Prop :=
  ∃ directory name place, resource = .memory store storeName directory name place ∧
    Resource.entryOf directory name = entry ∧ directory ++ name = entry

theorem Resource.Names.key_eq {resource : Resource} {store : StoreId} {storeName entry : String}
    (h : resource.Names store storeName entry) :
    resource.key = "memory:" ++ storeName ++ "/" ++ entry := by
  obtain ⟨directory, name, place, rfl, -, hname⟩ := h
  rw [← hname, ← String.append_assoc]
  rfl

section Lookups

variable {s : Storage} {store : StoreId} {storeName p : String} {r : Repository} {resource : Resource}

/-- Where a path leads from a directory of a store, if it does not climb above the root: the entry there
is spelled as its directory and name are, and as the path's normal form unless a slash begins it. -/
theorem Repository.Reached.follow (hr : Reached (.memory store storeName "") r)
    (hlast : ∀ name ∈ (Path.segments p).getLast?, name ≠ "." ∧ name ≠ "..") {tree : Files.Tree}
    {found : Repository} {name : String} (hfollow : r.follow tree p = some (found, name)) :
    ∃ directory directory', r = .memory store storeName directory ∧
      found = .memory store storeName directory' ∧
      Resource.entryOf directory' name = directory' ++ name ∧
      (Path.isAbsolute p = false → directory' ++ name = Path.normalize (directory ++ p)) := by
  obtain ⟨segments, hproper, rfl⟩ := hr.exists_directoryAt
  obtain ⟨segments', hproper', rfl, hname, hnormal⟩ :=
    follow_directoryAt hproper hfollow (hlast name (getLast?_of_follow hfollow))
  refine ⟨_, _, rfl, rfl, ?_, fun hp => (hnormal hp).symm⟩
  unfold Resource.entryOf Path.normalize
  rw [String.toList_append, String.toList_ofList, Path.normalizeChars_name hproper' hname]
  apply String.toList_inj.1
  simp

theorem Storage.names_of_lookup (hr : Repository.Reached (.memory store storeName "") r)
    (hp : Path.isAbsolute p = false)
    (hlast : ∀ name ∈ (Path.segments p).getLast?, name ≠ "." ∧ name ≠ "..")
    (hlookup : (s.lookup r p).1 = some resource) :
    ∃ directory, r = .memory store storeName directory ∧
      resource.Names store storeName (Path.normalize (directory ++ p)) ∧
      ∀ s' : Storage, s'.files = s.files → s'.glance r p =
        some (tell (s'.entry? store (Path.normalize (directory ++ p))) resource.path) := by
  unfold lookup at hlookup
  split at hlookup
  · cases hlookup
  · next found name hfollow =>
    obtain ⟨directory, directory', rfl, rfl, hplain, hnormal⟩ := hr.follow hlast hfollow
    have hname := hnormal hp
    have hentry := hplain.trans hname
    cases hlookup
    refine ⟨directory, rfl, ⟨directory', name, _, rfl, hentry, hname⟩, fun s' hfiles => ?_⟩
    have hfresh : (s'.existence.push none).get? s'.existence.size = some none := by
      rw [Table.get?_push, if_pos rfl]
    unfold glance lookup
    rw [hfiles, hfollow]
    simp only [Storage.resource, resourceExists, hfresh, tell, read, hentry]
    rfl

end Lookups

namespace World

/-- An insertion at a path writes one entry of a store and leaves all others as they are. -/
def Writes (w : World L) (store : StoreId) (r : Repository) (path entry : String) : Prop :=
  ∀ content, ∃ v, (r.edit (.insert path content)).alone w = some (.done true, v) ∧
    w.storage.Puts v.storage store entry (some content)

/-- Two paths, each from a directory of a store, with the resources they lead to: the resources have
one key just when the paths name one entry, and then what is done at one path shows at the other. -/
structure Agree (w : World L) (store : StoreId) (r : Repository) (p : String) (r' : Repository)
    (q : String) (resource resource' : Resource) : Prop where
  entries : ∃ entry entry', w.Writes store r p entry ∧ w.Writes store r' q entry' ∧
    (resource.key = resource'.key ↔ entry = entry')
  inserted : ∀ content, ∃ v, (r.edit (.insert p content)).alone w = some (.done true, v) ∧
    v.storage.glance r' q =
      if resource.key = resource'.key then some (true, .ok content) else w.storage.glance r' q
  /-- A removal says whether there was something to remove. -/
  removed : ∃ there bytes v, w.storage.glance r p = some (there, bytes) ∧
    (r.edit (.remove p)).alone w = some (.done there, v) ∧
    v.storage.glance r' q =
      if resource.key = resource'.key then
        some (false, .error ⟨.notFound, some (resource'.path ++ " not found")⟩)
      else w.storage.glance r' q

variable {w : World L} {store : StoreId} {found : Store} {storeName : String} {r r' : Repository}
  {p q : String} {resource resource' : Resource}

theorem writes (hstore : w.storage.stores.get? store = some found) (directory path : String) :
    w.Writes store (.memory store storeName directory) path (Path.normalize (directory ++ path)) :=
  fun content => ⟨_, rfl, (Storage.puts_writeEntry hstore directory path content).bump _⟩

theorem removes (w : World L) (store : StoreId) (storeName directory path : String) :
    ∃ v, ((Repository.memory store storeName directory).edit (.remove path)).alone w = some
        (.done (w.storage.entry? store (Path.normalize (directory ++ path))).isSome, v) ∧
      w.storage.Puts v.storage store (Path.normalize (directory ++ path)) none := by
  have hputs := w.storage.puts_dropEntry store directory path
  rw [show (w.storage.entry? store (Path.normalize (directory ++ path))).isSome =
    (w.storage.dropEntry store directory path).1 from rfl]
  rcases hdrop : w.storage.dropEntry store directory path with ⟨there, storage⟩
  rw [hdrop] at hputs
  cases there with
  | true =>
    refine ⟨{ w with storage := storage.bump store w.wallClock }, ?_, hputs.bump _⟩
    simp [Program.alone, Repository.edit, Program.transact, Program.modify, bind, Program.bind,
      Program.thenOutcome, Program.evaluate, hdrop, pure, World.wallClock]
  | false =>
    refine ⟨{ w with storage := storage }, ?_, hputs⟩
    simp [Program.alone, Repository.edit, Program.transact, Program.modify, bind, Program.bind,
      Program.thenOutcome, Program.evaluate, hdrop, pure]

/-- However the path of an entry is spelled, from whichever directory, lookups, insertions, removals and
keys agree on it. -/
theorem spellings_agree (hstore : w.storage.stores.get? store = some found)
    (hr : Repository.Reached (.memory store storeName "") r)
    (hr' : Repository.Reached (.memory store storeName "") r')
    (hp : Path.isAbsolute p = false) (hq : Path.isAbsolute q = false)
    (hlast : ∀ name ∈ (Path.segments p).getLast?, name ≠ "." ∧ name ≠ "..")
    (hlast' : ∀ name ∈ (Path.segments q).getLast?, name ≠ "." ∧ name ≠ "..")
    (hlookup : (w.storage.lookup r p).1 = some resource)
    (hlookup' : (w.storage.lookup r' q).1 = some resource') :
    w.Agree store r p r' q resource resource' := by
  obtain ⟨directory, rfl, hnames, hglance⟩ := Storage.names_of_lookup hr hp hlast hlookup
  obtain ⟨directory', rfl, hnames', hglance'⟩ := Storage.names_of_lookup hr' hq hlast' hlookup'
  have hkey : resource.key = resource'.key ↔
      Path.normalize (directory ++ p) = Path.normalize (directory' ++ q) := by
    rw [hnames.key_eq, hnames'.key_eq]
    exact String.append_right_inj _
  have hafter {v : World L} {content : Option ByteArray}
      (hputs : w.storage.Puts v.storage store (Path.normalize (directory ++ p)) content) :
      v.storage.glance (.memory store storeName directory') q =
        if resource.key = resource'.key then some (Storage.tell content resource'.path)
        else w.storage.glance (.memory store storeName directory') q := by
    rw [hglance' v.storage hputs.files, hglance' w.storage rfl, hputs.tell]
    simp only [hkey]
    split <;> rfl
  constructor
  case entries => exact ⟨_, _, writes hstore directory p, writes hstore directory' q, hkey⟩
  case inserted =>
    intro content
    have hwrites : w.Writes store (.memory store storeName directory) p _ := writes hstore directory p
    obtain ⟨v, hedit, hputs⟩ := hwrites content
    exact ⟨v, hedit, hafter hputs⟩
  case removed =>
    obtain ⟨v, hedit, hputs⟩ := removes w store storeName directory p
    exact ⟨_, _, v, hglance w.storage rfl, hedit, hafter hputs⟩

end World

namespace Importing

/-- A path with dots, an empty segment and a slash at its end, and one that climbs first. -/
theorem dotted_spellings_agree :
    ∃ lib resource resource', (Repository.memory 0 "app" "").child Files.Tree.empty "lib" = lib ∧
      ((world Empty true [("lib/a.yx", ⟨#[98]⟩)]).storage.lookup lib ".//x/../a.yx/").1 =
        some resource ∧
      ((world Empty true [("lib/a.yx", ⟨#[98]⟩)]).storage.lookup lib "../lib/a.yx").1 =
        some resource' ∧
      resource.key = "memory:app/lib/a.yx" ∧ resource'.key = "memory:app/lib/a.yx" ∧
      (world Empty true [("lib/a.yx", ⟨#[98]⟩)]).Agree 0 lib ".//x/../a.yx/" lib "../lib/a.yx"
        resource resource' := by
  have hlib : Repository.Reached (.memory 0 "app" "")
      ((Repository.memory 0 "app" "").child Files.Tree.empty "lib") :=
    .child _ .root ⟨by decide, by decide, by decide, by decide⟩
  refine ⟨_, _, _, rfl, rfl, rfl, ?_, ?_, ?_⟩
  · decide +kernel
  · decide +kernel
  · exact World.spellings_agree (w := world Empty true [("lib/a.yx", ⟨#[98]⟩)]) rfl hlib hlib
      (by decide) (by decide) (by decide +kernel) (by decide +kernel) rfl rfl

end Importing

end ScriptWorker
