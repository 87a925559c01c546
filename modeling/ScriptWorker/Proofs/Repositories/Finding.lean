import ScriptWorker.Proofs.Loading.Seated
import ScriptWorker.Proofs.Repositories.Candidates

/-!
# Finding the script for a name

A resolver over directories of memory stores answers a name with the script of the first entry that a
candidate leads to. It knows its scripts by the keys of the resources, and a key says in which store an
entry is and where, so there is one script for each entry, however and from wherever it was found, and
whatever became of the contents in between.
-/

namespace ScriptWorker

open Relation

variable {L : Language}

/-- The stores that repositories are over, with the names they have there: different stores have
different names, and no slash is in a name. -/
structure Shelves where
  stores : StoreId → Prop
  name : StoreId → String
  solid : ∀ store, stores store → '/' ∉ (name store).toList
  apart : ∀ store store', stores store → stores store' → name store = name store' → store = store'

structure Spot where
  store : StoreId
  entry : String
  deriving DecidableEq

namespace Shelves

variable (shelves : Shelves)

def Holds (repository : Repository) : Prop :=
  ∃ store, shelves.stores store ∧ Repository.Reached (.memory store (shelves.name store) "") repository

def key (spot : Spot) : String := "memory:" ++ shelves.name spot.store ++ "/" ++ spot.entry

/-- A resource is a handle to the entry at a place of the stores. -/
structure Shows (resource : Resource) (spot : Spot) : Prop where
  stored : shelves.stores spot.store
  names : resource.Names spot.store (shelves.name spot.store) spot.entry

variable {shelves} {resource : Resource} {spot spot' : Spot}

theorem Shows.key_eq (h : shelves.Shows resource spot) : resource.key = shelves.key spot := h.names.key_eq

theorem key_inj (h : shelves.stores spot.store) (h' : shelves.stores spot'.store)
    (heq : shelves.key spot = shelves.key spot') : spot = spot' := by
  have hchars : (shelves.name spot.store).toList ++ '/' :: spot.entry.toList =
      (shelves.name spot'.store).toList ++ '/' :: spot'.entry.toList := by
    have := congrArg String.toList heq
    simpa [key] using this
  have hsplit := congrArg (Path.splitAt '/') hchars
  rw [Path.splitAt_append (shelves.solid _ h), Path.splitAt_append (shelves.solid _ h')] at hsplit
  have hname := List.head_eq_of_cons_eq hsplit
  rw [hname, List.append_cancel_left_eq, List.cons.injEq] at hchars
  have hstore := shelves.apart _ _ h h' (String.toList_inj.1 hname)
  have hentry := String.toList_inj.1 hchars.2
  cases spot
  cases spot'
  simp only at hstore hentry
  rw [hstore, hentry]

end Shelves

namespace Storage

def spot? (s : Storage) (root : Repository) (path : String) : Option Spot :=
  match root.follow s.files path with
  | some (.memory store _ directory, name) =>
    if (s.entry? store (Resource.entryOf directory name)).isSome then
      some ⟨store, Resource.entryOf directory name⟩
    else none
  | _ => none

def firstSpot? (s : Storage) (tried : List (Repository × String)) : Option Spot :=
  tried.findSome? fun attempt => s.spot? attempt.1 attempt.2

end Storage

namespace World

/-- The world with other answers remembered about what exists. -/
def withExistence (w : World L) (existence : Table (Option Bool)) : World L :=
  { w with storage := { w.storage with existence := existence } }

variable {shelves : Shelves} {root : Repository} {path : String}

theorem tryCandidate_spot (hroot : shelves.Holds root)
    (hlast : ∀ last ∈ (Path.segments path).getLast?, last ≠ "." ∧ last ≠ "..") (w : World L) :
    Option.Rel shelves.Shows (w.tryCandidate root path).1 (w.storage.spot? root path) := by
  obtain ⟨store, hstore, hreached⟩ := hroot
  unfold tryCandidate Storage.lookup Storage.spot?
  cases hfollow : root.follow w.storage.files path with
  | none => exact .none
  | some target =>
    obtain ⟨found, name⟩ := target
    obtain ⟨directory, directory', rfl, rfl, hplain, -⟩ := hreached.follow hlast hfollow
    have hfresh : (w.storage.existence.push none).get? w.storage.existence.size = some none := by
      rw [Table.get?_push, if_pos rfl]
    simp only [Storage.resource, Storage.resourceExists, hfresh]
    change Option.Rel _ (if (w.storage.entry? store (Resource.entryOf directory' name)).isSome = true
      then _ else none) _
    split
    · exact .some ⟨hstore, directory', name, _, rfl, rfl, hplain.symm⟩
    · exact .none

end World

theorem alone_firstCandidate {shelves : Shelves} {tried : List (Repository × String)}
    (htried : ∀ attempt ∈ tried, shelves.Holds attempt.1 ∧
      ∀ last ∈ (Path.segments attempt.2).getLast?, last ≠ "." ∧ last ≠ "..") (w : World L) :
    ∃ found existence, (firstCandidate tried).alone w = some (.done found, w.withExistence existence) ∧
      Option.Rel shelves.Shows found (w.storage.firstSpot? tried) := by
  induction tried generalizing w with
  | nil => exact ⟨none, w.storage.existence, rfl, .none⟩
  | cons attempt rest ih =>
    obtain ⟨root, path⟩ := attempt
    obtain ⟨hroot, hlast⟩ := htried (root, path) List.mem_cons_self
    have hspot := w.tryCandidate_spot hroot hlast
    obtain ⟨existence, hworld⟩ := Setting.tryCandidate_eq w root path
    rw [firstCandidate, Program.alone_transact_bind, hworld, ← World.withExistence,
      Storage.firstSpot?, List.findSome?_cons]
    dsimp only
    generalize (w.tryCandidate root path).1 = found at hspot ⊢
    generalize w.storage.spot? root path = spot at hspot ⊢
    cases hspot with
    | some hshows => exact ⟨_, existence, rfl, .some hshows⟩
    | none =>
      -- Only what is remembered about what exists has changed, so the rest is tried in the same storage.
      obtain ⟨found, existence', halone, hfirst⟩ :=
        ih (fun attempt hmem => htried attempt (List.mem_cons_of_mem _ hmem))
          (w.withExistence existence)
      exact ⟨found, existence', halone, hfirst⟩

/-- A resolver over directories of memory stores. -/
structure Finder where
  resolver : ResolverId
  shelves : Shelves
  modulePath : List Repository
  extension : String
  held : ∀ repository ∈ modulePath, shelves.Holds repository
  full : ModuleName.plainExtension extension ≠ ""
  solid : '/' ∉ extension.toList

namespace Finder

/-- A call of a resolver that came to an answer. -/
structure Call where
  name : String
  near : Option Repository
  storage : Storage
  answer : Answer UnitId

structure State (L : Language) where
  world : World L
  calls : List Call

variable (finder : Finder)

def kind (L : Language) (scripts : Dictionary String UnitId) : ResolverKind L :=
  .repositories finder.modulePath (ModuleName.plainExtension finder.extension) scripts

def attempts (near : Option Repository) (name : String) : List (Repository × String) :=
  ModuleName.attempts finder.modulePath (ModuleName.plainExtension finder.extension) near name

def notFound (near : Option Repository) (name : String) : Answer UnitId :=
  .error (.moduleNotFound name
    ((finder.attempts near name).map fun attempt => attempt.1.path ++ attempt.2))

def found? (call : Call) : Option Spot :=
  call.storage.firstSpot? (finder.attempts call.near call.name)

/-- What happens between two calls: contents may become anything, but the resolver is left as it is, and
so are the scripts in what they are over. -/
structure Elsewhere (w v : World L) : Prop where
  resolver : v.resolvers.get? finder.resolver = w.resolvers.get? finder.resolver
  scripts : ∀ u key resource, w.Script u key resource → v.Script u key resource

inductive Step : State L → State L → Prop
  | call {x : State L} (name : String) (near : Option Repository) {answer : Answer UnitId}
    {v : World L} : (∀ repository ∈ near, finder.shelves.Holds repository) →
    (resolve finder.resolver name near).alone x.world = some (.done answer, v) →
    Step x ⟨v, ⟨name, near, x.world.storage, answer⟩ :: x.calls⟩
  | elsewhere {x : State L} {v : World L} : finder.Elsewhere x.world v → Step x ⟨v, x.calls⟩

structure Answered (w : World L) (call : Call) : Prop where
  search : ∃ search : ModuleName.Search finder.modulePath
      (ModuleName.plainExtension finder.extension) call.near call.name,
    finder.attempts call.near call.name = search.attempts
  missing : finder.found? call = none ↔ call.answer = finder.notFound call.near call.name
  found : ∀ spot, finder.found? call = some spot → ∃ u resource, call.answer = .ok u ∧
    w.Script u resource.key resource ∧ finder.shelves.Shows resource spot

/-- What is known after some calls. -/
structure Resolved (x : State L) : Prop where
  /-- The next call comes to an answer. -/
  answers : ∀ name near, (∀ repository ∈ near, finder.shelves.Holds repository) →
    ∃ answer v, (resolve finder.resolver name near).alone x.world = some (.done answer, v)
  calls : ∀ call ∈ x.calls, finder.Answered x.world call
  /-- Two calls gave one script just when they found one entry. -/
  scripts : ∀ call ∈ x.calls, ∀ call' ∈ x.calls, ∀ u u', call.answer = .ok u →
    call'.answer = .ok u' → (u = u' ↔ finder.found? call = finder.found? call')

/-- What a resolver knows: its scripts by the keys of what they are over, among them one for each entry
that a call found. -/
structure Knows (scripts : Dictionary String UnitId) (x : State L) : Prop where
  row : (x.world.resolvers.get? finder.resolver).map NameResolver.kind = some (finder.kind L scripts)
  made : ∀ key u, scripts.get? key = some u → ∃ resource spot, key = finder.shelves.key spot ∧
    finder.shelves.Shows resource spot ∧ x.world.Script u key resource
  missed : ∀ call ∈ x.calls, finder.found? call = none →
    call.answer = finder.notFound call.near call.name
  kept : ∀ call ∈ x.calls, ∀ spot, finder.found? call = some spot →
    finder.shelves.stores spot.store ∧
    ∃ u, call.answer = .ok u ∧ scripts.get? (finder.shelves.key spot) = some u

variable {finder} {scripts : Dictionary String UnitId} {x y : State L} {name : String}
  {near : Option Repository}

theorem held_attempts (hnear : ∀ repository ∈ near, finder.shelves.Holds repository)
    {attempt : Repository × String} (h : attempt ∈ finder.attempts near name) :
    finder.shelves.Holds attempt.1 ∧
      ∀ last ∈ (Path.segments attempt.2).getLast?, last ≠ "." ∧ last ≠ ".." := by
  unfold attempts ModuleName.attempts at h
  obtain ⟨root, hroot, hmem⟩ := List.mem_flatMap.1 h
  obtain ⟨candidate, hcandidate, rfl⟩ := List.mem_map.1 hmem
  have hplain := ModuleName.plain_plainExtension finder.full finder.solid
  refine ⟨?_, hplain.getLast?_segments hcandidate⟩
  unfold ModuleName.roots at hroot
  split at hroot
  · split at hroot
    · rw [List.mem_singleton.1 hroot]
      exact hnear _ rfl
    · exact finder.held root hroot
  · exact finder.held root hroot

theorem Knows.alone_resolve (h : finder.Knows scripts x)
    (hnear : ∀ repository ∈ near, finder.shelves.Holds repository) (name : String) :
    ∃ found existence,
      Option.Rel finder.shelves.Shows found
        (x.world.storage.firstSpot? (finder.attempts near name)) ∧
      (resolve finder.resolver name near).alone x.world = some (match found with
        | none => (.done (finder.notFound near name), x.world.withExistence existence)
        | some resource =>
          ((x.world.withExistence existence).scriptFor finder.resolver resource name).map
            (fun u => .done (.ok u)) id) := by
  have htried : ∀ attempt ∈ finder.attempts near name, _ := fun _ h => held_attempts hnear h
  obtain ⟨found, existence, halone, hfirst⟩ := alone_firstCandidate htried x.world
  refine ⟨found, existence, hfirst, ?_⟩
  unfold resolve
  rw [Program.alone_read_bind, h.row]
  change (firstCandidate (finder.attempts near name) >>= _).alone x.world = _
  rw [Program.alone_bind, halone, Option.bind_some]
  cases found with
  | none => rfl
  | some resource => rfl

variable (finder) in
theorem elsewhere_storage (w : World L) (change : Storage → Storage) :
    finder.Elsewhere w { w with storage := change w.storage } :=
  ⟨rfl, fun _ _ _ h => h⟩

theorem Knows.elsewhere (h : finder.Knows scripts x) {v : World L}
    (hv : finder.Elsewhere x.world v) : finder.Knows scripts ⟨v, x.calls⟩ where
  row := hv.resolver ▸ h.row
  made key u hu := by
    obtain ⟨resource, spot, hkey, hshows, hscript⟩ := h.made key u hu
    exact ⟨resource, spot, hkey, hshows, hv.scripts _ _ _ hscript⟩
  missed := h.missed
  kept := h.kept

theorem Knows.enrolled (h : finder.Knows scripts x) {resource : Resource} {spot : Spot}
    (hshows : finder.shelves.Shows resource spot) (hnew : scripts.get? resource.key = none)
    (name : String) :
    finder.Knows (scripts.insert resource.key x.world.units.size)
      ⟨x.world.enrolled finder.resolver resource name, x.calls⟩ where
  row := by
    change ((x.world.resolvers.modify finder.resolver _).get? finder.resolver).map _ = _
    rw [Table.get?_modify, if_pos rfl]
    obtain ⟨row, hrow, hkind⟩ := Option.map_eq_some_iff.1 h.row
    rw [hrow, Option.map_some, Option.map_some]
    unfold World.withScripts
    rw [hkind]
    rfl
  made key u hu := by
    rw [Dictionary.get?_insert] at hu
    split at hu
    · next hkey =>
      cases hu
      subst hkey
      exact ⟨resource, spot, hshows.key_eq, hshows, World.script_enrolled_new _ _ _ _⟩
    · obtain ⟨known, spot', hkey, hshows', hscript⟩ := h.made key u hu
      exact ⟨known, spot', hkey, hshows', World.script_enrolled _ _ _ _ hscript⟩
  missed := h.missed
  kept call hcall spot' hfound := by
    obtain ⟨hstored, u, hanswer, hu⟩ := h.kept call hcall spot' hfound
    refine ⟨hstored, u, hanswer, ?_⟩
    rw [Dictionary.get?_insert, if_neg, hu]
    rintro heq
    rw [← heq, hnew] at hu
    cases hu

theorem Knows.missing (h : finder.Knows scripts x) {storage : Storage}
    (hspot : storage.firstSpot? (finder.attempts near name) = none) :
    finder.Knows scripts ⟨x.world, ⟨name, near, storage, finder.notFound near name⟩ :: x.calls⟩ where
  row := h.row
  made := h.made
  missed := List.forall_mem_cons.2 ⟨fun _ => rfl, h.missed⟩
  kept := by
    refine List.forall_mem_cons.2 ⟨fun spot hfound => ?_, h.kept⟩
    rw [found?, hspot] at hfound
    cases hfound

theorem Knows.finding (h : finder.Knows scripts x) {storage : Storage} {spot : Spot}
    {resource : Resource} {u : UnitId}
    (hspot : storage.firstSpot? (finder.attempts near name) = some spot)
    (hshows : finder.shelves.Shows resource spot) (hu : scripts.get? resource.key = some u) :
    finder.Knows scripts ⟨x.world, ⟨name, near, storage, .ok u⟩ :: x.calls⟩ where
  row := h.row
  made := h.made
  missed := by
    refine List.forall_mem_cons.2 ⟨fun hfound => ?_, h.missed⟩
    rw [found?, hspot] at hfound
    cases hfound
  kept := by
    refine List.forall_mem_cons.2 ⟨fun spot' hfound => ?_, h.kept⟩
    rw [found?, hspot, Option.some.injEq] at hfound
    exact hfound ▸ ⟨hshows.stored, u, rfl, hshows.key_eq ▸ hu⟩

theorem Knows.scriptsOf (h : finder.Knows scripts x) :
    x.world.scriptsOf finder.resolver = some scripts := by
  obtain ⟨row, hrow, hkind⟩ := Option.map_eq_some_iff.1 h.row
  rw [World.scriptsOf, hrow, Option.bind_some, hkind]
  rfl

theorem Knows.called (h : finder.Knows scripts x)
    (hnear : ∀ repository ∈ near, finder.shelves.Holds repository) (name : String) :
    ∃ answer v, (resolve finder.resolver name near).alone x.world = some (.done answer, v) ∧
      ∃ scripts', finder.Knows scripts' ⟨v, ⟨name, near, x.world.storage, answer⟩ :: x.calls⟩ := by
  obtain ⟨found, existence, hfirst, halone⟩ := h.alone_resolve hnear name
  have hw : finder.Knows scripts ⟨x.world.withExistence existence, x.calls⟩ :=
    h.elsewhere (finder.elsewhere_storage x.world fun storage => { storage with existence := existence })
  cases hspot : x.world.storage.firstSpot? (finder.attempts near name) with
  | none =>
    rw [hspot] at hfirst
    cases hfirst
    exact ⟨_, _, halone, scripts, hw.missing hspot⟩
  | some spot =>
    rw [hspot] at hfirst
    cases hfirst with
    | @some resource _ hshows =>
      dsimp only at halone
      obtain ⟨known, u, hknown, hu, hscript⟩ | ⟨hnew, hscript⟩ :=
        (x.world.withExistence existence).scriptFor_cases finder.resolver resource name
      · rw [hw.scriptsOf, Option.some.injEq] at hknown
        subst hknown
        rw [hscript] at halone
        exact ⟨_, _, halone, scripts, hw.finding hspot hshows hu⟩
      · have hmade := hw.enrolled hshows (hnew scripts hw.scriptsOf) name
        rw [hscript] at halone
        refine ⟨_, _, halone, _, hmade.finding hspot hshows ?_⟩
        rw [Dictionary.get?_insert, if_pos rfl]

theorem Knows.step (h : finder.Knows scripts x) (hstep : finder.Step x y) :
    ∃ scripts', finder.Knows scripts' y := by
  cases hstep with
  | @call name near answer v hnear halone =>
    obtain ⟨answer', v', halone', hknows⟩ := h.called hnear name
    rw [halone] at halone'
    cases halone'
    exact hknows
  | elsewhere hv => exact ⟨scripts, h.elsewhere hv⟩

theorem Knows.steps (h : finder.Knows scripts x) (hsteps : ReflTransGen finder.Step x y) :
    ∃ scripts', finder.Knows scripts' y := by
  induction hsteps with
  | refl => exact ⟨scripts, h⟩
  | tail _ hstep ih =>
    obtain ⟨scripts', hknows⟩ := ih
    exact hknows.step hstep

theorem Knows.shows (h : finder.Knows scripts x) {spot : Spot} (hspot : finder.shelves.stores spot.store)
    {u : UnitId} (hu : scripts.get? (finder.shelves.key spot) = some u) :
    ∃ resource, x.world.Script u (finder.shelves.key spot) resource ∧
      finder.shelves.Shows resource spot := by
  obtain ⟨resource, spot', hkey, hshows, hscript⟩ := h.made _ u hu
  obtain rfl := Shelves.key_inj hspot hshows.stored hkey
  exact ⟨resource, hscript, hshows⟩

theorem Knows.answered (h : finder.Knows scripts x) {call : Call} (hcall : call ∈ x.calls) :
    finder.Answered x.world call where
  search := ModuleName.exists_search _ _ _ _
  missing := by
    refine ⟨h.missed call hcall, fun hanswer => ?_⟩
    cases hfound : finder.found? call with
    | none => rfl
    | some spot =>
      obtain ⟨-, u, hanswer', -⟩ := h.kept call hcall spot hfound
      rw [hanswer] at hanswer'
      cases hanswer'
  found spot hfound := by
    obtain ⟨hspot, u, hanswer, hu⟩ := h.kept call hcall spot hfound
    obtain ⟨resource, hscript, hshows⟩ := h.shows hspot hu
    exact ⟨u, resource, hanswer, hshows.key_eq ▸ hscript, hshows⟩

theorem Knows.found (h : finder.Knows scripts x) {call : Call} (hcall : call ∈ x.calls) {u : UnitId}
    (hanswer : call.answer = .ok u) :
    ∃ spot, finder.found? call = some spot ∧ finder.shelves.stores spot.store ∧
      scripts.get? (finder.shelves.key spot) = some u := by
  cases hfound : finder.found? call with
  | none =>
    rw [h.missed call hcall hfound] at hanswer
    cases hanswer
  | some spot =>
    obtain ⟨hspot, u', hanswer', hu⟩ := h.kept call hcall spot hfound
    rw [hanswer] at hanswer'
    cases hanswer'
    exact ⟨spot, rfl, hspot, hu⟩

theorem Knows.same_script_iff (h : finder.Knows scripts x) {call call' : Call} (hcall : call ∈ x.calls)
    (hcall' : call' ∈ x.calls) {u u' : UnitId} (hanswer : call.answer = .ok u)
    (hanswer' : call'.answer = .ok u') :
    u = u' ↔ finder.found? call = finder.found? call' := by
  obtain ⟨spot, hfound, hspot, hu⟩ := h.found hcall hanswer
  obtain ⟨spot', hfound', hspot', hu'⟩ := h.found hcall' hanswer'
  rw [hfound, hfound', Option.some.injEq]
  constructor
  · rintro rfl
    -- A script is known by one key, and that tells the entry.
    obtain ⟨resource, ⟨unit, compiled, hunit, -, hkey, -⟩, -⟩ := h.shows hspot hu
    obtain ⟨resource', ⟨unit', compiled', hunit', -, hkey', -⟩, -⟩ := h.shows hspot' hu'
    rw [hunit] at hunit'
    cases hunit'
    exact Shelves.key_inj hspot hspot' (hkey.symm.trans hkey')
  · rintro rfl
    rw [hu] at hu'
    exact Option.some.inj hu'

/-- Whatever names are asked for, from whichever directories and between whatever changes of the
contents: the first stored candidate is found, and there is one script for each entry. -/
theorem resolved_of_steps {w : World L}
    (hrow : (w.resolvers.get? finder.resolver).map NameResolver.kind =
      some (finder.kind L Dictionary.empty))
    (hsteps : ReflTransGen finder.Step ⟨w, []⟩ x) : finder.Resolved x := by
  have hstart : finder.Knows Dictionary.empty ⟨w, []⟩ :=
    ⟨hrow, fun _ _ h => (nomatch h), fun _ h => (nomatch h), fun _ h => (nomatch h)⟩
  obtain ⟨scripts, h⟩ := hstart.steps hsteps
  constructor
  case answers =>
    intro name near hnear
    obtain ⟨answer, v, halone, -⟩ := h.called hnear name
    exact ⟨answer, v, halone⟩
  case calls => exact fun call hcall => h.answered hcall
  case scripts =>
    exact fun call hcall call' hcall' u u' hanswer hanswer' =>
      h.same_script_iff hcall hcall' hanswer hanswer'

end Finder

namespace Importing

def shelved : World (language Empty) :=
  let (app, storage) := Storage.empty.createStore "app" 0
  let (lib, storage) := storage.createStore "lib" 0
  let storage := (storage.writeEntry 0 "" "a.yx" ⟨#[97]⟩).writeEntry 1 "" "b.yx" ⟨#[98]⟩
  let w : World (language Empty) := { World.create Files.Tree.empty 0 1 0 () with storage := storage }
  (w.createResolver (.repositories [app, lib] (ModuleName.plainExtension ".yx") Dictionary.empty)
    Environment.globalScope).2

def shelvedFinder : Finder where
  resolver := 0
  shelves := {
    stores := fun store => store = 0 ∨ store = 1
    name := fun store => if store = 0 then "app" else "lib"
    solid := by
      rintro store (rfl | rfl) <;> decide
    apart := by
      rintro store store' (rfl | rfl) (rfl | rfl) heq
      · rfl
      · exact absurd heq (by decide)
      · exact absurd heq (by decide)
      · rfl }
  modulePath := [.memory 0 "app" "", .memory 1 "lib" ""]
  extension := ".yx"
  held := by
    intro repository hmem
    simp only [List.mem_cons, List.not_mem_nil, or_false] at hmem
    obtain rfl | rfl := hmem
    · exact ⟨0, .inl rfl, .root⟩
    · exact ⟨1, .inr rfl, .root⟩
  full := by decide +kernel
  solid := by decide

/-- One source is found by two spellings. Another is found in the second repository until there is one in
the first; what nobody wrote is missed next to the caller. -/
theorem two_stores_resolved : ∃ x : Finder.State (language Empty),
    ReflTransGen shelvedFinder.Step ⟨shelved, []⟩ x ∧
    x.calls.map Finder.Call.answer = [
      .error (.moduleNotFound "./c" ["memory:app/pkg/./c.yx", "memory:app/pkg/./c/mod.yx"]),
      .ok 2, .ok 1, .ok 0, .ok 0] ∧
    shelvedFinder.Resolved x := by
  have hpkg : ∀ repository ∈ some (Repository.memory 0 "app" "pkg/"),
      shelvedFinder.shelves.Holds repository := by
    rintro repository ⟨⟩
    exact ⟨0, .inl rfl, @Repository.Reached.child _ _ "pkg" Files.Tree.empty .root
      ⟨by decide, by decide, by decide, by decide⟩⟩
  have hfar : ∀ repository ∈ (none : Option Repository), shelvedFinder.shelves.Holds repository :=
    fun _ h => nomatch h
  have hsteps : ∃ x : Finder.State (language Empty), ReflTransGen shelvedFinder.Step ⟨shelved, []⟩ x ∧
      x.calls.map Finder.Call.answer = [
        .error (.moduleNotFound "./c" ["memory:app/pkg/./c.yx", "memory:app/pkg/./c/mod.yx"]),
        .ok 2, .ok 1, .ok 0, .ok 0] := by
    have written := fun w : World (language Empty) => shelvedFinder.elsewhere_storage w fun storage =>
      (storage.writeEntry 0 "" "b.yx" ⟨#[99]⟩).bump 0 0
    exact ⟨_, .tail (.tail (.tail (.tail (.tail (.single
      (.call "a" none hfar rfl)) (.call "../a.yx" _ hpkg rfl)) (.call "b" none hfar rfl))
      (.elsewhere (written _))) (.call "b" none hfar rfl)) (.call "./c" _ hpkg rfl), rfl⟩
  obtain ⟨x, hsteps, hanswers⟩ := hsteps
  exact ⟨x, hsteps, hanswers, Finder.resolved_of_steps (w := shelved) rfl hsteps⟩

end Importing

end ScriptWorker
