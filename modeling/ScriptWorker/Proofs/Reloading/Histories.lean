import ScriptWorker.Proofs.Reloading.Sources

/-!
# Calls and edits, one after another

A worker that reloads is called again and again, and between the calls sources are edited. Each edit gives a
source that it touches a time that the source never had. What holds when a call begins holds when it ends,
and no edit can spoil it.
-/

namespace ScriptWorker

open Relation World

variable {L : Language}

/-- Scripts and host, where nobody edits a source while a call is under way. -/
def Interpreter.alone (interpreter : Interpreter L) : Setting L := ⟨interpreter, fun _ _ => False⟩

/-- Calls on workers with edits of the sources between them, as the programs of the library run: the
storages after the edits and the world in the end. -/
inductive Interpreter.Serves (interpreter : Interpreter L) (asks : Request L → Prop) (start : World L) :
    List Storage → World L → Prop
  | start : Serves interpreter asks start [start.storage] start
  | between {past w w'} : Serves interpreter asks start past w → w.Calm w' →
    Serves interpreter asks start past w'
  | edit {past w storage} : Serves interpreter asks start past w →
    (∀ resource, storage.modified resource = w.storage.modified resource ∧
        storage.readText resource = w.storage.readText resource ∨
      ∀ s ∈ past, s.modified resource ≠ storage.modified resource) →
    Serves interpreter asks start (storage :: past) { w with storage := storage }
  | call {past w w' thread depth request o} : Serves interpreter asks start past w → asks request →
    interpreter.alone.Replies thread depth request w o w' → Serves interpreter asks start past w'

/-- The same with the moments that the calls show. -/
inductive Interpreter.Reloads (interpreter : Interpreter L) (asks : Request L → Prop) (start : World L) :
    List Storage → List (Moment L) → World L → Prop
  | start : Reloads interpreter asks start [start.storage] [] start
  | between {past T w w'} : Reloads interpreter asks start past T w → w.Calm w' →
    Reloads interpreter asks start past T w'
  | edit {past T w storage} : Reloads interpreter asks start past T w →
    (∀ resource, storage.modified resource = w.storage.modified resource ∧
        storage.readText resource = w.storage.readText resource ∨
      ∀ s ∈ past, s.modified resource ≠ storage.modified resource) →
    Reloads interpreter asks start (storage :: past) T { w with storage := storage }
  | call {past T w w' thread depth request o t} : Reloads interpreter asks start past T w → asks request →
    interpreter.alone.answers thread (interpreter.alone.calls thread depth) [] request w o w' t →
    Reloads interpreter asks start past (T ++ t) w'

/-- A worker that reloads and has loaded nothing, and that knows of no script. -/
structure World.Blank (w : World L) (k : WorkerId) : Prop where
  rests : w.Rests (· = k)
  reloading : (w.worker k).config.reloading = true
  stored : ∀ key, (w.worker k).cache.get? key = none
  unknown : ∀ u key, ¬ w.Holds k u key
  keyed : w.Keyed

theorem Distinguished.mono {k : WorkerId} {t t' : List (Moment L)} (h : Distinguished k t) (ht : t' ⊆ t) :
    Distinguished k t' := fun m hm m' hm' => h m (ht hm) m' (ht hm')

namespace Setting

theorem naming_calm (interpreter : Interpreter L) : Naming interpreter.alone World.Calm where
  beside _ _ h := h.apart.beside
  edited _ _ h := by
    obtain ⟨_, hedit, -⟩ := h
    exact hedit.elim
  tried w root candidate := by
    obtain ⟨existence, hw⟩ := tryCandidate_eq w root candidate
    rw [hw]
    exact w.calm_existence existence
  scripted w r resource name := by
    refine ⟨apart_scriptFor w r resource name, fun _ => ?_⟩
    rcases scriptFor_cases w r resource name with ⟨_, u, -, -, h⟩ | ⟨-, h⟩ <;> rw [h] <;> exact ⟨rfl, rfl⟩

theorem suits_alone {interpreter : Interpreter L} {crew : WorkerId → Prop} {names : String → Prop}
    {thread : ThreadId} (h : interpreter.Scripting crew names Request.LeavesModules) :
    interpreter.alone.Suits crew names thread World.Calm :=
  suits_of_naming h (naming_calm interpreter) fun _ _ hw => hw.calm

end Setting

namespace Config

/-- A call keeps what holds of the calls before it and of the sources. -/
structure Keeping (T : List (Moment L)) (past : List Storage) (start : World L) (thread : ThreadId)
    (k : WorkerId) (c : Config L) : Prop where
  regular : c.Regular thread k
  traced : c.Traced T start k
  upheld : c.Upheld T start k
  sourced : c.Sourced T past k

section Keeping

variable {thread : ThreadId} {k : WorkerId} {c c' : Config L} {T t : List (Moment L)}
  {past : List Storage} {start w : World L}

theorem regular_of_rests (hrests : w.Rests (· = k)) (hreload : (w.worker k).config.reloading = true)
    (hlinked : w.Linked k) (hkeyed : w.Keyed) : Regular thread k ⟨[], [], w⟩ where
  sound := hrests.sound
  reloading := hreload
  linked := hlinked
  keyed := hkeyed
  dated _ _ _ _ _ hmem := nomatch hmem
  alone _ _ _ _ hmem := nomatch hmem
  noted _ _ _ _ hstack := nomatch hstack
  imported _ _ _ _ _ hstack := nomatch hstack
  unbroken _ _ _ _ _ _ _ hstack := nomatch hstack

theorem traced_of_rests (hprecedes : ∀ m ∈ T, m.world.Precedes k w)
    (hbounded : ∀ u key env code x, Ran T k u key env code x → env < w.environments.size)
    (hbound : ∀ env key found, Binds T k env key found → ∃ u key' code x, Ran T k u key' env code x)
    (hsole : ∀ env u key code x v key' code' x', Ran T k u key env code x →
      Ran T k v key' env code' x' → v = u ∧ code' = code)
    (hfound : ∀ env key found, Binds T k env key found → found < w.environments.size) :
    Traced T w k ⟨[], [], w⟩ := by
  constructor
  case grows => exact .refl k w
  case environments => exact Nat.le_refl _
  case precedes => simpa using hprecedes
  case later => exact fun _ hm => nomatch hm
  case modules => exact fun _ _ _ _ hmem => nomatch hmem
  case bounded => simpa using hbounded
  case bound => simpa using hbound
  case unrun => exact fun _ _ _ _ _ _ _ _ _ hmem => nomatch hmem
  case sole => simpa using hsole
  case filling => exact fun _ _ _ _ _ hmem => nomatch hmem
  case found => simpa using hfound
  case old => exact fun env key found hb _ => by simpa using hb
  case stamps => exact fun _ _ => rfl

theorem Traced.rests (h : Traced T start k ⟨[], t, w⟩) : Traced (T ++ t) w k ⟨[], [], w⟩ :=
  traced_of_rests h.precedes h.bounded h.bound h.sole h.found

theorem Keeping.vouched (h : Keeping T past start thread k ⟨[], t, w⟩)
    (hfound : ∀ env key found, Binds T k env key found → found < start.environments.size)
    {key : String} {env : EnvironmentId} (hget : (w.worker k).cache.get? key = some env) :
    ∃ u, w.Holds k u key ∧ Vouched (T ++ t) w k u key env := by
  obtain ⟨u, hheld, ⟨henv, m, hm, hmu, hstamp, hreaches⟩ | ⟨⟨m, hm, hmu, hstamp⟩, hcurrent⟩⟩ :=
    h.upheld.stored key env hget
  · refine ⟨u, hheld, m, List.mem_append_left _ hm, hmu, (h.traced.stamps env henv).trans hstamp, ?_⟩
    intro found hreach
    obtain ⟨v, key', code, x, hran, hv, hlead, hversion⟩ :=
      hreaches found (h.traced.reaches hfound henv hreach).1
    exact ⟨v, key', code, x, hran.mono (List.subset_append_left _ _), h.traced.grows.holds v key' hv,
      h.traced.grows.leadsTo hlead, hversion⟩
  · refine ⟨u, hheld, m, List.mem_append_right _ hm, hmu, hstamp, fun found hreach => ?_⟩
    obtain ⟨v, key', code, x, hran, hv, hlead, hversion⟩ := hcurrent found hreach
    exact ⟨v, key', code, x, hran, hv, hlead, fun hmv =>
      hversion.trans ((h.traced.later m hm).versions v key' hmv)⟩

theorem Sourced.rests (h : Sourced T past k ⟨[], t, w⟩) : Sourced (T ++ t) past k ⟨[], [], w⟩ := by
  constructor
  case storage => exact h.storage
  case moments => simpa using h.moments
  case compiled => simpa using h.compiled
  case compiling => exact fun _ _ _ _ hmem => nomatch hmem
  case registered => exact fun _ _ _ _ _ hmem => nomatch hmem
  case ran => simpa using h.ran

theorem upheld_of_vouched (hrests : w.Rests (· = k))
    (hstored : ∀ key env, (w.worker k).cache.get? key = some env →
      ∃ u, w.Holds k u key ∧ Vouched T w k u key env) : Upheld T w k ⟨[], [], w⟩ where
  offered := by
    rintro key env (⟨-, hpos⟩ | ⟨_, _, hmem, -⟩ | ⟨_, _, _, hmem⟩)
    · cases hpos
    · cases hmem
    · cases hmem
  stored key env hget := by
    obtain ⟨u, hheld, hvouched⟩ := hstored key env hget
    exact ⟨u, hheld, .inl ⟨hrests.stored k key env rfl hget, hvouched⟩⟩

theorem Keeping.rests (h : Keeping T past start thread k ⟨[], t, w⟩)
    (hfound : ∀ env key found, Binds T k env key found → found < start.environments.size)
    (thread' : ThreadId) : Keeping (T ++ t) past w thread' k ⟨[], [], w⟩ where
  regular := regular_of_rests h.regular.sound.rests h.regular.reloading h.regular.linked h.regular.keyed
  traced := h.traced.rests
  upheld := upheld_of_vouched h.regular.sound.rests fun _ _ => h.vouched hfound
  sourced := h.sourced.rests

theorem Keeping.edited (h : Keeping T past w thread k ⟨[], [], w⟩) (storage : Storage) :
    Keeping T (storage :: past) { w with storage := storage } thread k
      ⟨[], [], { w with storage := storage }⟩ := by
  have hrests : World.Rests (L := L) { w with storage := storage } (· = k) :=
    h.regular.sound.rests.beside (w.beside_storage storage)
  obtain ⟨-, -, hprecedes, -, -, hbounded, hbound, -, hsole, -, hfound, -, -⟩ := h.traced
  rw [List.append_nil] at hprecedes hbounded hbound hsole hfound
  constructor
  case regular => exact regular_of_rests hrests h.regular.reloading h.regular.linked h.regular.keyed
  case traced =>
    exact traced_of_rests (fun m hm => (hprecedes m hm).trans fun _ _ hu => hu) hbounded hbound hsole hfound
  case upheld =>
    refine upheld_of_vouched hrests fun key env hget => ?_
    obtain ⟨u, hheld, ⟨-, hvouched⟩ | ⟨⟨m, hm, -⟩, -⟩⟩ := h.upheld.stored key env hget
    · exact ⟨u, hheld, hvouched⟩
    · cases hm
  case sourced =>
    have hs := h.sourced
    constructor
    case storage => exact ⟨storage, List.mem_cons_self, .refl _⟩
    case moments =>
      intro m hm
      obtain ⟨⟨s, hs', hagree⟩, hscript⟩ := hs.moments m hm
      exact ⟨⟨s, List.mem_cons_of_mem _ hs', hagree⟩, hscript⟩
    case compiled =>
      intro u key code time hu hcompiled
      obtain ⟨s, hs', hfrom⟩ := hs.compiled u key code time hu hcompiled
      exact ⟨s, List.mem_cons_of_mem _ hs', hfrom⟩
    case compiling => exact fun _ _ _ _ hmem => nomatch hmem
    case registered => exact fun _ _ _ _ _ hmem => nomatch hmem
    case ran => exact hs.ran

theorem Path.keeping (h : Path (· = k) thread World.Calm c c') (hpast : Storage.Consistent past)
    (hfound : ∀ env key found, Binds T k env key found → found < start.environments.size)
    (hdistinct : Distinguished k (T ++ c'.history)) (hc : c.Keeping T past start thread k) :
    c'.Keeping T past start thread k := by
  have hapart : ∀ w w' : World L, w.Calm w' → w.Apart w' := fun _ _ h => h.apart
  induction h with
  | refl => exact hc
  | tail _ hstep ih =>
    have hdistinct' := hdistinct.mono hstep.history_subset
    have hb := ih hdistinct'
    exact ⟨hstep.regular hapart hb.regular, hstep.traced hapart hb.regular hb.traced,
      hstep.upheld hapart hb.regular hb.traced hdistinct' hfound hb.upheld,
      hstep.sourced (fun _ _ h => h) hb.regular hpast hb.sourced⟩

end Keeping

end Config

namespace Interpreter

variable {interpreter : Interpreter L} {asks : Request L → Prop} {k : WorkerId} {thread : ThreadId}
  {start w w' : World L} {past : List Storage} {T t : List (Moment L)}

/-- What calls show is what the programs of the library do. -/
theorem exists_reloads_iff :
    (∃ T, interpreter.Reloads asks start past T w) ↔ interpreter.Serves asks start past w := by
  constructor
  · rintro ⟨T, h⟩
    induction h with
    | start => exact .start
    | between _ hcalm ih => exact ih.between hcalm
    | edit _ hedit ih => exact ih.edit hedit
    | call _ hasks hcall ih => exact ih.call hasks (Setting.exists_answers_iff.1 ⟨_, hcall⟩)
  · intro h
    induction h with
    | start => exact ⟨[], .start⟩
    | between _ hcalm ih =>
      obtain ⟨T, h⟩ := ih
      exact ⟨T, h.between hcalm⟩
    | edit _ hedit ih =>
      obtain ⟨T, h⟩ := ih
      exact ⟨T, h.edit hedit⟩
    | call _ hasks hreplies ih =>
      obtain ⟨T, h⟩ := ih
      obtain ⟨t, hcall⟩ := Setting.exists_answers_iff.2 hreplies
      exact ⟨T ++ t, h.call hasks hcall⟩

theorem Reloads.serves (h : interpreter.Reloads asks start past T w) :
    interpreter.Serves asks start past w := exists_reloads_iff.1 ⟨T, h⟩

theorem path_call {depth : Nat} {request : Request L} {o : Outcome request.Reply}
    (hI : interpreter.Scripting (· = k) (fun _ => True) Request.LeavesModules) (hrests : w.Rests (· = k))
    (hasks : request.CallsOn (· = k) fun _ => True)
    (hcall : interpreter.alone.answers thread (interpreter.alone.calls thread depth) [] request w o w' t) :
    Config.Path (· = k) thread World.Calm ⟨[], [], w⟩ ⟨[], t, w'⟩ :=
  Setting.path_operation (Setting.suits_alone hI) hrests hasks hcall

/-- Calls and edits keep what holds of modules and their sources. -/
theorem Reloads.keeping (hI : interpreter.Scripting (· = k) (fun _ => True) Request.LeavesModules)
    (hstart : start.Blank k)
    (h : interpreter.Reloads (Request.CallsOn (· = k) fun _ => True) start past T w)
    (hdistinct : Distinguished k T) (thread : ThreadId) :
    Storage.Consistent past ∧ Config.Keeping T past w thread k ⟨[], [], w⟩ := by
  induction h generalizing thread with
  | start =>
    have hlinked : start.Linked k := fun u key _ hu => (hstart.unknown u key hu).elim
    refine ⟨?_, Config.regular_of_rests hstart.rests hstart.reloading hlinked hstart.keyed, ?_, ?_, ?_⟩
    · intro s hs s' hs' resource _
      rw [List.mem_singleton.1 hs, List.mem_singleton.1 hs']
    · exact Config.traced_of_rests (fun _ hm => nomatch hm) (fun _ _ _ _ _ ⟨_, hmem⟩ => nomatch hmem)
        (fun _ _ _ ⟨_, _, _, hmem, _⟩ => nomatch hmem)
        (fun _ _ _ _ _ _ _ _ _ ⟨_, hmem⟩ => nomatch hmem)
        fun _ _ _ ⟨_, _, _, hmem, _⟩ => nomatch hmem
    · refine Config.upheld_of_vouched hstart.rests fun key env hget => ?_
      rw [hstart.stored key] at hget
      cases hget
    · constructor
      case storage => exact ⟨start.storage, List.mem_singleton_self _, .refl _⟩
      case moments => exact fun _ hm => nomatch hm
      case compiled => exact fun u key _ _ hu => (hstart.unknown u key hu).elim
      case compiling => exact fun _ _ _ _ hmem => nomatch hmem
      case registered => exact fun _ _ _ _ _ hmem => nomatch hmem
      case ran => exact fun _ _ _ _ _ ⟨_, hmem⟩ => nomatch hmem
  | @between past T v v' _ hcalm ih =>
    obtain ⟨hpast, hkeeping⟩ := ih hdistinct thread
    have hfound : ∀ env key found, Binds T k env key found → found < v.environments.size := by
      simpa using hkeeping.traced.found
    have hpath : Config.Path (· = k) thread World.Calm ⟨[], [], v⟩ ⟨[], [], v'⟩ := .single (.aside hcalm)
    have hafter := hpath.keeping hpast hfound (by simpa using hdistinct) hkeeping
    exact ⟨hpast, by simpa using hafter.rests hfound thread⟩
  | @edit past T v storage _ hedit ih =>
    obtain ⟨hpast, hkeeping⟩ := ih hdistinct thread
    obtain ⟨s, hs, hagree⟩ := hkeeping.sourced.storage
    refine ⟨hpast.cons hs fun resource => ?_, hkeeping.edited storage⟩
    rw [← (hagree resource).1, ← (hagree resource).2]
    exact hedit resource
  | @call past T v v' thread' depth request o t _ hasks hcall ih =>
    have hbefore := hdistinct.mono (List.subset_append_left T t)
    obtain ⟨hpast, hkeeping⟩ := ih hbefore thread'
    have hfound : ∀ env key found, Binds T k env key found → found < v.environments.size := by
      simpa using hkeeping.traced.found
    have hpath := path_call hI hkeeping.regular.sound.rests hasks hcall
    exact ⟨hpast, (hpath.keeping hpast hfound hdistinct hkeeping).rests hfound thread⟩

end Interpreter

end ScriptWorker
