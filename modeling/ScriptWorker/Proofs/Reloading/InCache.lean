import ScriptWorker.Proofs.Reloading.Coherence
import ScriptWorker.Proofs.Reloading.UpToDate

/-!
# Imports are the modules in the cache

Where scripts follow a graph without circles and no load fails, a module to which a load comes, and every
module to which its bindings lead, is the very one that the cache holds for its key, whatever loads and
edits there were.
-/

namespace ScriptWorker

open Relation World

variable {L : Language}

/-- Wherever the bindings of a module lead, the cache holds the module for the key for which it was filled. -/
def InCache (T : List (Moment L)) (w : World L) (k : WorkerId) (env : EnvironmentId) : Prop :=
  ∀ found, Reaches T k env found → ∃ key, (w.worker k).cache.get? key = some found ∧
    (∃ u code x, Ran T k u key found code x) ∧ ∀ u key' code x, Ran T k u key' found code x → key' = key

theorem AllLoaded.of_append {k : WorkerId} {t t' : List (Moment L)} (h : AllLoaded (t ++ t') k) :
    AllLoaded t k ∧ AllLoaded t' k :=
  ⟨fun frames u key o v hmem => h frames u key o v (List.mem_append_left _ hmem),
    fun frames u key o v hmem => h frames u key o v (List.mem_append_right _ hmem)⟩

theorem Interpreter.Reloads.mono {interpreter : Interpreter L} {asks asks' : Request L → Prop}
    {start w : World L} {past : List Storage} {T : List (Moment L)}
    (h : interpreter.Reloads asks start past T w) (hasks : ∀ request, asks request → asks' request) :
    interpreter.Reloads asks' start past T w := by
  induction h with
  | start => exact .start
  | between _ hcalm ih => exact ih.between hcalm
  | edit _ hedit ih => exact ih.edit hedit
  | call _ hrequest hcall ih => exact ih.call (hasks _ hrequest) hcall

namespace Config

/-- What a worker can answer a load of a key with was filled for the key, or is about to be. -/
def Owned (T : List (Moment L)) (k : WorkerId) (c : Config L) : Prop :=
  ∀ key env, c.Shows k key env → (∃ u code x, Ran (T ++ c.history) k u key env code x) ∨
    ∃ u code time s, c.stack = .load k u key (.registered env code time) :: s

section Steps

variable {graph : String → String → Prop} {thread : ThreadId} {aside : World L → World L → Prop}
  {c c' : Config L} {k : WorkerId} {T t : List (Moment L)} {past : List Storage} {start w w' : World L}

theorem Step.owned (haside : ∀ w w', aside w w' → w.Beside w') (h : Step (· = k) thread aside c c')
    (hc : c.Regular thread k) (howned : c.Owned T k) : c'.Owned T k := by
  intro key env hshows
  rcases h.shows haside hc.sound.seated hshows with hbefore | ⟨rfl, -⟩
  · rcases howned key env hbefore with ⟨u, code, x, hran⟩ | ⟨u, code, time, s, hstack⟩
    · exact .inl ⟨u, code, x, hran.mono h.history_subset⟩
    · rcases h.of_registered hc.unbroken hstack with ⟨s', hstack'⟩ | ⟨frames, hadded⟩
      · exact .inr ⟨u, code, time, s', hstack'⟩
      · refine .inl ⟨u, code, c.world, frames, ?_⟩
        rw [hadded]
        exact List.mem_append_right _ (List.mem_append_right _ (List.mem_singleton_self _))
  · obtain ⟨-, u, code, time, s, hstack⟩ :=
      h.newcomer haside hc.sound.seated hc.sound.bounded rfl (Nat.le_refl _) hshows
    exact .inr ⟨u, code, time, s, hstack⟩

theorem owned_of_rests (hstored : ∀ key env, (w.worker k).cache.get? key = some env →
    ∃ u code x, Ran T k u key env code x) : Owned T k ⟨[], [], w⟩ := by
  rintro key env (hget | ⟨-, hdepth⟩ | ⟨u, stage, hmem, -⟩)
  · left
    simpa using hstored key env hget
  · cases hdepth
  · cases hmem

theorem Owned.stored (h : Owned T k ⟨[], t, w⟩) {key : String} {env : EnvironmentId}
    (hget : (w.worker k).cache.get? key = some env) : ∃ u code x, Ran (T ++ t) k u key env code x := by
  rcases h key env (.inl hget) with hran | ⟨_, _, _, _, hstack⟩
  · exact hran
  · cases hstack

theorem delivers_of_rests (w : World L) (k : WorkerId) : (⟨[], [], w⟩ : Config L).Delivers k := by
  have hnone {u key env} : ¬ (⟨[], [], w⟩ : Config L).Given k u key env := by
    rintro (⟨_, _, hmem⟩ | ⟨_, hstack⟩)
    · cases hmem
    · cases hstack
  constructor
  case answered => exact fun _ _ _ _ _ hstack => nomatch hstack
  case holds => exact fun _ _ _ hgiven => (hnone hgiven).elim
  case kept => exact fun _ _ _ hgiven => (hnone hgiven).elim
  case viewed => exact fun _ _ _ hdepth => nomatch hdepth
  case stored => exact fun _ _ _ hgiven => (hnone hgiven).elim

/-- Along a path on which no load fails and the worker is not called anew, coherence is kept. -/
theorem Path.coherent (haside : ∀ w w', aside w w' → w.Apart w') (h : Path (· = k) thread aside c c')
    (hc : c.Regular thread k) (ht : c.Traced T start k) (hd : c.Delivers k)
    (hsmooth : ∀ c₁ c₂, Path (· = k) thread aside c c₁ → Step (· = k) thread aside c₁ c₂ →
      Path (· = k) thread aside c₂ c' → Smooth k c₁ c₂)
    (hacyclic : ∀ key, ¬ TransGen graph key key) (hdistinct : Distinguished k (T ++ c'.history))
    (hfollows : Follows graph k (T ++ c'.history)) (hcoherent : c.Coherent graph T k) :
    c'.Regular thread k ∧ c'.Traced T start k ∧ c'.Coherent graph T k := by
  have hbeside : ∀ w w', aside w w' → w.Beside w' := fun _ _ h => (haside _ _ h).beside
  induction h with
  | refl => exact ⟨hc, ht, hcoherent⟩
  | @tail b c' hpath hstep ih =>
    have hsmooth' c₁ c₂ (h₁ : Path (· = k) thread aside c c₁) (h : Step (· = k) thread aside c₁ c₂)
        (h₂ : Path (· = k) thread aside c₂ b) := hsmooth c₁ c₂ h₁ h (h₂.tail hstep)
    obtain ⟨hb, hbt, hbc⟩ := ih hsmooth' (hdistinct.mono hstep.history_subset) (hstep.follows hfollows)
    have hbd := Path.delivers hbeside hpath hc.sound hc.reloading hd hsmooth'
    exact ⟨hstep.regular haside hb, hstep.traced haside hb hbt,
      hstep.coherent haside hb hbt hbc hbd hacyclic hdistinct hfollows⟩

theorem Path.owned (h : Path (· = k) thread World.Calm c c') (hc : c.Regular thread k)
    (howned : c.Owned T k) : c'.Regular thread k ∧ c'.Owned T k := by
  induction h with
  | refl => exact ⟨hc, howned⟩
  | tail _ hstep ih =>
    exact ⟨hstep.regular (fun _ _ h => h.apart) ih.1, hstep.owned (fun _ _ h => h.apart.beside) ih.1 ih.2⟩

theorem coherent_of_rests (hwithin : w.Within graph k)
    (hdeepens : ∀ m ∈ T, ∀ p, m.world.dependencies p ⊆ w.dependencies p)
    (hstamped : ∀ key env, (w.worker k).cache.get? key = some env →
      ∃ u m, Vetted graph T w k u key env m)
    (hbound : ∀ key env key' found, Sure graph T w k key env → Binds T k env key' found →
      Sure graph T w k key' found ∧
        ∃ u v, w.Holds k u key ∧ w.Holds k v key' ∧ v ∈ w.dependencies u) :
    Coherent graph T k ⟨[], [], w⟩ := by
  constructor
  case within => exact hwithin
  case deepens => simpa using hdeepens
  case descends => trivial
  case stamped => simpa using hstamped
  case bound => simpa using hbound
  case given =>
    rintro u key env (⟨_, _, hmem⟩ | ⟨_, hstack⟩)
    · cases hmem
    · cases hstack
  case filling => exact fun _ _ _ _ _ _ _ hmem => nomatch hmem
  case stale => exact fun _ _ _ _ hmem => nomatch hmem

theorem Coherent.rests (h : Coherent graph T k ⟨[], t, w⟩) : Coherent graph (T ++ t) k ⟨[], [], w⟩ :=
  coherent_of_rests h.within h.deepens h.stamped h.bound

theorem Coherent.between (hacyclic : ∀ key, ¬ TransGen graph key key) (hc : Regular thread k ⟨[], [], w⟩)
    (ht : Traced T w k ⟨[], [], w⟩) (hdistinct : Distinguished k T) (hfollows : Follows graph k T)
    (hmove : w.Apart w') (hcoherent : Coherent graph T k ⟨[], [], w⟩) :
    Coherent graph T k ⟨[], [], w'⟩ := by
  have hstep : Step (· = k) thread World.Apart ⟨[], [], w⟩ ⟨[], [], w'⟩ := .aside hmove
  exact hstep.coherent (fun _ _ h => h) hc ht hcoherent (delivers_of_rests w k) hacyclic
    (by simpa using hdistinct) (by simpa using hfollows)

section Edits

variable {storage : Storage} {u : UnitId} {key : String} {env : EnvironmentId} {m : Moment L}
  (h : Keeping T past w thread k ⟨[], [], w⟩)
  (hedit : ∀ resource, storage.modified resource = w.storage.modified resource ∧
      storage.readText resource = w.storage.readText resource ∨
    ∀ s ∈ past, s.modified resource ≠ storage.modified resource)
include h hedit

theorem Keeping.unedited (hm : m ∈ T) (hu : m.world.Holds k u key)
    (hversion : World.unitVersion (L := L) { w with storage := storage } u = m.world.unitVersion u) :
    w.unitVersion u = m.world.unitVersion u := by
  obtain ⟨hpast, hscripts⟩ := h.sourced.moments m (by simpa using hm)
  obtain ⟨resource, hscript⟩ := (h.traced.precedes m (by simpa using hm)).scripted.script hu
  obtain ⟨s, hs, hagree⟩ := hpast
  have hnow : w.Script u key resource := hscripts u key resource hscript
  have hafter : World.Script (L := L) { w with storage := storage } u key resource := hnow
  rw [hafter.unitVersion, hscript.unitVersion, (hagree resource).1] at hversion
  rw [hnow.unitVersion, hscript.unitVersion, (hagree resource).1]
  rcases hedit resource with ⟨hkept, -⟩ | hnever
  · exact hkept.symm.trans hversion
  · exact (hnever s hs hversion.symm).elim

theorem Keeping.sure_of_edited
    (hsure : Sure (L := L) graph T { w with storage := storage } k key env) : Sure graph T w k key env := by
  obtain ⟨hget, u, m, hm, hversions⟩ := hsure
  refine ⟨hget, u, m, ⟨hm.mem, hm.holds, hm.stamp, hm.complete⟩, fun v hlead => ?_⟩
  obtain ⟨vkey, hv⟩ := hlead.holds (h.traced.precedes m (by simpa using hm.mem)).linked hm.holds
  exact h.unedited hedit hm.mem hv (hversions v hlead)

/-- An edit takes away the certainty of all that leads to what is edited, and of nothing else. -/
theorem Coherent.edited (hcoherent : Coherent graph T k ⟨[], [], w⟩) :
    Coherent graph T k ⟨[], [], { w with storage := storage }⟩ := by
  obtain ⟨hwithin, hdeepens, -, hstamped, hbound, -, -, -⟩ := hcoherent
  rw [List.append_nil] at hdeepens hstamped hbound
  refine coherent_of_rests hwithin hdeepens (fun key env hget => ?_) ?_
  · obtain ⟨u, m, hm⟩ := hstamped key env hget
    exact ⟨u, m, hm.mem, hm.holds, hm.stamp, hm.complete⟩
  · intro key env key' found hsure hbinds
    obtain ⟨⟨hget, q, l, hl, hversions⟩, p, v, hp, hv, hmem⟩ :=
      hbound key env key' found (h.sure_of_edited hedit hsure) hbinds
    refine ⟨⟨hget, q, l, ⟨hl.mem, hl.holds, hl.stamp, hl.complete⟩, fun x hlead => ?_⟩, p, v, hp, hv, hmem⟩
    -- all to which the import leads is what its importer leads to
    obtain ⟨-, p', m, hm, hafter⟩ := hsure
    have hmbefore := h.traced.precedes m (by simpa using hm.mem)
    have hlbefore := h.traced.precedes l (by simpa using hl.mem)
    obtain rfl := (hmbefore.holds p' key hm.holds).unique hp
    obtain rfl := (hlbefore.holds q key' hl.holds).unique hv
    have hreached : m.world.LeadsTo p' x :=
      hm.complete.leadsTo hmbefore h.regular.linked hwithin hm.holds
        (.head hmem (hlead.mono (hdeepens l hl.mem)))
    obtain ⟨xkey, hx⟩ := hreached.holds hmbefore.linked hm.holds
    exact (hafter x hreached).trans
      ((h.unedited hedit hm.mem hx (hafter x hreached)).symm.trans (hversions x hlead))

end Edits

/-- A load none of whose loads fails keeps what is stored coherent. -/
theorem Coherent.loaded {u : UnitId} {key : String} {o : Outcome (Answer EnvironmentId)} {v : World L}
    {inner : List (Moment L)} (hbegins : Setting.Begins thread k u key w o w' t v inner)
    (hc : Regular thread k ⟨[], [], w⟩) (ht : Traced T w k ⟨[], [], w⟩)
    (hacyclic : ∀ key, ¬ TransGen graph key key) (hdistinct : Distinguished k (T ++ t))
    (hfollows : Follows graph k (T ++ t)) (hall : AllLoaded t k)
    (hcoherent : Coherent graph T k ⟨[], [], w⟩) : Coherent graph T k ⟨[], t, w'⟩ := by
  have haside : ∀ w w' : World L, w.Apart w' → w.Apart w' := fun _ _ h => h
  have hload : k = k ∧ v.Holds k u key :=
    hbegins.sound.seated.known (.load k u key .arriving) List.mem_cons_self
  have hmove : Step (· = k) thread World.Apart ⟨[], [], w⟩ ⟨[], [], v⟩ := .aside hbegins.located
  have harrive : Step (· = k) thread World.Apart ⟨[], [], v⟩
      ⟨[.load k u key .arriving], [] ++ [⟨[], .entered (.load k u key), v⟩], v⟩ := .arrive rfl trivial hload.2
  have hsplit : T ++ t = T ++ [⟨[], .entered (.load k u key), v⟩] ++
      (inner ++ [⟨[], .left (.load k u key) o, w'⟩]) := by
    rw [hbegins.moments]
    simp
  have hregular := hmove.regular haside hc
  have htraced := hmove.traced haside hc ht
  have hbefore := hcoherent.between hacyclic hc ht (hdistinct.mono (List.subset_append_left T t))
    hfollows.of_append hbegins.located
  have harrived := harrive.coherent haside hregular htraced hbefore (delivers_of_rests v k) hacyclic
    (hdistinct.mono (hsplit ▸ List.subset_append_left _ _)) (hsplit ▸ hfollows).of_append
  exact (hbegins.arrives.coherent haside (harrive.regular haside hregular)
    (harrive.traced haside hregular htraced) Setting.delivers_begin
    (fun _ _ h₁ hstep h₂ => h₁.smooth hstep h₂ (List.cons_ne_nil _ _) hbegins.opens hall) hacyclic hdistinct
    hfollows harrived).2.2

end Steps

end Config

namespace Interpreter

variable {interpreter : Interpreter L} {graph : String → String → Prop} {k : WorkerId}
  {thread : ThreadId} {start w w' : World L} {past : List Storage} {T t : List (Moment L)}

theorem steady_alone (interpreter : Interpreter L) : interpreter.alone.steady = interpreter.alone := by
  simp [Setting.steady, alone]

theorem Reloads.coherent (hI : interpreter.Scripting (· = k) (fun _ => True) Request.LeavesModules)
    (hstart : start.Blank k) (h : interpreter.Reloads (Request.LoadsOn k fun _ => True) start past T w)
    (hdistinct : Distinguished k T) (hacyclic : ∀ key, ¬ TransGen graph key key)
    (hfollows : Follows graph k T) (hall : AllLoaded T k) :
    Config.Coherent graph T k ⟨[], [], w⟩ ∧ Config.Owned T k ⟨[], [], w⟩ := by
  have hkept {past T v} (h : interpreter.Reloads (Request.LoadsOn k fun _ => True) start past T v)
      (hdistinct : Distinguished k T) (thread : ThreadId) : Config.Keeping T past v thread k ⟨[], [], v⟩ :=
    ((h.mono fun _ h => h.callsOn).keeping hI hstart hdistinct thread).2
  induction h with
  | start =>
    refine ⟨Config.coherent_of_rests (fun u key _ _ hu => (hstart.unknown u key hu).elim)
      (fun _ hm => nomatch hm) (fun key env hget => ?_) (fun key env _ _ hsure => ?_),
      Config.owned_of_rests fun key env hget => ?_⟩
    · cases (hstart.stored key).symm.trans hget
    · cases (hstart.stored key).symm.trans hsure.1
    · cases (hstart.stored key).symm.trans hget
  | between hbefore hcalm ih =>
    obtain ⟨hcoherent, howned⟩ := ih hdistinct hfollows hall
    have hkeeping := hkept hbefore hdistinct (.caller 0)
    refine ⟨hcoherent.between hacyclic hkeeping.regular hkeeping.traced hdistinct hfollows hcalm.apart,
      Config.owned_of_rests fun key env hget => ?_⟩
    rw [hcalm.apart.beside.cache] at hget
    simpa using howned.stored hget
  | edit hbefore hedit ih =>
    obtain ⟨hcoherent, howned⟩ := ih hdistinct hfollows hall
    exact ⟨hcoherent.edited (hkept hbefore hdistinct (.caller 0)) hedit,
      Config.owned_of_rests fun key env hget => by simpa using howned.stored hget⟩
  | @call past T v w thread depth request o t hbefore hasks hcall ih =>
    have hdistinct' := hdistinct.mono (List.subset_append_left T t)
    obtain ⟨hbeforeAll, hloaded⟩ := hall.of_append
    obtain ⟨hcoherent, howned⟩ := ih hdistinct' hfollows.of_append hbeforeAll
    have hkeeping := hkept hbefore hdistinct' thread
    have hrests := hkeeping.regular.sound.rests
    have hpath := path_call hI hrests hasks.callsOn hcall
    refine ⟨?_, Config.owned_of_rests fun _ _ => (hpath.owned hkeeping.regular howned).2.stored⟩
    cases request with
    | loadModule j caller name =>
      obtain ⟨rfl, -⟩ := hasks
      rw [← steady_alone] at hcall
      rcases Setting.begins_of_loads hI hrests trivial hcall with ⟨rfl, hmove, -⟩ | ⟨u, key, x, inner, hbegins⟩
      · rw [List.append_nil] at hfollows ⊢
        exact hcoherent.between hacyclic hkeeping.regular hkeeping.traced hdistinct' hfollows hmove
      · exact (hcoherent.loaded hbegins hkeeping.regular hkeeping.traced hacyclic hdistinct hfollows
          hloaded).rests
    | _ => exact hasks.elim

theorem Reloads.inCache {depth : Nat} {caller : Option EnvironmentId} {name : String}
    {env : EnvironmentId} (hI : interpreter.Scripting (· = k) (fun _ => True) Request.LeavesModules)
    (hstart : start.Blank k) (h : interpreter.Reloads (Request.LoadsOn k fun _ => True) start past T w)
    (hcall : interpreter.alone.answers thread (interpreter.alone.calls thread depth) []
      (.loadModule k caller name) w (.done (.ok env)) w' t)
    (hdistinct : Distinguished k (T ++ t)) (hacyclic : ∀ key, ¬ TransGen graph key key)
    (hfollows : Follows graph k (T ++ t)) (hall : AllLoaded (T ++ t) k) :
    InCache (T ++ t) w' k env := by
  obtain ⟨hloadedBefore, hloaded⟩ := hall.of_append
  have hdistinct' := hdistinct.mono (List.subset_append_left T t)
  obtain ⟨hbefore, howned⟩ := h.coherent hI hstart hdistinct' hacyclic hfollows.of_append hloadedBefore
  obtain ⟨hpast, hkeeping⟩ := (h.mono fun _ h => h.callsOn).keeping hI hstart hdistinct' thread
  have hrests := hkeeping.regular.sound.rests
  have hfound : ∀ env key found, Binds T k env key found → found < w.environments.size := by
    simpa using hkeeping.traced.found
  have hpath := path_call hI hrests (show (Request.loadModule k caller name).CallsOn _ _ from ⟨rfl, trivial⟩)
    hcall
  have hkept := hpath.keeping hpast hfound hdistinct hkeeping
  rw [← steady_alone] at hcall
  rcases Setting.begins_of_loads hI hrests trivial hcall with ⟨-, -, _, ho⟩ | ⟨u, key, v, inner, hbegins⟩
  · cases ho
  have hcoherent := hbefore.loaded hbegins hkeeping.regular hkeeping.traced hacyclic hdistinct hfollows hloaded
  intro found hfound
  obtain ⟨key', hsure⟩ : ∃ key', Sure graph (T ++ t) w' k key' found := by
    induction hfound with
    | refl =>
      refine ⟨key, hcoherent.given u key env (.inl ⟨[], w', ?_⟩)⟩
      exact hbegins.moments ▸ List.mem_append_right _ (List.mem_singleton_self _)
    | tail _ hbinds ih =>
      obtain ⟨key', hsure⟩ := ih
      obtain ⟨key'', hbinds⟩ := hbinds
      exact ⟨key'', (hcoherent.bound key' _ key'' _ hsure hbinds).1⟩
  obtain ⟨p, code, x, hran⟩ := (hpath.owned hkeeping.regular howned).2.stored hsure.1
  refine ⟨key', hsure.1, ⟨p, code, x, hran⟩, fun q key'' code' y hran' => ?_⟩
  -- one unit was ever filled into the module, and a unit has one key
  obtain ⟨rfl, -⟩ := hkept.traced.sole found p key' code x q key'' code' y hran hran'
  have hkey {key code x} (hran : Ran (T ++ t) k q key found code x) : w'.unitKey q = key := by
    obtain ⟨resource, _, hscript, -⟩ := hkept.sourced.ran q key found code x hran
    obtain ⟨frames, hmem⟩ := hran
    exact Script.unitKey ((hkept.sourced.moments _ hmem).2 q key resource hscript)
  exact (hkey hran').symm.trans (hkey hran)

/-- After loads without failures and edits one after another, a load comes to a module that the cache holds
for its key, as does every import of a module to which its bindings lead, if imports make no circles. Some
moments show the loads, and all moments that do show this. -/
theorem Serves.in_cache {depth : Nat} {caller : Option EnvironmentId} {name : String}
    {env : EnvironmentId} (hI : interpreter.Scripting (· = k) (fun _ => True) Request.LeavesModules)
    (hstart : start.Blank k) (h : interpreter.Serves (Request.LoadsOn k fun _ => True) start past w)
    (hload : interpreter.alone.Replies thread depth (.loadModule k caller name) w (.done (.ok env)) w')
    (hacyclic : ∀ key, ¬ TransGen graph key key) :
    (∃ T t, interpreter.Reloads (Request.LoadsOn k fun _ => True) start past T w ∧
      interpreter.alone.answers thread (interpreter.alone.calls thread depth) []
        (.loadModule k caller name) w (.done (.ok env)) w' t) ∧
    ∀ T t, interpreter.Reloads (Request.LoadsOn k fun _ => True) start past T w →
      interpreter.alone.answers thread (interpreter.alone.calls thread depth) []
        (.loadModule k caller name) w (.done (.ok env)) w' t →
      Distinguished k (T ++ t) → Follows graph k (T ++ t) → AllLoaded (T ++ t) k →
        InCache (T ++ t) w' k env := by
  obtain ⟨T, hshown⟩ := exists_reloads_iff.2 h
  obtain ⟨t, hcall⟩ := Setting.exists_answers_iff.2 hload
  exact ⟨⟨T, t, hshown, hcall⟩, fun _ _ hshown hcall hdistinct =>
    hshown.inCache hI hstart hcall hdistinct hacyclic⟩

end Interpreter

namespace Importing

/-- Each of three modules but the last one imports the next one. -/
def importNext (source : String) : List (Line String) :=
  if source.isEmpty then [.imports "b.yx"] else if source = "b" then [.imports "c.yx"] else []

def nextKeys : List (String × String) :=
  [("memory:app/a.yx", "memory:app/b.yx"), ("memory:app/b.yx", "memory:app/c.yx")]

def nextWorld : World (language String) :=
  world String true [("a.yx", ByteArray.empty), ("b.yx", ⟨#[98]⟩), ("c.yx", ⟨#[99]⟩)]

def playNext (name : String) (w : World (language String)) :
    Option (Outcome (Answer EnvironmentId) × World (language String) × List (Moment (language String))) :=
  (interpreter id importNext).alone.playAnswer (.caller 0)
    ((interpreter id importNext).alone.playCall (.caller 0) 4) [] (.loadModule 0 none name) w

def nextEdited (w : World (language String)) : World (language String) := w.edited 0 "c.yx" ⟨#[100]⟩ 1

def loadsNext : Outcome (Answer EnvironmentId) × World (language String) ×
    List (Moment (language String)) → Bool
  | (_, w₁, T) =>
    (nextEdited w₁).storage.storeModified 0 = 1 && match playNext "c" (nextEdited w₁) with
      | some (_, w₂, t) => match playNext "a" w₂ with
        | some (.done (.ok env), _, t') => env = 5 && tellsApart 0 3 (T ++ t ++ t') &&
          follows 0 nextKeys (T ++ t ++ t') &&
          (((T ++ t ++ t').filterMap (ended? 0)).all fun x => x.2.2.isSome) &&
          ((T ++ t ++ t').filterMap (Moment.binding? 0)).contains (5, "memory:app/b.yx", 6) &&
          ((T ++ t ++ t').filterMap (Moment.binding? 0)).contains (6, "memory:app/c.yx", 4)
        | _ => false
      | _ => false

theorem blank_nextWorld : nextWorld.Blank 0 where
  rests := rests_world true _
  reloading := rfl
  stored _ := rfl
  unknown u key h := by
    obtain ⟨scripts, hs, hu⟩ := h
    cases hs
    cases hu
  keyed p unit key v hp := by cases hp

theorem nextKeys_lt : ∀ p ∈ nextKeys, p.1 < p.2 := by decide

/-- Modules that are loaded anew because an import of an import was refreshed by a load of its own are bound
to what the cache holds. -/
theorem refreshed_import_in_cache : ∃ past T w w' t,
    (interpreter id importNext).Serves (Request.LoadsOn 0 fun _ => True) nextWorld past w ∧
    (interpreter id importNext).alone.Replies (.caller 0) 4 (.loadModule 0 none "a") w (.done (.ok 5)) w' ∧
    past.length = 2 ∧
    (interpreter id importNext).Reloads (Request.LoadsOn 0 fun _ => True) nextWorld past T w ∧
    (interpreter id importNext).alone.answers (.caller 0)
      ((interpreter id importNext).alone.calls (.caller 0) 4) [] (.loadModule 0 none "a") w
      (.done (.ok 5)) w' t ∧
    Binds (T ++ t) 0 5 "memory:app/b.yx" 6 ∧ Binds (T ++ t) 0 6 "memory:app/c.yx" 4 ∧
    InCache (T ++ t) w' 0 5 := by
  have heval : ((playNext "a" nextWorld).any loadsNext) = true := by decide +kernel
  obtain ⟨⟨o, w₁, T⟩, hfirst, hshown⟩ := (Option.any_eq_true _ _).1 heval
  unfold loadsNext at hshown
  rw [Bool.and_eq_true, decide_eq_true_eq] at hshown
  obtain ⟨htime, hshown⟩ := hshown
  split at hshown
  case h_2 => cases hshown
  case h_1 o' w₂ t hsecond =>
  split at hshown
  case h_2 => cases hshown
  case h_1 env w₃ t' hthird =>
  simp only [Bool.and_eq_true, decide_eq_true_eq, List.contains_iff_mem] at hshown
  obtain ⟨⟨⟨⟨⟨rfl, hapart⟩, hfollows⟩, hloaded⟩, hbinds⟩, hbinds'⟩ := hshown
  have hscripting : (interpreter id importNext).Scripting (· = 0) (fun _ => True) Request.LeavesModules :=
    (scripting id importNext _ fun _ => trivial).mono fun _ h => h.leavesModules
  have hasks name : (Request.loadModule 0 none name).LoadsOn (L := language String) 0 fun _ => True :=
    ⟨rfl, trivial⟩
  have hfirst := Interpreter.Reloads.call .start (hasks "a") (Setting.answers_of_play hfirst)
  have hedited := hfirst.edit fun resource => (w₁.edited_elsewhere 0 "c.yx" ⟨#[100]⟩ 1 resource).imp_right
    fun ⟨_, _, _, _, hresource⟩ s hs => by
      rw [List.mem_singleton.1 hs, hresource]
      change nextWorld.storage.storeModified 0 ≠ (nextEdited w₁).storage.storeModified 0
      rw [htime]
      decide
  have hrefreshed := hedited.call (hasks "c") (Setting.answers_of_play hsecond)
  have hcall := Setting.answers_of_play hthird
  have hload : (interpreter id importNext).alone.Replies (.caller 0) 4 (.loadModule 0 none "a") w₂
      (.done (.ok 5)) w₃ := Setting.exists_answers_iff.1 ⟨t', hcall⟩
  obtain ⟨-, hall⟩ := Interpreter.Serves.in_cache hscripting blank_nextWorld hrefreshed.serves hload
    (acyclic_of_lt fun key key' => nextKeys_lt (key, key'))
  exact ⟨_, _, _, w₃, t', hrefreshed.serves, hload, rfl, hrefreshed, hcall, binds_iff.2 hbinds,
    binds_iff.2 hbinds', hall _ _ hrefreshed hcall (distinguished_of_check hapart)
      (follows_of_check hfollows) (allLoaded_of_check hloaded)⟩

end Importing

end ScriptWorker
