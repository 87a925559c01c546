import ScriptWorker.Proofs.Reloading.Histories

/-!
# A load gives what the sources say now

Whatever calls there were and however the sources were edited between them, a module to which a load comes,
and every module to which its bindings lead, was filled by a body compiled from the text that its source has
when the load comes to it.
-/

namespace ScriptWorker

open Relation World

variable {L : Language}

/-- Wherever the bindings of a module lead, one body has filled the module, which was compiled from the
text that the source of its unit has now. -/
def UpToDate (T : List (Moment L)) (w : World L) (k : WorkerId) (env : EnvironmentId) : Prop :=
  ∀ found, Reaches T k env found → ∃ u key resource text code,
    w.Holds k u key ∧ w.Script u key resource ∧ w.storage.readText resource = .ok text ∧
      Compiles T resource.path text code ∧ (∃ x, Ran T k u key found code x) ∧
        ∀ v key' code' x, Ran T k v key' found code' x → v = u ∧ code' = code

namespace Config

variable {thread : ThreadId} {k : WorkerId} {c : Config L} {T : List (Moment L)} {past : List Storage}
  {start : World L} {u : UnitId} {key : String} {env : EnvironmentId}

theorem Keeping.upToDate (h : c.Keeping T past start thread k) (hpast : Storage.Consistent past)
    (hcurrent : Current (T ++ c.history) c.world k u env) : UpToDate (T ++ c.history) c.world k env := by
  intro found hfound
  obtain ⟨v, key', code, x, hran, hheld, -, hversion⟩ := hcurrent found hfound
  obtain ⟨resource, text, hscript, -, htext, hcompiles⟩ := h.sourced.ran v key' found code x hran
  obtain ⟨frames, hmem⟩ := hran
  obtain ⟨hstorage, hkept⟩ := h.sourced.moments _ hmem
  have hnow := hkept v key' resource hscript
  -- the source has the time that it had when the body began, and so the text
  have htime : c.world.storage.modified resource = x.storage.modified resource :=
    hnow.unitVersion.symm.trans (hversion.symm.trans hscript.unitVersion)
  refine ⟨v, key', resource, text, code, hheld, hnow, ?_, hcompiles, ⟨x, frames, hmem⟩, ?_⟩
  · rw [← htext]
    exact hpast.text h.sourced.storage hstorage htime
  · intro v' key'' code' x' hran'
    exact h.traced.sole found v key' code x v' key'' code' x' ⟨frames, hmem⟩ hran'

end Config

namespace Interpreter

variable {interpreter : Interpreter L} {k : WorkerId} {thread : ThreadId} {start w w' : World L}
  {past : List Storage} {T t : List (Moment L)} {env : EnvironmentId}

theorem Reloads.upToDate {depth : Nat} {caller : Option EnvironmentId} {name : String}
    (hI : interpreter.Scripting (· = k) (fun _ => True) Request.LeavesModules) (hstart : start.Blank k)
    (h : interpreter.Reloads (Request.CallsOn (· = k) fun _ => True) start past T w)
    (hcall : interpreter.alone.answers thread (interpreter.alone.calls thread depth) []
      (.loadModule k caller name) w (.done (.ok env)) w' t)
    (hdistinct : Distinguished k (T ++ t)) : UpToDate (T ++ t) w' k env := by
  obtain ⟨hpast, hkeeping⟩ := h.keeping hI hstart (hdistinct.mono (List.subset_append_left T t)) thread
  have hrests := hkeeping.regular.sound.rests
  have hfound : ∀ env key found, Binds T k env key found → found < w.environments.size := by
    simpa using hkeeping.traced.found
  have hpath := path_call hI hrests (show (Request.loadModule k caller name).CallsOn _ _ from ⟨rfl, trivial⟩)
    hcall
  have hafter := hpath.keeping hpast hfound hdistinct hkeeping
  rcases loads_cases (hrests.scripted k rfl) hcall with ⟨cause, -, ho⟩ | ⟨u, key, v, t', -, -, -, rfl⟩
  · cases ho
  · -- what a load leaves with was offered
    have hoffers := hafter.upheld.offered key env
      (.inr (.inr ⟨u, [], w', List.mem_append_right _ (List.mem_singleton_self _)⟩))
    obtain ⟨u', -, hcurrent | ⟨_, _, _, hstack⟩⟩ := hoffers
    · exact hafter.upToDate hpast hcurrent
    · cases hstack

/-- After calls and edits one after another, a load that comes to a module comes to one that is up to date,
as is every module to which its bindings lead. Some moments show the calls and the load, and all moments
that do show this. -/
theorem Serves.up_to_date {depth : Nat} {caller : Option EnvironmentId} {name : String}
    (hI : interpreter.Scripting (· = k) (fun _ => True) Request.LeavesModules) (hstart : start.Blank k)
    (h : interpreter.Serves (Request.CallsOn (· = k) fun _ => True) start past w)
    (hload : interpreter.alone.Replies thread depth (.loadModule k caller name) w (.done (.ok env)) w') :
    (∃ T t, interpreter.Reloads (Request.CallsOn (· = k) fun _ => True) start past T w ∧
      interpreter.alone.answers thread (interpreter.alone.calls thread depth) []
        (.loadModule k caller name) w (.done (.ok env)) w' t) ∧
    ∀ T t, interpreter.Reloads (Request.CallsOn (· = k) fun _ => True) start past T w →
      interpreter.alone.answers thread (interpreter.alone.calls thread depth) []
        (.loadModule k caller name) w (.done (.ok env)) w' t →
      Distinguished k (T ++ t) → UpToDate (T ++ t) w' k env := by
  obtain ⟨T, hshown⟩ := exists_reloads_iff.2 h
  obtain ⟨t, hcall⟩ := Setting.exists_answers_iff.2 hload
  exact ⟨⟨T, t, hshown, hcall⟩, fun _ _ hshown hcall => hshown.upToDate hI hstart hcall⟩

end Interpreter

/-- An edit of an entry, whose store gets the time of now, or one past its last one. -/
def World.edited (w : World L) (store : StoreId) (path : String) (content : ByteArray) (now : UInt64) :
    World L :=
  { w with storage := (w.storage.writeEntry store "" path content).bump store now }

theorem World.edited_elsewhere (w : World L) (store : StoreId) (path : String) (content : ByteArray)
    (now : UInt64) (resource : Resource) :
    (w.edited store path content now).storage.modified resource = w.storage.modified resource ∧
        (w.edited store path content now).storage.readText resource = w.storage.readText resource ∨
      ∃ storeName directory name place, resource = .memory store storeName directory name place := by
  cases resource with
  | file file => exact .inl ⟨rfl, rfl⟩
  | memory store' storeName directory name place =>
    by_cases hstore : store = store'
    · subst hstore
      exact .inr ⟨_, _, _, _, rfl⟩
    · left
      have hsame : (w.edited store path content now).storage.stores.get? store' =
          w.storage.stores.get? store' := by
        unfold World.edited Storage.bump Storage.writeEntry
        dsimp only
        rw [Table.get?_modify, if_neg hstore, Table.get?_modify, if_neg hstore]
      constructor
      · unfold Storage.modified Storage.storeModified
        dsimp only
        rw [hsame]
      · unfold Storage.readText Storage.read Storage.entry?
        dsimp only
        rw [hsame]

namespace Importing

/-- One module imports another one, which comes to import it back. -/
def importBack (source : String) : List (Line String) :=
  if source.isEmpty then [.imports "b.yx"] else if source = "c" then [.tries "a.yx"] else []

def backWorld : World (language String) :=
  world String true [("a.yx", ByteArray.empty), ("b.yx", ⟨#[98]⟩)]

def backHost : Setting (language String) := (interpreter id importBack).alone

def playBack (w : World (language String)) :
    Option (Outcome (Answer EnvironmentId) × World (language String) × List (Moment (language String))) :=
  backHost.playAnswer (.caller 0) (backHost.playCall (.caller 0) 3) [] (.loadModule 0 none "a") w

def backEdited (w : World (language String)) : World (language String) := w.edited 0 "b.yx" ⟨#[99]⟩ 1

def loadsAnew : Outcome (Answer EnvironmentId) × World (language String) ×
    List (Moment (language String)) → Bool
  | (_, w₁, T) =>
    (backEdited w₁).storage.storeModified 0 = 1 && match playBack (backEdited w₁) with
      | some (.done (.ok env), _, t) => env = 3 && tellsApart 0 2 (T ++ t) &&
        decide ((3, "memory:app/b.yx", 4) ∈ (T ++ t).filterMap (Moment.binding? 0))
      | _ => false

theorem blank_backWorld : backWorld.Blank 0 where
  rests := rests_world true _
  reloading := rfl
  stored _ := rfl
  unknown u key h := by
    obtain ⟨scripts, hs, hu⟩ := h
    cases hs
    cases hu
  keyed p unit key v hp := by cases hp

/-- A module whose import was edited since it was loaded is loaded anew, with what is imported now. -/
theorem edited_import_up_to_date : ∃ past T w w' t,
    (interpreter id importBack).Serves (Request.CallsOn (· = 0) fun _ => True) backWorld past w ∧
    backHost.Replies (.caller 0) 3 (.loadModule 0 none "a") w (.done (.ok 3)) w' ∧ past.length = 2 ∧
    (interpreter id importBack).Reloads (Request.CallsOn (· = 0) fun _ => True) backWorld past T w ∧
    backHost.answers (.caller 0) (backHost.calls (.caller 0) 3) [] (.loadModule 0 none "a") w
      (.done (.ok 3)) w' t ∧
    Distinguished 0 (T ++ t) ∧ Binds (T ++ t) 0 3 "memory:app/b.yx" 4 ∧ UpToDate (T ++ t) w' 0 3 := by
  have heval : ((playBack backWorld).any loadsAnew) = true := by decide +kernel
  obtain ⟨⟨o, w₁, T⟩, hfirst, hshown⟩ := (Option.any_eq_true _ _).1 heval
  unfold loadsAnew at hshown
  rw [Bool.and_eq_true, decide_eq_true_eq] at hshown
  obtain ⟨htime, hshown⟩ := hshown
  split at hshown
  case h_2 => cases hshown
  case h_1 env w₂ t hsecond =>
  simp only [Bool.and_eq_true, decide_eq_true_eq] at hshown
  obtain ⟨⟨rfl, hapart⟩, hbinds⟩ := hshown
  have hscripting : (interpreter id importBack).Scripting (· = 0) (fun _ => True) Request.LeavesModules :=
    (scripting id importBack _ fun _ => trivial).mono fun _ h => h.leavesModules
  have hloaded := Interpreter.Reloads.call .start
    (show (Request.loadModule 0 none "a").CallsOn (· = 0) fun _ => True from ⟨rfl, trivial⟩)
    (Setting.answers_of_play hfirst)
  have hedited := hloaded.edit fun resource => (w₁.edited_elsewhere 0 "b.yx" ⟨#[99]⟩ 1 resource).imp_right
    fun ⟨_, _, _, _, hresource⟩ s hs => by
      rw [List.mem_singleton.1 hs, hresource]
      change backWorld.storage.storeModified 0 ≠ (backEdited w₁).storage.storeModified 0
      rw [htime]
      decide
  have hcall := Setting.answers_of_play hsecond
  have hload : backHost.Replies (.caller 0) 3 (.loadModule 0 none "a") (backEdited w₁) (.done (.ok 3)) w₂ :=
    Setting.exists_answers_iff.1 ⟨t, hcall⟩
  have hdistinct : Distinguished 0 (T ++ t) := distinguished_of_check hapart
  obtain ⟨-, hall⟩ := Interpreter.Serves.up_to_date hscripting blank_backWorld hedited.serves hload
  exact ⟨_, T, _, w₂, t, hedited.serves, hload, rfl, hedited, hcall, hdistinct, binds_iff.2 hbinds,
    hall T t hedited hcall hdistinct⟩

end Importing

end ScriptWorker
