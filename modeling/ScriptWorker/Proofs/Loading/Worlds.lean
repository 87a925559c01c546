import ScriptWorker.Execution.Calls
import ScriptWorker.Proofs.Moments

/-!
# What a load does to its worker

The atomic steps of a load change the row of its worker, and nothing else of the world apart from the
module that is filled and the dependency that is recorded. So a row of steps on one worker is one
change of that row, and edits of the sources by others may come before it or after it.
-/

namespace ScriptWorker

open Relation

variable {L : Language}

namespace Worker

def entered (thread : ThreadId) (x : Worker) : Worker :=
  { x with
    serializer := { x.serializer with owner := some thread, depth := x.serializer.depth + 1 }
    cache := if x.serializer.depth = 0 ∧ x.config.reloading then x.cache.clear else x.cache
    errors := if x.serializer.depth = 0 then [] else x.errors }

def left (x : Worker) : Worker := { x with serializer := x.serializer.leave }

def answered (thread : ThreadId) (key : String) (x : Worker) : Worker :=
  let x := x.entered thread
  { x with cache := (x.cache.checked key).2 }.left

def opened (thread : ThreadId) (unit : UnitId) (key : String) (x : Worker) : Worker :=
  let x := x.entered thread
  { x with
    cache := (x.cache.checked key).2
    serializer := { x.serializer with current := some unit } }

def unwound (parent : Option UnitId) (x : Worker) : Worker :=
  { x with serializer := { x.serializer with current := parent } }.left

def settledCache (key : String) (answer : Answer EnvironmentId) (cache : ModuleCache EnvironmentId) :
    ModuleCache EnvironmentId :=
  match answer with
  | .ok env => cache.put key env
  | .error _ => cache.uncheck key

def closed (key : String) (parent : Option UnitId) (answer : Answer EnvironmentId) (x : Worker) :
    Worker :=
  { x with cache := settledCache key answer x.cache }.unwound parent

def marked (key : String) (env : EnvironmentId) (x : Worker) : Worker :=
  { x with cache := x.cache.mark key env }

end Worker

namespace World

theorem worker_modifyWorker (w : World L) (k j : WorkerId) (f : Worker → Worker) :
    (w.modifyWorker k f).worker j =
      if k = j ∧ k < w.workers.size then f (w.worker k) else w.worker j := by
  unfold worker modifyWorker
  simp only [Table.get?_modify]
  by_cases h : k = j
  · subst h
    by_cases hk : k < w.workers.size
    · have hrow : w.workers.get? k = some w.workers.rows[k] := List.getElem?_eq_getElem hk
      simp [hrow, hk]
    · have hrow : w.workers.get? k = none := List.getElem?_eq_none (Nat.le_of_not_lt hk)
      simp [hrow, hk]
  · simp [h]

theorem worker_modifyWorker_self {w : World L} {k : WorkerId} (hk : k < w.workers.size)
    (f : Worker → Worker) : (w.modifyWorker k f).worker k = f (w.worker k) := by
  rw [worker_modifyWorker, if_pos ⟨rfl, hk⟩]

theorem worker_modifyWorker_ne {w : World L} {k j : WorkerId} (h : k ≠ j) (f : Worker → Worker) :
    (w.modifyWorker k f).worker j = w.worker j := by
  rw [worker_modifyWorker, if_neg fun hkj => h hkj.1]

@[simp] theorem size_modifyWorker (w : World L) (k : WorkerId) (f : Worker → Worker) :
    (w.modifyWorker k f).workers.size = w.workers.size := by
  simp [modifyWorker]

theorem modifyWorker_congr {w : World L} {k : WorkerId} {f g : Worker → Worker}
    (h : f (w.worker k) = g (w.worker k)) : w.modifyWorker k f = w.modifyWorker k g := by
  unfold modifyWorker Table.modify
  congr 2
  apply List.ext_getElem?
  intro i
  rw [List.getElem?_modify, List.getElem?_modify]
  by_cases hi : k = i
  · subst hi
    cases hrow : w.workers.rows[k]? with
    | none => rfl
    | some row =>
      have hworker : w.worker k = row := by simp [worker, Table.get?, hrow]
      rw [hworker] at h
      simp [h]
  · simp [hi]

theorem modifyWorker_modifyWorker (w : World L) (k : WorkerId) (f g : Worker → Worker) :
    (w.modifyWorker k f).modifyWorker k g = w.modifyWorker k fun x => g (f x) := by
  simp [modifyWorker, Table.modify, List.modify_modify_eq, Function.comp_def]

def entered (w : World L) (thread : ThreadId) (k : WorkerId) : World L :=
  w.modifyWorker k (Worker.entered thread)

def recorded (parent : Option UnitId) (u : UnitId) (w : World L) : World L :=
  match parent with
  | some parent => w.recordDependency parent u
  | none => w

def answered (w : World L) (thread : ThreadId) (k : WorkerId) (u : UnitId) (key : String)
    (parent : Option UnitId) : World L :=
  (w.modifyWorker k (Worker.answered thread key)).recorded parent u

def closed (w : World L) (k : WorkerId) (u : UnitId) (key : String) (parent : Option UnitId)
    (answer : Answer EnvironmentId) : World L :=
  (w.modifyWorker k (Worker.closed key parent answer)).recorded parent u

/-! ## Steps as changes of one row -/

theorem leave_eq (w : World L) (k : WorkerId) : w.leave k = w.modifyWorker k Worker.left := rfl

theorem modifyCache_eq (w : World L) (k : WorkerId)
    (f : ModuleCache EnvironmentId → ModuleCache EnvironmentId) :
    w.modifyCache k f = w.modifyWorker k fun x => { x with cache := f x.cache } := rfl

theorem clearErrors_eq (w : World L) (k : WorkerId) :
    w.clearErrors k = w.modifyWorker k fun x => { x with errors := [] } := rfl

theorem keepLoad_eq (w : World L) (k : WorkerId) (key : String) (answer : Answer EnvironmentId) :
    Worker.keepLoad k key answer w =
      w.modifyWorker k fun x => { x with cache := Worker.settledCache key answer x.cache } := rfl

theorem markChecked_eq (w : World L) (k : WorkerId) (key : String) (env : EnvironmentId) :
    w.markChecked k key env = w.modifyWorker k (Worker.marked key env) := rfl

theorem lookupChecked_eq (w : World L) (k : WorkerId) (key : String) :
    w.lookupChecked k key = ((w.worker k).cache.peek key,
      w.modifyWorker k fun x => { x with cache := (x.cache.checked key).2 }) := by
  have hfound : ((w.worker k).cache.checked key).1 = (w.worker k).cache.peek key := by
    unfold ModuleCache.checked
    cases (w.worker k).cache.peek key <;> rfl
  unfold lookupChecked
  refine Prod.ext hfound ?_
  exact modifyWorker_congr rfl

theorem pushScript_eq (w : World L) (k : WorkerId) (u : UnitId) :
    w.pushScript k u = (⟨some (w.worker k).serializer.current⟩,
      w.modifyWorker k fun x =>
        { x with serializer := { x.serializer with current := some u } }) := by
  refine Prod.ext rfl ?_
  exact modifyWorker_congr rfl

theorem restoreScript_eq (w : World L) (k : WorkerId) (parent : Option UnitId) :
    w.restoreScript k ⟨some parent⟩ = (parent,
      w.modifyWorker k fun x =>
        { x with serializer := { x.serializer with current := parent } }) := by
  refine Prod.ext rfl ?_
  exact modifyWorker_congr rfl

def departed (k : WorkerId) (u : UnitId) (key : String) (parent : Option UnitId) :
    Outcome (Answer EnvironmentId) → World L → World L
  | .done answer, w => w.closed k u key parent answer
  | .panic _, w => w.modifyWorker k (Worker.unwound parent)

/-! ## Edits by others -/

/-- What others may have done between two steps. -/
abbrev Drifts (edits : Storage → Storage → Prop) : World L → World L → Prop :=
  ReflTransGen (Edited edits)

section Edits

variable {edits : Storage → Storage → Prop} {w v : World L}

theorem drifts_iff :
    Drifts edits w v ↔
      ∃ storage, ReflTransGen edits w.storage storage ∧ v = { w with storage := storage } := by
  constructor
  · intro h
    induction h with
    | refl => exact ⟨w.storage, .refl, rfl⟩
    | tail _ hstep ih =>
      obtain ⟨s, hs, rfl⟩ := ih
      obtain ⟨s', hs', rfl⟩ := hstep
      exact ⟨s', hs.tail hs', rfl⟩
  · rintro ⟨s, hs, rfl⟩
    induction hs with
    | refl => exact .refl
    | tail _ hstep ih => exact ih.tail ⟨_, hstep, rfl⟩

theorem drifts_before {f : World L → World L}
    (hf : ∀ (w : World L) storage, { f w with storage := storage } = f { w with storage := storage })
    (hs : ∀ w : World L, (f w).storage = w.storage)
    (h : Drifts edits (f w) v) :
    ∃ v₀, Drifts edits w v₀ ∧ v = f v₀ := by
  obtain ⟨s, hchain, rfl⟩ := drifts_iff.1 h
  rw [hs] at hchain
  exact ⟨{ w with storage := s }, drifts_iff.2 ⟨s, hchain, rfl⟩, hf w s⟩

theorem drifts_modifyWorker {k : WorkerId} {f : Worker → Worker}
    (h : Drifts edits (w.modifyWorker k f) v) :
    ∃ v₀, Drifts edits w v₀ ∧ v = v₀.modifyWorker k f :=
  drifts_before (fun _ _ => rfl) (fun _ => rfl) h

theorem drifts_after {k : WorkerId} {f : Worker → Worker} (h : Drifts edits w v) :
    Drifts edits (w.modifyWorker k f) (v.modifyWorker k f) := by
  obtain ⟨storage, hstorage, rfl⟩ := drifts_iff.1 h
  exact drifts_iff.2 ⟨storage, hstorage, rfl⟩

theorem drifts_recorded {parent : Option UnitId} {u : UnitId}
    (h : Drifts edits (w.recorded parent u) v) :
    ∃ v₀, Drifts edits w v₀ ∧ v = v₀.recorded parent u := by
  cases parent with
  | none => exact ⟨v, h, rfl⟩
  | some parent => exact drifts_before (fun _ _ => rfl) (fun _ => rfl) h

theorem drifts_departed {k : WorkerId} {u : UnitId} {key : String} {parent : Option UnitId}
    {o : Outcome (Answer EnvironmentId)} (h : Drifts edits w v) :
    Drifts edits (w.departed k u key parent o) (v.departed k u key parent o) := by
  obtain ⟨storage, hstorage, rfl⟩ := drifts_iff.1 h
  refine drifts_iff.2 ⟨storage, ?_, ?_⟩
  · cases o with
    | done answer => cases parent <;> exact hstorage
    | panic payload => exact hstorage
  · cases o with
    | done answer => cases parent <;> rfl
    | panic payload => rfl

theorem worker_drifts (h : Drifts edits w v) (k : WorkerId) :
    v.worker k = w.worker k := by
  obtain ⟨s, -, rfl⟩ := drifts_iff.1 h
  rfl

end Edits

end World

end ScriptWorker
