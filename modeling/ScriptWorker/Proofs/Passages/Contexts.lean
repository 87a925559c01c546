import ScriptWorker.Proofs.Loading.Worlds

/-!
# The context of a thread

What a thread finds when it enters an operation: the worker that is active on it, and for each worker
how often it is inside the serializer and which script is current. Entering and leaving a serializer,
and making a script current and putting the previous one back, cancel each other out.
-/

namespace ScriptWorker

variable {L : Language}

namespace Serializer

variable {υ : Type} {thread : ThreadId}

/-- Nothing is current, and nothing is to be left, while no thread is inside. -/
def Orderly (s : Serializer υ) : Prop :=
  match s.owner with
  | none => s.depth = 0 ∧ s.current = none
  | some _ => s.depth ≠ 0

def depthOf (s : Serializer υ) (thread : ThreadId) : Nat :=
  if s.owner = some thread then s.depth else 0

def currentOf (s : Serializer υ) (thread : ThreadId) : Option υ :=
  if s.owner = some thread then s.current else none

theorem orderly_create : (create : Serializer υ).Orderly := ⟨rfl, rfl⟩

variable {s s' : Serializer υ}

theorem owner_of_depthOf (h : s.depthOf thread ≠ 0) : s.owner = some thread := by
  unfold depthOf at h
  split at h
  · assumption
  · exact (h rfl).elim

theorem owner_of_admits (hadmits : s.admits thread) : s.owner = none ∨ s.owner = some thread := by
  unfold admits at hadmits
  split at hadmits
  · next h => exact .inl h
  · next owner h => exact .inr (h.trans (congrArg some (of_decide_eq_true hadmits)))

theorem currentOf_of_admits (hs : s.Orderly) (hadmits : s.admits thread) :
    s.currentOf thread = s.current := by
  unfold currentOf
  rcases owner_of_admits hadmits with h | h
  · unfold Orderly at hs
    rw [h] at hs
    simp [h, hs.2]
  · rw [if_pos h]

theorem leave_of_enter? {v : Serializer υ} {guard : SerialGuard} (hs : s.Orderly)
    (henter : s.enter? thread = some (guard, s')) (hdepth : v.depthOf thread = s'.depthOf thread)
    (hcurrent : v.currentOf thread = s'.currentOf thread) :
    v.leave.Orderly ∧ v.leave.depthOf thread = s.depthOf thread ∧
      v.leave.currentOf thread = s.currentOf thread := by
  obtain ⟨hadmits, -, rfl⟩ := enter?_eq henter
  have hinside : v.depthOf thread = s.depth + 1 := hdepth.trans (if_pos rfl)
  have howner : v.owner = some thread := owner_of_depthOf (by omega)
  rw [depthOf, if_pos howner] at hinside
  have hcurrent : v.current = s.current := by
    rw [currentOf, if_pos howner, currentOf, if_pos rfl] at hcurrent
    exact hcurrent
  rcases owner_of_admits hadmits with hfree | hours
  · -- the outermost level: nobody is inside any more
    unfold Orderly at hs
    rw [hfree] at hs
    have hone : v.depth = 1 := by rw [hinside, hs.1]
    simp [Orderly, leave, depthOf, currentOf, hone, hfree, hcurrent, hs.2]
  · unfold Orderly at hs
    rw [hours] at hs
    have hs' : s.depth ≠ 0 := hs
    simp [Orderly, leave, depthOf, currentOf, howner, hours, hcurrent, hinside, hs']

/-- What is current is a matter of the thread inside. -/
theorem depthOf_current (current : Option υ) :
    { s with current := current }.depthOf thread = s.depthOf thread := rfl

theorem orderly_current (hinside : s.depthOf thread ≠ 0) (hs : s.Orderly) (current : Option υ) :
    { s with current := current }.Orderly := by
  unfold Orderly at hs ⊢
  rw [owner_of_depthOf hinside] at hs ⊢
  exact hs

theorem currentOf_current (hinside : s.depthOf thread ≠ 0) (current : Option υ) :
    { s with current := current }.currentOf thread = current := if_pos (owner_of_depthOf hinside)

end Serializer

/-- What a thread finds of the calls that it is in. -/
@[ext]
structure Context where
  active : Option WorkerId
  depth : WorkerId → Nat
  script : WorkerId → Option UnitId

namespace World

def context (w : World L) (thread : ThreadId) : Context where
  active := w.active.get? thread
  depth k := (w.worker k).serializer.depthOf thread
  script k := (w.worker k).serializer.currentOf thread

def Orderly (w : World L) : Prop := ∀ k, (w.worker k).serializer.Orderly

variable {thread : ThreadId} {k : WorkerId} {w v u : World L}

theorem worker_of_size_le (h : w.workers.size ≤ k) : w.worker k = default := by
  unfold worker
  rw [show w.workers.get? k = none from List.getElem?_eq_none h]
  rfl

theorem modifyWorker_of_size_le (h : w.workers.size ≤ k) (f : Worker → Worker) :
    w.modifyWorker k f = w := by
  unfold modifyWorker
  have hrows : w.workers.modify k f = w.workers.modify k fun x => x :=
    Table.modify_congr fun row hrow => by
      rw [show w.workers.get? k = none from List.getElem?_eq_none h] at hrow
      cases hrow
  rw [hrows, Table.modify_id]

theorem serializer_modifyWorker {j : WorkerId} {f : Worker → Worker} (hk : k < w.workers.size) :
    ((w.modifyWorker k f).worker j).serializer =
      if k = j then (f (w.worker k)).serializer else (w.worker j).serializer := by
  rw [worker_modifyWorker]
  by_cases h : k = j
  · simp [h, h ▸ hk]
  · simp [h]

theorem orderly_modifyWorker (hw : w.Orderly) {f : Worker → Worker} (hk : k < w.workers.size)
    (hf : (f (w.worker k)).serializer.Orderly) : (w.modifyWorker k f).Orderly := by
  intro j
  rw [serializer_modifyWorker hk]
  split
  · exact hf
  · exact hw j

theorem context_congr (hactive : v.active.get? thread = w.active.get? thread)
    (hserializer : ∀ j, (v.worker j).serializer.depthOf thread =
        (w.worker j).serializer.depthOf thread ∧
      (v.worker j).serializer.currentOf thread = (w.worker j).serializer.currentOf thread) :
    v.context thread = w.context thread :=
  Context.ext hactive (funext fun j => (hserializer j).1) (funext fun j => (hserializer j).2)

theorem leave_of_enter? {guard : SerialGuard} (hw : w.Orderly)
    (henter : w.enter? thread k = some (guard, v)) (hu : u.Orderly)
    (hsize : u.workers.size = v.workers.size) (hcontext : u.context thread = v.context thread) :
    (u.leave k).Orderly ∧ (u.leave k).context thread = w.context thread := by
  obtain ⟨⟨guard', s⟩, hs, hpair⟩ := Option.map_eq_some_iff.1 henter
  cases hpair
  by_cases hk : k < w.workers.size
  · have hk' : k < u.workers.size := by rw [hsize]; simpa using hk
    have hat : ∀ j, (u.worker j).serializer.depthOf thread =
          ((if k = j then s else (w.worker j).serializer).depthOf thread) ∧
        (u.worker j).serializer.currentOf thread =
          ((if k = j then s else (w.worker j).serializer).currentOf thread) := by
      intro j
      have hdepth := congrFun (congrArg Context.depth hcontext) j
      have hscript := congrFun (congrArg Context.script hcontext) j
      simp only [context, serializer_modifyWorker hk] at hdepth hscript
      exact ⟨hdepth, hscript⟩
    have hself := hat k
    rw [if_pos rfl] at hself
    have hleave := Serializer.leave_of_enter? (hw k) hs hself.1 hself.2
    refine ⟨orderly_modifyWorker hu hk' hleave.1, context_congr ?_ fun j => ?_⟩
    · exact congrArg Context.active hcontext
    · rw [leave_eq, serializer_modifyWorker hk']
      by_cases h : k = j
      · subst h
        rw [if_pos rfl]
        exact hleave.2
      · have hother := hat j
        rw [if_neg h] at hother ⊢
        exact hother
  · have hk := Nat.le_of_not_lt hk
    have hk' : u.workers.size ≤ k := by rw [hsize]; simpa using hk
    rw [leave_eq, modifyWorker_of_size_le hk', hcontext, modifyWorker_of_size_le hk]
    exact ⟨hu, rfl⟩

/-- A thread that has entered a worker is inside, and sees the script that was current before. -/
theorem context_enter? {guard : SerialGuard} (hw : w.Orderly)
    (henter : w.enter? thread k = some (guard, v)) :
    v.Orderly ∧ v.workers.size = w.workers.size ∧
      (v.context thread).active = (w.context thread).active ∧
      (v.context thread).script = (w.context thread).script ∧
      (k < w.workers.size → (v.context thread).depth k ≠ 0) := by
  obtain ⟨⟨guard', s⟩, hs, hpair⟩ := Option.map_eq_some_iff.1 henter
  cases hpair
  obtain ⟨hadmits, -, rfl⟩ := Serializer.enter?_eq hs
  by_cases hk : k < w.workers.size
  · refine ⟨orderly_modifyWorker hw hk (Nat.succ_ne_zero _), by simp, rfl, funext fun j => ?_,
      fun _ => ?_⟩
    · change (((w.modifyWorker k _).worker j).serializer).currentOf thread = _
      rw [serializer_modifyWorker hk]
      split
      · next h =>
        subst h
        exact (if_pos rfl).trans (Serializer.currentOf_of_admits (hw k) hadmits).symm
      · rfl
    · change (((w.modifyWorker k _).worker k).serializer).depthOf thread ≠ 0
      rw [serializer_modifyWorker hk, if_pos rfl, Serializer.depthOf, if_pos rfl]
      exact Nat.succ_ne_zero _
  · rw [modifyWorker_of_size_le (Nat.le_of_not_lt hk)]
    exact ⟨hw, rfl, rfl, rfl, fun h => (hk h).elim⟩

def Inside (w : World L) (thread : ThreadId) (k : WorkerId) : Prop :=
  k < w.workers.size → (w.context thread).depth k ≠ 0

theorem Inside.congr (h : w.Inside thread k) (hsize : v.workers.size = w.workers.size)
    (hcontext : v.context thread = w.context thread) : v.Inside thread k := by
  unfold Inside
  rw [hsize, hcontext]
  exact h

theorem context_pushScript {unit : UnitId} (hw : w.Orderly) (hinside : w.Inside thread k) :
    (w.pushScript k unit).2.Orderly ∧
      (w.pushScript k unit).2.workers.size = w.workers.size ∧
      ∀ j p, ((w.pushScript k unit).2.context thread).script j = some p →
        p = unit ∨ (w.context thread).script j = some p := by
  rw [pushScript_eq]
  by_cases hk : k < w.workers.size
  · refine ⟨orderly_modifyWorker hw hk (Serializer.orderly_current (hinside hk) (hw k) _),
      by simp, fun j p hp => ?_⟩
    change ((w.modifyWorker k _).worker j).serializer.currentOf thread = some p at hp
    rw [serializer_modifyWorker hk] at hp
    split at hp
    · rw [Serializer.currentOf_current (hinside hk)] at hp
      exact .inl (Option.some.inj hp).symm
    · exact .inr hp
  · rw [modifyWorker_of_size_le (Nat.le_of_not_lt hk)]
    exact ⟨hw, rfl, fun j p hp => .inr hp⟩

theorem current_of_inside (hinside : w.Inside thread k) :
    (w.worker k).serializer.current = (w.context thread).script k := by
  by_cases hk : k < w.workers.size
  · exact (if_pos (Serializer.owner_of_depthOf (hinside hk))).symm
  · change _ = (w.worker k).serializer.currentOf thread
    rw [worker_of_size_le (Nat.le_of_not_lt hk)]
    rfl

theorem saved_of_pushScript {unit : UnitId} (hinside : w.Inside thread k) (u : World L) :
    (u.restoreScript k (w.pushScript k unit).1).1 = (w.context thread).script k := by
  rw [pushScript_eq, restoreScript_eq]
  exact current_of_inside hinside

theorem restoreScript_of_pushScript {unit : UnitId} (hinside : w.Inside thread k)
    (hu : u.Orderly) (hsize : u.workers.size = w.workers.size)
    (hcontext : u.context thread = (w.pushScript k unit).2.context thread) :
    (u.restoreScript k (w.pushScript k unit).1).2.Orderly ∧
      (u.restoreScript k (w.pushScript k unit).1).2.context thread = w.context thread := by
  rw [pushScript_eq] at hcontext ⊢
  rw [restoreScript_eq]
  by_cases hk : k < w.workers.size
  · have hk' : k < u.workers.size := by rw [hsize]; exact hk
    have hat : ∀ j, (u.worker j).serializer.depthOf thread =
          (w.worker j).serializer.depthOf thread ∧
        (k ≠ j → (u.worker j).serializer.currentOf thread =
          (w.worker j).serializer.currentOf thread) := by
      intro j
      have hdepth := congrFun (congrArg Context.depth hcontext) j
      have hcurrent := congrFun (congrArg Context.script hcontext) j
      simp only [context, serializer_modifyWorker hk] at hdepth hcurrent
      constructor
      · rw [hdepth]
        split
        · next h => rw [Serializer.depthOf_current, h]
        · rfl
      · intro h
        rw [hcurrent, if_neg h]
    have hinside' : (u.worker k).serializer.depthOf thread ≠ 0 := by
      rw [(hat k).1]
      exact hinside hk
    refine ⟨orderly_modifyWorker hu hk' (Serializer.orderly_current hinside' (hu k) _),
      context_congr (congrArg Context.active hcontext) fun j => ?_⟩
    rw [serializer_modifyWorker hk']
    by_cases h : k = j
    · subst h
      rw [if_pos rfl, Serializer.depthOf_current, Serializer.currentOf_current hinside']
      exact ⟨(hat k).1, current_of_inside hinside⟩
    · rw [if_neg h]
      exact ⟨(hat j).1, (hat j).2 h⟩
  · have hk := Nat.le_of_not_lt hk
    have hk' : u.workers.size ≤ k := by rw [hsize]; exact hk
    rw [modifyWorker_of_size_le hk] at hcontext
    rw [modifyWorker_of_size_le hk']
    exact ⟨hu, hcontext⟩

theorem context_setActive (w : World L) (thread : ThreadId) (active : Option WorkerId) :
    (w.setActive thread active).context thread = { w.context thread with active := active } := by
  cases active with
  | none => exact Context.ext (by simp [context, setActive]) rfl rfl
  | some k => exact Context.ext (by simp [context, setActive]) rfl rfl

end World

end ScriptWorker
