import ScriptWorker.Proofs.Loading.Worlds

/-!
# The runs of a load

What the programs of a load come to, with the code from outside left open. Steps on one worker that
do not look at the sources are put together: what others did between them counts as done before.
-/

namespace ScriptWorker

open Relation World

variable {L : Language} {α : Type} {edits : Storage → Storage → Prop}
  {call : (callee : Callee L) → World L → Outcome callee.Result → World L → List (Moment L) → Prop}
  {thread : ThreadId} {k : WorkerId} {w w' : World L} {t : List (Moment L)}

namespace Worker

theorem runs_enter {o : Outcome SerialGuard} (hk : k < w.workers.size)
    (h : (enter thread k).Runs (Edited edits) call w o w' t) :
    ∃ v guard, Drifts edits w v ∧ (v.worker k).serializer.admits thread ∧ o = .done guard ∧
      w' = v.entered thread k ∧ t = [] := by
  unfold enter at h
  rw [Program.runs_await_bind] at h
  obtain ⟨v, guard, v₁, hv, hguard, h⟩ := h
  have hsize : k < v.workers.size := by
    obtain ⟨s, -, rfl⟩ := drifts_iff.1 hv
    exact hk
  obtain ⟨⟨guard', s⟩, henter, hpair⟩ := Option.map_eq_some_iff.1 hguard
  cases hpair
  obtain ⟨hadmits, rfl, rfl⟩ := Serializer.enter?_eq henter
  have hadmits' : ∀ u, Drifts edits v u → (u.worker k).serializer.admits thread := by
    intro u hu
    rw [worker_drifts hu]
    exact hadmits
  by_cases hdepth : (v.worker k).serializer.depth = 0
  · have houter : SerialGuard.isOutermost ⟨(v.worker k).serializer.depth + 1⟩ = true := by
      simp [SerialGuard.isOutermost, hdepth]
    rw [houter] at h
    obtain ⟨u, hu, h⟩ := Program.runs_read_bind.1 h
    obtain ⟨v₁, hv₁, rfl⟩ := drifts_modifyWorker hu
    have hrow := worker_drifts hv₁ k
    have hsize₁ : k < v₁.workers.size := by
      obtain ⟨s, -, rfl⟩ := drifts_iff.1 hv₁
      exact hsize
    rw [worker_modifyWorker_self hsize₁, hrow] at h
    cases hreload : (v.worker k).config.reloading with
    | false =>
      simp only [hreload] at h
      obtain ⟨u, hu, h⟩ := Program.runs_modify_bind.1 h
      obtain ⟨v₂, hv₂, rfl⟩ := drifts_modifyWorker hu
      obtain ⟨hu, rfl, rfl⟩ := Program.runs_pure.1 h
      rw [clearErrors_eq, modifyWorker_modifyWorker] at hu
      obtain ⟨v₃, hv₃, rfl⟩ := drifts_modifyWorker hu
      have hto := (hv₁.trans hv₂).trans hv₃
      refine ⟨v₃, _, hv.trans hto, hadmits' v₃ hto, rfl, modifyWorker_congr ?_, rfl⟩
      rw [worker_drifts hto]
      simp [Worker.entered, hdepth, hreload]
    | true =>
      simp only [hreload] at h
      obtain ⟨u, hu, h⟩ := Program.runs_modify_bind.1 h
      obtain ⟨v₂, hv₂, rfl⟩ := drifts_modifyWorker hu
      obtain ⟨u, hu, h⟩ := Program.runs_modify_bind.1 h
      rw [modifyCache_eq, modifyWorker_modifyWorker] at hu
      obtain ⟨v₃, hv₃, rfl⟩ := drifts_modifyWorker hu
      obtain ⟨hu, rfl, rfl⟩ := Program.runs_pure.1 h
      rw [clearErrors_eq, modifyWorker_modifyWorker] at hu
      obtain ⟨v₄, hv₄, rfl⟩ := drifts_modifyWorker hu
      have hto := ((hv₁.trans hv₂).trans hv₃).trans hv₄
      refine ⟨v₄, _, hv.trans hto, hadmits' v₄ hto, rfl, modifyWorker_congr ?_, rfl⟩
      rw [worker_drifts hto]
      simp [Worker.entered, hdepth, hreload]
  · have hinner : SerialGuard.isOutermost ⟨(v.worker k).serializer.depth + 1⟩ = false := by
      simp [SerialGuard.isOutermost, hdepth]
    rw [hinner] at h
    obtain ⟨hu, rfl, rfl⟩ := Program.runs_pure.1 h
    obtain ⟨u, hu', rfl⟩ := drifts_modifyWorker hu
    refine ⟨u, _, hv.trans hu', hadmits' u hu', rfl, modifyWorker_congr ?_, rfl⟩
    rw [worker_drifts hu']
    simp [Worker.entered, hdepth]

theorem runs_serialized {inside : Run L α} {o : Outcome α} (hk : k < w.workers.size)
    (h : (serialized thread k inside).Runs (Edited edits) call w o w' t) :
    ∃ v w₁ v₁, Drifts edits w v ∧ (v.worker k).serializer.admits thread ∧
      inside.Runs (Edited edits) call (v.entered thread k) o w₁ t ∧ Drifts edits w₁ v₁ ∧
      w' = v₁.modifyWorker k left := by
  obtain ⟨guard, v₀, t₁, t₂, henter, hrest, rfl⟩ | ⟨payload, v₀, henter, -⟩ :=
    Program.runs_bind.1 h
  case inr =>
    obtain ⟨-, guard, -, -, ho, -⟩ := runs_enter hk henter
    cases ho
  case inl =>
  obtain ⟨v, guard', hv, hadmits, -, rfl, rfl⟩ := runs_enter hk henter
  obtain ⟨o₁, w₁, t₁, t₃, hinside, hleave, rfl⟩ :=
    Program.runs_thenOutcome.1 hrest
  obtain ⟨v₁, hv₁, hend⟩ := Program.runs_modify_bind.1 hleave
  obtain ⟨hu, rfl, rfl⟩ := hend
  rw [leave_eq] at hu
  obtain ⟨v₂, hv₂, rfl⟩ := drifts_modifyWorker hu
  exact ⟨v, w₁, v₂, hv, hadmits, by simpa using hinside, hv₁.trans hv₂, rfl⟩

/-- What a program under a frame comes to, and what that leaves in the cache. -/
theorem runs_withScript {u : UnitId} {key : String} {inside : Run L (Answer EnvironmentId)}
    {o : Outcome (Answer EnvironmentId × Option UnitId)}
    (h : (withScript k u inside (keepLoad k key)).Runs (Edited edits) call w o w' t) :
    ∃ v o₁ w₁ v₁, Drifts edits w v ∧
      inside.Runs (Edited edits) call
        (v.modifyWorker k fun x =>
          { x with serializer := { x.serializer with current := some u } }) o₁ w₁ t ∧
      Drifts edits w₁ v₁ ∧
      match o₁ with
      | .done answer => o = .done (answer, (v.worker k).serializer.current) ∧
          w' = v₁.modifyWorker k fun x =>
            { x with
              cache := settledCache key answer x.cache
              serializer := { x.serializer with current := (v.worker k).serializer.current } }
      | .panic payload => o = .panic payload ∧
          w' = v₁.modifyWorker k fun x =>
            { x with
              serializer := { x.serializer with current := (v.worker k).serializer.current } } := by
  unfold withScript at h
  obtain ⟨v, hv, h⟩ := Program.runs_transact_bind.1 h
  rw [pushScript_eq] at h
  obtain ⟨o₁, w₀, t₁, t₂, hcaught, h, rfl⟩ | ⟨payload, w₀, hcaught, -⟩ := Program.runs_bind.1 h
  case inr =>
    obtain ⟨o₁, w₁, t₁, t₂, hinside, ⟨-, ho, -⟩, -⟩ := Program.runs_thenOutcome.1 hcaught
    cases ho
  case inl =>
  obtain ⟨o₂, w₁, t₁, t₃, hinside, ⟨hw₁, ho, rfl⟩, rfl⟩ := Program.runs_thenOutcome.1 hcaught
  cases ho
  cases o₁ with
  | panic payload =>
    obtain ⟨v₁, hv₁, hend⟩ := Program.runs_transact_bind.1 h
    obtain ⟨hu, rfl, rfl⟩ := hend
    rw [restoreScript_eq] at hu
    obtain ⟨v₂, hv₂, rfl⟩ := drifts_modifyWorker hu
    exact ⟨v, .panic payload, w₁, v₂, hv, by simpa using hinside, (hw₁.trans hv₁).trans hv₂, rfl, rfl⟩
  | done answer =>
    obtain ⟨v₁, hv₁, h⟩ := Program.runs_modify_bind.1 h
    obtain ⟨u', hu', h⟩ := Program.runs_transact_bind.1 h
    rw [keepLoad_eq] at hu'
    obtain ⟨v₂, hv₂, rfl⟩ := drifts_modifyWorker hu'
    obtain ⟨hu, rfl, rfl⟩ := Program.runs_pure.1 h
    rw [restoreScript_eq, modifyWorker_modifyWorker] at hu
    obtain ⟨v₃, hv₃, rfl⟩ := drifts_modifyWorker hu
    refine ⟨v, .done answer, w₁, v₃, hv, by simpa using hinside,
      ((hw₁.trans hv₁).trans hv₂).trans hv₃, ?_, rfl⟩
    rw [restoreScript_eq]

theorem runs_recordImport {parent : Option UnitId} {u : UnitId} {o : Outcome Unit}
    (hparent : ∀ p, parent = some p → ∃ unit resource c,
      w.units.get? p = some unit ∧ unit.source = .script resource c)
    (h : (recordImport parent u).Runs (Edited edits) call w o w' t) :
    ∃ v, Drifts edits w v ∧ o = .done () ∧ w' = v.recorded parent u ∧ t = [] := by
  cases parent with
  | none =>
    obtain ⟨hv, rfl, rfl⟩ := Program.runs_pure.1 h
    exact ⟨w', hv, rfl, rfl, rfl⟩
  | some p =>
    obtain ⟨unit, resource, c, hunit, hsource⟩ := hparent p rfl
    obtain ⟨v, hv, h⟩ := Program.runs_read_bind.1 h
    have hunit' : v.units.get? p = some unit := by
      obtain ⟨s, -, rfl⟩ := drifts_iff.1 hv
      exact hunit
    simp only [hunit', Option.map_some, hsource] at h
    obtain ⟨v₁, v₂, hv₁, hmove, hend⟩ := h
    cases hmove
    obtain ⟨hu, rfl, rfl⟩ := hend
    have hto : Drifts edits (v₁.recorded (some p) u) w' := hu
    obtain ⟨v₃, hv₃, rfl⟩ := drifts_recorded hto
    exact ⟨v₃, (hv.trans hv₁).trans hv₃, rfl, rfl, rfl⟩

theorem runs_checkOrLoad {u : UnitId} {key : String} {f : Worker → Worker}
    {o : Outcome (Answer EnvironmentId × Option UnitId)} (hk : k < w.workers.size)
    (h : (checkOrLoad k u key).Runs (Edited edits) call (w.modifyWorker k f) o w' t) :
    ∃ v, Drifts edits w v ∧
      ((∃ env, (f (v.worker k)).cache.peek key = some env ∧
          o = .done (.ok env, (f (v.worker k)).serializer.current) ∧
          w' = v.modifyWorker k (fun x => { f x with cache := ((f x).cache.checked key).2 }) ∧
          t = []) ∨
        (f (v.worker k)).cache.peek key = none ∧
        (withScript k u (ExecutableUnit.load k u ((f (v.worker k)).cache.get? key))
          (keepLoad k key)).Runs (Edited edits) call
          (v.modifyWorker k fun x => { f x with cache := ((f x).cache.checked key).2 }) o w' t) := by
  obtain ⟨u₁, hu₁, h⟩ := Program.runs_transact_bind.1 h
  obtain ⟨v, hv, rfl⟩ := drifts_modifyWorker hu₁
  have hsize : k < v.workers.size := by
    obtain ⟨s, -, rfl⟩ := drifts_iff.1 hv
    exact hk
  rw [lookupChecked_eq, modifyWorker_modifyWorker, worker_modifyWorker_self hsize] at h
  cases hfound : (f (v.worker k)).cache.peek key with
  | some env =>
    rw [hfound] at h
    obtain ⟨u₂, hu₂, h⟩ := Program.runs_read_bind.1 h
    obtain ⟨v₂, hv₂, rfl⟩ := drifts_modifyWorker hu₂
    obtain ⟨hu, rfl, rfl⟩ := Program.runs_pure.1 h
    obtain ⟨v₃, hv₃, rfl⟩ := drifts_modifyWorker hu
    have hsize₂ : k < v₂.workers.size := by
      obtain ⟨s, -, rfl⟩ := drifts_iff.1 hv₂
      exact hsize
    refine ⟨v₃, (hv.trans hv₂).trans hv₃, .inl ⟨env, ?_, ?_, rfl, rfl⟩⟩
    · rw [worker_drifts (hv₂.trans hv₃), hfound]
    · rw [worker_modifyWorker_self hsize₂, worker_drifts hv₃]
  | none =>
    rw [hfound] at h
    obtain ⟨u₂, hu₂, h⟩ := Program.runs_read_bind.1 h
    obtain ⟨v₂, hv₂, rfl⟩ := drifts_modifyWorker hu₂
    have hsize₂ : k < v₂.workers.size := by
      obtain ⟨s, -, rfl⟩ := drifts_iff.1 hv₂
      exact hsize
    rw [worker_modifyWorker_self hsize₂] at h
    refine ⟨v₂, hv.trans hv₂, .inr ⟨?_, ?_⟩⟩
    · rw [worker_drifts hv₂, hfound]
    · have hexisting : ((f (v₂.worker k)).cache.checked key).2.get? key =
          (f (v₂.worker k)).cache.get? key := by
        unfold ModuleCache.checked
        cases (f (v₂.worker k)).cache.peek key <;> rfl
      rwa [hexisting] at h

/-- Inside its serializer a worker answers a load from the checked view, or runs the unit's own load
with the unit as the current script. -/
theorem runs_serialLoad {u : UnitId} {key : String}
    {o : Outcome (Answer EnvironmentId × Option UnitId)} (hk : k < w.workers.size)
    (h : (serialized thread k (checkOrLoad k u key)).Runs (Edited edits) call w o w' t) :
    ∃ v, Drifts edits w v ∧ (v.worker k).serializer.admits thread ∧
      ((∃ env, ((v.worker k).entered thread).cache.peek key = some env ∧
          o = .done (.ok env, (v.worker k).serializer.current) ∧
          w' = v.modifyWorker k (answered thread key) ∧ t = []) ∨
        ((v.worker k).entered thread).cache.peek key = none ∧
        ∃ o₁ w₁ v₁,
          (ExecutableUnit.load k u (((v.worker k).entered thread).cache.get? key)).Runs
            (Edited edits) call (v.modifyWorker k (opened thread u key)) o₁ w₁ t ∧
          Drifts edits w₁ v₁ ∧
          match o₁ with
          | .done answer => o = .done (answer, (v.worker k).serializer.current) ∧
              w' = v₁.modifyWorker k (closed key (v.worker k).serializer.current answer)
          | .panic payload => o = .panic payload ∧
              w' = v₁.modifyWorker k (unwound (v.worker k).serializer.current)) := by
  obtain ⟨v, w₁, v₁, hv, hadmits, hinside, hv₁, rfl⟩ := runs_serialized hk h
  have hsize : k < v.workers.size := by
    obtain ⟨s, -, rfl⟩ := drifts_iff.1 hv
    exact hk
  obtain ⟨v₂, hv₂, ⟨env, hpeek, rfl, rfl, rfl⟩ | ⟨hpeek, hload⟩⟩ := runs_checkOrLoad hsize hinside
  · obtain ⟨v₃, hv₃, rfl⟩ := drifts_modifyWorker hv₁
    have hrow : v₃.worker k = v₂.worker k := worker_drifts hv₃ k
    have hfrom : v₃.worker k = v.worker k := worker_drifts (hv₂.trans hv₃) k
    refine ⟨v₃, (hv.trans hv₂).trans hv₃, hfrom ▸ hadmits, .inl ⟨env, ?_, ?_, ?_, rfl⟩⟩
    · rw [hrow]
      exact hpeek
    · rw [hrow]
      rfl
    · rw [modifyWorker_modifyWorker]
      rfl
  · obtain ⟨v₃, o₁, w₂, v₄, hv₃, hcode, hv₄, ho⟩ := runs_withScript hload
    obtain ⟨v₅, hv₅, rfl⟩ := drifts_modifyWorker hv₃
    have hsize₅ : k < v₅.workers.size := by
      obtain ⟨s, -, rfl⟩ := drifts_iff.1 (hv₂.trans hv₅)
      exact hsize
    have hrow : v₅.worker k = v₂.worker k := worker_drifts hv₅ k
    have hfrom : v₅.worker k = v.worker k := worker_drifts (hv₂.trans hv₅) k
    rw [worker_modifyWorker_self hsize₅] at ho
    rw [modifyWorker_modifyWorker, ← hrow] at hcode
    refine ⟨v₅, (hv.trans hv₂).trans hv₅, hfrom ▸ hadmits, .inr ⟨?_, ?_⟩⟩
    · rw [hrow]
      exact hpeek
    · cases o₁ with
      | panic payload =>
        obtain ⟨ho, rfl⟩ := ho
        obtain ⟨v₆, hv₆, rfl⟩ := drifts_modifyWorker hv₁
        refine ⟨.panic payload, w₂, v₆, hcode, hv₄.trans hv₆, ho, ?_⟩
        rw [modifyWorker_modifyWorker]
        rfl
      | done answer =>
        obtain ⟨ho, rfl⟩ := ho
        obtain ⟨v₆, hv₆, rfl⟩ := drifts_modifyWorker hv₁
        refine ⟨.done answer, w₂, v₆, hcode, hv₄.trans hv₆, ho, ?_⟩
        rw [modifyWorker_modifyWorker]
        rfl

end Worker

end ScriptWorker
