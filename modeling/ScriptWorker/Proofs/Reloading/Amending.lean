import ScriptWorker.Proofs.Reloading.Traces

/-!
# Edits at any time

Sources may be edited between any two steps of nested loads, by others or by the code that runs. Such an edit
gives sources other times, and leaves alone which modules there are, how they are stamped and what units
depend on.
-/

namespace ScriptWorker

open Relation World

variable {L : Language}

def Storage.Passes (edits : Storage → Storage → Prop) (s s' : Storage) : Prop :=
  (∀ resource, s'.modified resource = s.modified resource) ∨ edits s s'

namespace World

/-- What changes no worker, no unit and no stamp, and no time of a source but by an edit. -/
def Amends (edits : Storage → Storage → Prop) (w w' : World L) : Prop := w.Apart w' ∨ Edited edits w w'

section Amends

variable {edits : Storage → Storage → Prop} {w w' : World L} {k : WorkerId} {u p : UnitId}
  {env : EnvironmentId}

theorem Amends.passes (h : Amends edits w w') : Storage.Passes edits w.storage w'.storage := by
  rcases h with h | ⟨storage, hedit, rfl⟩
  · exact .inl h.modified
  · exact .inr hedit

theorem Amends.beside (h : Amends edits w w') : w.Beside w' := by
  rcases h with h | ⟨storage, -, rfl⟩
  · exact h.beside
  · exact w.beside_storage storage

theorem Amends.linked (h : Amends edits w w') (hlinked : w.Linked k) : w'.Linked k := by
  rcases h with h | ⟨storage, -, rfl⟩
  · exact h.linked hlinked
  · exact hlinked

theorem Amends.dependencies (h : Amends edits w w') (u : UnitId) :
    w'.dependencies u = w.dependencies u := by
  rcases h with h | ⟨storage, -, rfl⟩
  · exact h.dependencies u
  · rfl

theorem Amends.environment (h : Amends edits w w') (henv : env < w.environments.size) :
    (w'.environment env).checksum = (w.environment env).checksum ∧
      (w'.environment env).kind = (w.environment env).kind := by
  rcases h with h | ⟨storage, -, rfl⟩
  · exact h.stamps env henv
  · exact ⟨rfl, rfl⟩

structure Retains (edits : Storage → Storage → Prop) (w w' : World L) : Prop where
  beside : w.Beside w'
  linked : ∀ k, w.Linked k → w'.Linked k
  dependencies : ∀ u, w'.dependencies u = w.dependencies u
  environment : ∀ env, env < w.environments.size →
    (w'.environment env).checksum = (w.environment env).checksum ∧
      (w'.environment env).kind = (w.environment env).kind
  passes : ReflTransGen (Storage.Passes edits) w.storage w'.storage

theorem retains_of_amends (h : ReflTransGen (Amends edits) w w') : w.Retains edits w' := by
  induction h with
  | refl => exact ⟨.refl w, fun _ h => h, fun _ => rfl, fun _ _ => ⟨rfl, rfl⟩, .refl⟩
  | tail _ hstep ih =>
    refine ⟨ih.beside.trans hstep.beside, fun k h => hstep.linked (ih.linked k h),
      fun u => (hstep.dependencies u).trans (ih.dependencies u), fun env henv => ?_,
      ih.passes.tail hstep.passes⟩
    obtain ⟨hchecksum, hkind⟩ := hstep.environment (Nat.lt_of_lt_of_le henv ih.beside.environments)
    exact ⟨hchecksum.trans (ih.environment env henv).1, hkind.trans (ih.environment env henv).2⟩

theorem Retains.leadsTo_iff (h : w.Retains edits w') : w'.LeadsTo u p ↔ w.LeadsTo u p := by
  unfold LeadsTo
  simp only [h.dependencies]

end Amends

end World

/-- A request that touches no module and no unit, and no source but by an edit. -/
def Request.Amending (edits : Storage → Storage → Prop) (request : Request L) : Prop :=
  request.LeavesModules ∨ ∃ repository change, request = .edit repository change ∧
    (repository.edit change : Run L Bool).Moves (Edited edits)

namespace Setting

variable {S : Setting L} {crew : WorkerId → Prop} {names : String → Prop} {thread : ThreadId}

theorem naming_amends (S : Setting L) : Naming S (World.Amends S.edits) where
  beside _ _ h := h.beside
  edited _ _ h := .inr h
  tried w root candidate := by
    obtain ⟨existence, hw⟩ := tryCandidate_eq w root candidate
    rw [hw]
    exact .inl (w.still_existence existence).apart
  scripted w r resource name := .inl (apart_scriptFor w r resource name)

theorem suits_amends (h : S.interpreter.Scripting crew names (Request.Amending S.edits)) :
    S.Suits crew names thread (World.Amends S.edits) := by
  refine suits_of_moves h (naming_amends S) (fun _ _ h => .inl h.apart) fun request hrequest => ?_
  rcases hrequest with hleaves | ⟨repository, change, rfl, hmoves⟩
  · exact ⟨hleaves.leavesWorkers, (moves_answer hleaves).mono fun _ _ h => .inl h.apart⟩
  · exact ⟨trivial, hmoves.mono fun _ _ h => .inr h⟩

end Setting

namespace Config

/-- How a call stands on its worker, whatever is edited meanwhile. -/
structure Standing (thread : ThreadId) (k : WorkerId) (c : Config L) : Prop where
  sound : c.Sound (· = k) thread
  linked : c.world.Linked k
  keyed : c.world.Keyed
  alone : c.Alone k
  imported : c.Imported k
  unbroken : c.Unbroken

section Standing

variable {thread : ThreadId} {k : WorkerId} {edits : Storage → Storage → Prop} {c c' : Config L}

theorem Step.amends {crew : WorkerId → Prop} (h : Step crew thread (World.Amends edits) c c') :
    Step crew thread World.Apart c c' ∨
      ∃ storage, c' = { c with world := { c.world with storage := storage } } := by
  cases h with
  | aside h =>
    rcases h with h | ⟨storage, -, rfl⟩
    · exact .inl (.aside h)
    · exact .inr ⟨storage, rfl⟩
  | fail hreturned => exact .inl (.fail hreturned)
  | _ =>
    left
    constructor <;> assumption

theorem Standing.step (h : Step (· = k) thread (World.Amends edits) c c') (hc : c.Standing thread k) :
    c'.Standing thread k := by
  have hseat := hc.sound.seated
  rcases h.amends with h | ⟨storage, rfl⟩
  · exact ⟨h.sound (fun _ _ h => h.beside) hc.sound, h.linked (fun _ _ h => h.linked) hseat hc.linked,
      h.keyed (fun _ _ h => h) hseat hc.keyed, h.alone (fun _ _ h => h) hc.sound rfl hc.alone,
      h.imported (fun _ _ h => h) hseat hc.sound.nested hc.keyed hc.linked hc.imported,
      h.unbroken hc.sound.nested hc.unbroken⟩
  · exact ⟨h.sound (fun _ _ h => h.beside) hc.sound, hc.linked, hc.keyed, hc.alone, hc.imported,
      hc.unbroken⟩

theorem Step.dependencies_subset (h : Step (· = k) thread (World.Amends edits) c c') (p : UnitId) :
    c.world.dependencies p ⊆ c'.world.dependencies p := by
  rcases h.amends with h | ⟨storage, rfl⟩
  · rcases h.dependencies (fun _ _ h => h) p with heq | ⟨_, _, _, _, _, _, -, -, -, heq⟩
    · exact heq ▸ List.Subset.refl _
    · exact heq ▸ List.subset_append_left ..
  · exact List.Subset.refl _

end Standing

end Config

end ScriptWorker
