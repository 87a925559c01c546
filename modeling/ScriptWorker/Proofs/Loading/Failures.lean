import ScriptWorker.Proofs.Loading.Circular
import ScriptWorker.Proofs.Loading.Panics
import ScriptWorker.Proofs.Loading.Windows

/-!
# What a failed load leaves behind

A load that fails has touched the cache at its own key, and loads inside it at theirs. It takes its own
entry back, and so does each load inside it that fails: with a worker that reloads the stored module of
before has stayed in place all the time, and with one that does not there was none, or the load would
have been answered with it. So only loads inside it that came to a module can have changed an entry, and
loads that panicked, where running code stops the panic of a load and goes on.
-/

namespace ScriptWorker

open Relation World

variable {L : Language}

/-- What the next entry into a worker finds checked under a key. -/
def Worker.finds? (x : Worker) (key : String) : Option EnvironmentId :=
  (if x.serializer.depth = 0 ∧ x.config.reloading then x.cache.clear else x.cache).peek key

theorem Worker.get?_of_finds? {x : Worker} {key : String} (hmode : x.cache.mode = .release)
    (h : x.finds? key = none) : x.cache.get? key = none := by
  unfold finds? at h
  rw [ModuleCache.clear_eq_self _ hmode, ite_self] at h
  exact (ModuleCache.peek_eq_get? _ _ hmode).symm.trans h

/-- The last load of a key that has begun above some frames was not answered from the checked view, and
all that has shown since is inside it. -/
def Missed (k : WorkerId) (u : UnitId) (key : String) (frames : List (Frame L)) (t : List (Moment L)) :
    Prop :=
  ∃ before x inner, t = before ++ ⟨frames, .entered (.load k u key), x⟩ :: inner ∧
    (∀ m ∈ inner, .load k u key :: frames <:+ m.frames) ∧ (x.worker k).finds? key = none

/-- A load of a key was not answered from the checked view and has come to a module. -/
def Renewed (k : WorkerId) (key : String) (t : List (Moment L)) : Prop :=
  ∃ earlier frames u env y later,
    t = earlier ++ ⟨frames, .left (.load k u key) (.done (.ok env)), y⟩ :: later ∧
    Missed k u key frames earlier

section Moments

variable {k : WorkerId} {u : UnitId} {key : String} {frames : List (Frame L)} {t : List (Moment L)}

theorem Missed.snoc {m : Moment L} (h : Missed k u key frames t)
    (hm : .load k u key :: frames <:+ m.frames) : Missed k u key frames (t ++ [m]) := by
  obtain ⟨before, x, inner, rfl, hinner, hnone⟩ := h
  refine ⟨before, x, inner ++ [m], by simp, fun n hn => ?_, hnone⟩
  rcases List.mem_append.1 hn with hn | hn
  · exact hinner n hn
  · rw [List.mem_singleton.1 hn]
    exact hm

theorem Renewed.append (h : Renewed k key t) (t' : List (Moment L)) : Renewed k key (t ++ t') := by
  obtain ⟨earlier, frames, u, env, y, later, rfl, hmissed⟩ := h
  exact ⟨earlier, frames, u, env, y, later ++ t', by simp, hmissed⟩

end Moments

def Stopped (k : WorkerId) (key : String) (t : List (Moment L)) : Prop :=
  ∃ m ∈ t, ∃ u payload, m.event = .left (.load k u key) (.panic payload)

def Excused (k : WorkerId) (key : String) (t : List (Moment L)) : Prop :=
  Renewed k key t ∨ Stopped k key t

theorem Excused.append {k : WorkerId} {key : String} {t : List (Moment L)} (h : Excused k key t)
    (t' : List (Moment L)) : Excused k key (t ++ t') := by
  rcases h with h | ⟨m, hm, hstopped⟩
  · exact .inl (h.append t')
  · exact .inr ⟨m, List.mem_append_left t' hm, hstopped⟩

theorem Excused.mono {k : WorkerId} {key : String} {t t' : List (Moment L)} (h : Excused k key t)
    (ht' : t <+: t') : Excused k key t' := by
  obtain ⟨later, rfl⟩ := ht'
  exact h.append later

/-- A load at this stage has an entry in the cache that was not there when it began. -/
def Stage.Holds (mode : CacheMode) (stage : Stage L) : Prop :=
  stage.module?.isSome ∧ mode = .release ∨ (∃ env, stage = .settled (.done (.ok env))) ∨
    ∃ payload, stage = .settled (.panic payload)

theorem Stage.Holds.ne_arriving {mode : CacheMode} {stage : Stage L} (h : stage.Holds mode) :
    stage ≠ .arriving := by
  rintro rfl
  rcases h with ⟨h, -⟩ | ⟨env, h⟩ | ⟨payload, h⟩ <;> cases h

theorem Stage.not_holds_error {mode : CacheMode} {cause : Failure} :
    ¬ (Stage.settled (.done (.error cause)) : Stage L).Holds mode := by
  rintro (⟨h, -⟩ | ⟨env, h⟩ | ⟨payload, h⟩) <;> cases h

def Stage.Before (stage stage' : Stage L) : Prop :=
  (stage.module?.isSome → stage'.module?.isSome ∨ ∃ o, stage' = .settled o) ∧
    ∀ o, stage = .settled o → stage' = .settled o

theorem Stage.Before.refl (stage : Stage L) : stage.Before stage := ⟨.inl, fun _ h => h⟩

/-- A load that fails changes nothing that is stored, or takes its key out of the permanent map. -/
theorem World.get?_refused {w : World L} {k : WorkerId} {u : UnitId} {key : String}
    {parent : Option UnitId} {cause : Failure} (hrow : k < w.workers.size) :
    ((w.closed k u key parent (.error cause)).worker k).cache.get? key = (w.worker k).cache.get? key ∨
      (w.worker k).cache.mode = .release ∧
        ((w.closed k u key parent (.error cause)).worker k).cache.get? key = none := by
  have hget : ((w.closed k u key parent (.error cause)).worker k).cache.get? key =
      if (w.worker k).cache.mode = .release ∧ key = key then none else (w.worker k).cache.get? key := by
    unfold World.closed
    rw [cache_recorded, cache_modifyWorker hrow, if_pos rfl]
    exact ModuleCache.get?_uncheck ..
  rw [hget]
  split
  · next h => exact .inr ⟨h.1, rfl⟩
  · exact .inl rfl

namespace Config

variable {crew : WorkerId → Prop} {thread : ThreadId} {aside : World L → World L → Prop}
  {c c' : Config L} {j : WorkerId} {v : UnitId} {key : String} {stage : Stage L}
  {t : List (Activity L)}

/-! ## Loads in the stack, step by step -/

theorem Step.goes_on (h : Step crew thread aside c c') (hmem : .load j v key stage :: t <:+ c.stack) :
    (∃ stage', .load j v key stage' :: t <:+ c'.stack ∧ stage.Before stage') ∨
    ∃ o x, stage = .settled o ∧ c'.stack = t ∧
      c'.history = c.history ++ [⟨Activity.frames t, .left (.load j v key) o, x⟩] := by
  have hstays : .load j v key stage :: t <:+ c'.stack → ∃ stage',
      .load j v key stage' :: t <:+ c'.stack ∧ stage.Before stage' :=
    fun hmem => ⟨stage, hmem, .refl stage⟩
  cases h
  case aside => exact .inl (hstays hmem)
  case arrive | compile | arriveInvoke | call => exact .inl (hstays (hmem.trans (List.suffix_cons ..)))
  case execute =>
    rcases List.suffix_cons_iff.1 hmem with heq | hmem
    · cases heq
      exact .inl ⟨_, List.suffix_cons .., fun _ => .inl rfl, fun _ h => nomatch h⟩
    · exact .inl (hstays ((hmem.trans (List.suffix_cons ..)).trans (List.suffix_cons ..)))
  case leave =>
    rcases List.suffix_cons_iff.1 hmem with heq | hmem
    · cases heq
      exact .inr ⟨_, _, rfl, rfl, rfl⟩
    · exact .inl (hstays hmem)
  case leaveInvoke | comeBack =>
    rcases List.suffix_cons_iff.1 hmem with heq | hmem
    · cases heq
    · exact .inl (hstays hmem)
  case enterInvoke | settleInvoke =>
    rcases List.suffix_cons_iff.1 hmem with heq | hmem
    · cases heq
    · exact .inl (hstays (hmem.trans (List.suffix_cons ..)))
  all_goals
    rcases List.suffix_cons_iff.1 hmem with heq | hmem
    · cases heq
      refine .inl ⟨_, List.suffix_rfl, ?_⟩
      grind [Stage.Before, Stage.module?, Stage.isInside, Stage.isReading]
    · exact .inl (hstays (hmem.trans (List.suffix_cons ..)))

theorem Step.stems (h : Step crew thread aside c c') (hmem : .load j v key stage :: t <:+ c'.stack) :
    (∃ stage', .load j v key stage' :: t <:+ c.stack ∧
      (stage.isInside → stage'.isInside ∨ c'.history = c.history ∧
        c.stack = .load j v key .arriving :: t ∧ (c.world.worker j).finds? key = none)) ∨
    stage = .arriving ∧ c.stack = t ∧ c'.world = c.world ∧
      c'.history = c.history ++ [⟨Activity.frames t, .entered (.load j v key), c.world⟩] := by
  have hstays : .load j v key stage :: t <:+ c.stack → ∃ stage', .load j v key stage' :: t <:+ c.stack ∧
      (stage.isInside → stage'.isInside ∨ c'.history = c.history ∧
        c.stack = .load j v key .arriving :: t ∧ (c.world.worker j).finds? key = none) :=
    fun hmem => ⟨stage, hmem, .inl⟩
  cases h
  case aside => exact .inl (hstays hmem)
  case arrive =>
    rcases List.suffix_cons_iff.1 hmem with heq | hmem
    · cases heq
      exact .inr ⟨rfl, rfl, rfl, rfl⟩
    · exact .inl (hstays hmem)
  case compile | arriveInvoke | call =>
    rcases List.suffix_cons_iff.1 hmem with heq | hmem
    · cases heq
    · exact .inl (hstays hmem)
  case execute =>
    rcases List.suffix_cons_iff.1 hmem with heq | hmem
    · cases heq
    · rcases List.suffix_cons_iff.1 hmem with heq | hmem
      · cases heq
        exact .inl ⟨_, List.suffix_rfl, fun _ => .inl rfl⟩
      · exact .inl (hstays (hmem.trans (List.suffix_cons ..)))
  case miss hnone =>
    rcases List.suffix_cons_iff.1 hmem with heq | hmem
    · cases heq
      exact .inl ⟨_, List.suffix_rfl, fun _ => .inr ⟨rfl, rfl, hnone⟩⟩
    · exact .inl (hstays (hmem.trans (List.suffix_cons ..)))
  case leave | leaveInvoke | comeBack => exact .inl (hstays (hmem.trans (List.suffix_cons ..)))
  all_goals
    rcases List.suffix_cons_iff.1 hmem with heq | hmem
    · cases heq <;> exact .inl ⟨_, List.suffix_rfl, fun h => by first | exact .inl rfl | cases h⟩
    · exact .inl (hstays (hmem.trans (List.suffix_cons ..)))

theorem Step.beneath {m : Moment L} (h : Step crew thread aside c c')
    (hadded : c'.history = c.history ++ [m]) (hmem : .load j v key stage :: t <:+ c'.stack)
    (hstage : stage ≠ .arriving) : .load j v key :: Activity.frames t <:+ m.frames := by
  have hbelow : ∀ {s : List (Activity L)}, .load j v key stage :: t <:+ s →
      .load j v key :: Activity.frames t <:+ Activity.frames s := fun hs => hs.map Activity.frame
  cases h <;> simp at hadded <;> subst hadded
  case leave | leaveInvoke | comeBack => exact hbelow hmem
  case arrive =>
    rcases List.suffix_cons_iff.1 hmem with heq | hmem
    · cases heq
      exact (hstage rfl).elim
    · exact hbelow hmem
  all_goals
    rcases List.suffix_cons_iff.1 hmem with heq | hmem
    · cases heq
    · exact hbelow hmem

/-- The stored module of a key changes only by a load of the key: when this takes a module for its own,
and when it settles. -/
theorem Step.stored (haside : ∀ w w', aside w w' → w.Beside w') (h : Step crew thread aside c c')
    (hseat : c.Seated crew thread) :
    (c'.world.worker j).cache.get? key = (c.world.worker j).cache.get? key ∨
    ∃ v stage stage' t, c.stack = .load j v key stage :: t ∧ c'.stack = .load j v key stage' :: t ∧
      c'.history = c.history ∧ stage.isInside ∧
      ((∃ env, stage' = .settled (.done (.ok env))) ∨
        (c.world.worker j).cache.mode = .release ∧
          (stage'.module?.isSome ∨ (c'.world.worker j).cache.get? key = none)) := by
  by_cases hinner : ∀ u stage s, c.stack = .load j u key stage :: s → ¬ stage.isRenewing
  · exact .inl (h.get?_beneath haside hseat hinner)
  simp only [Classical.not_forall, Classical.not_not] at hinner
  obtain ⟨v, stage, t, hstack, hrenewing⟩ := hinner
  have hrow : j < c.world.workers.size :=
    (hseat.workers j (hseat.crew_of_mem (hstack ▸ List.mem_cons_self))).row
  have hinside := Stage.isInside_of_isRenewing hrenewing
  obtain ⟨stack, H, w⟩ := c
  obtain rfl : stack = _ := hstack
  cases h
  case aside h => exact .inl (by rw [(haside _ _ h).cache])
  case arrive hk hload hholds => exact hload.elim
  case hit | miss | reuse | distrust | leave => cases hrenewing
  case arriveInvoke hk hcall => exact hcall.elim
  case refuse | fail =>
    exact (World.get?_refused hrow).imp id fun h =>
      ⟨v, _, _, t, rfl, rfl, rfl, hinside, .inr ⟨h.1, .inr h.2⟩⟩
  case fill resource code time hscript hcompiled =>
    by_cases hmode : (w.worker j).cache.mode = .release
    · exact .inr ⟨v, _, _, t, rfl, rfl, rfl, rfl, .inr ⟨hmode, .inl rfl⟩⟩
    · have hrow' : j < (w.addModule v resource).2.workers.size := hrow
      left
      rw [cache_modifyWorker hrow', if_pos rfl]
      exact (ModuleCache.get?_mark ..).trans (if_neg fun h => hmode h.1)
  case finish env code time value hreturned =>
    exact .inr ⟨v, _, _, t, rfl, rfl, rfl, rfl, .inl ⟨env, rfl⟩⟩
  case crash =>
    left
    rw [cache_modifyWorker hrow, if_pos rfl]
    rfl
  all_goals exact .inl rfl

theorem Nested.head (hn : c.Nested) (hmem : .load j v key stage :: t <:+ c.stack)
    (hstage : stage.isInside = false) : c.stack = .load j v key stage :: t := by
  obtain ⟨stack, H, w⟩ := c
  cases stack with
  | nil => simp at hmem
  | cons a rest =>
    rcases List.suffix_cons_iff.1 hmem with heq | hmem
    · exact heq.symm
    · have hinside := Activity.inside_of_fits hn.shaped (hmem.subset List.mem_cons_self)
      rw [hinside] at hstage
      cases hstage

theorem Nested.not_below (hn : c.Nested) (hstage : stage.isInside = false) {a : Activity L} :
    c.stack ≠ a :: .load j v key stage :: t := by
  intro hstack
  have hhead := hn.head (hstack ▸ List.suffix_cons ..) hstage
  rw [hstack] at hhead
  exact absurd (congrArg List.length hhead) (by simp)

theorem Step.arriving (haside : ∀ w w', aside w w' → w.Beside w') (h : Step crew thread aside c c')
    (hn : c.Nested) (hstack : c'.stack = .load j v key .arriving :: t) :
    (c.stack = c'.stack ∧ c'.history = c.history ∧
      (c'.world.worker j).finds? key = (c.world.worker j).finds? key) ∨
    c.stack = t ∧ c'.world = c.world ∧
      c'.history = c.history ++ [⟨Activity.frames t, .entered (.load j v key), c.world⟩] := by
  cases h
  case aside haside' =>
    have hbeside := haside _ _ haside'
    refine .inl ⟨rfl, rfl, ?_⟩
    unfold Worker.finds?
    rw [hbeside.cache, hbeside.serializer, hbeside.config]
  case arrive =>
    cases hstack
    exact .inr ⟨rfl, rfl, rfl⟩
  case leave | leaveInvoke | comeBack => exact (hn.not_below rfl (congrArg _ hstack)).elim
  all_goals cases hstack

/-- Wherever a load has failed and not left, its key is not checked. -/
def Refused (c : Config L) : Prop :=
  ∀ j v key cause t, c.stack = .load j v key (.settled (.done (.error cause))) :: t →
    (c.world.worker j).cache.peek key = none

theorem Step.refused (haside : ∀ w w', aside w w' → w.Beside w') (h : Step crew thread aside c c')
    (hseat : c.Seated crew thread) (hn : c.Nested) (hrefused : c.Refused) : c'.Refused := by
  intro j v key cause t hstack
  have hclosed : ∀ {w : World L} {parent}, j < w.workers.size →
      ((w.closed j v key parent (.error cause)).worker j).cache.peek key = none := by
    intro w parent hrow
    unfold World.closed
    rw [cache_recorded, cache_modifyWorker hrow, if_pos rfl]
    exact (ModuleCache.peek_uncheck ..).trans (if_pos rfl)
  cases h
  case aside haside' =>
    rw [(haside _ _ haside').cache]
    exact hrefused j v key cause t hstack
  case refuse | fail =>
    cases hstack
    exact hclosed (hseat.workers j (hseat.crew_of_mem List.mem_cons_self)).row
  case leave | leaveInvoke | comeBack => exact (hn.not_below rfl (congrArg _ hstack)).elim
  all_goals cases hstack

/-! ## A key while a load is under way -/

/-- A load, with what was under way when it began, is still under way. -/
def Upon (k : WorkerId) (u : UnitId) (key : String) (s t : List (Activity L)) : Prop :=
  ∃ stage, .load k u key stage :: s <:+ t

/-- A load of a key at or inside another one has an entry in the cache and has not left. -/
def Carried (k : WorkerId) (u : UnitId) (key : String) (s : List (Activity L)) (j : WorkerId)
    (key' : String) (after : List (Moment L)) (c : Config L) : Prop :=
  ∃ v stage t, .load j v key' stage :: t <:+ c.stack ∧ s <:+ t ∧
    stage.Holds (c.world.worker j).cache.mode ∧
    (Upon k u key s t → Missed j v key' (Activity.frames t) after)

/-- What is stored under a key since a load began: what was stored then, unless a load of the key inside
it has come to a module, has panicked, or has an entry and has not left. -/
structure Sparing (k : WorkerId) (u : UnitId) (key : String) (s : List (Activity L))
    (H : List (Moment L)) (x : World L) (j : WorkerId) (key' : String) (after : List (Moment L))
    (c : Config L) : Prop where
  stands : Upon k u key s c.stack
  history : c.history = H ++ after
  arrived : ∀ v t, c.stack = .load j v key' .arriving :: t → Upon k u key s t → ∃ before y,
    after = before ++ [⟨Activity.frames t, .entered (.load j v key'), y⟩] ∧
      (y.worker j).finds? key' = (c.world.worker j).finds? key'
  missed : ∀ v stage t, .load j v key' stage :: t <:+ c.stack → Upon k u key s t → stage.isInside →
    Missed j v key' (Activity.frames t) after
  absent : ∀ v stage t, .load j v key' stage :: t <:+ c.stack → s <:+ t → stage.isInside →
    (c.world.worker j).cache.mode = .release →
    (x.worker j).cache.get? key' = none ∨ Excused j key' after
  entry : (c.world.worker j).cache.get? key' = (x.worker j).cache.get? key' ∨ Excused j key' after ∨
    Carried k u key s j key' after c

section Sparing

variable {k : WorkerId} {u : UnitId} {base key' : String} {s : List (Activity L)}
  {H after after' : List (Moment L)} {x : World L}

theorem Upon.of_stack (h : Upon k u base s c.stack) (hstack : c.stack = .load j v key stage :: t) :
    s <:+ t := by
  obtain ⟨stage', hmem⟩ := h
  rw [hstack] at hmem
  rcases List.suffix_cons_iff.1 hmem with heq | hmem
  · cases heq
    exact List.suffix_rfl
  · exact (List.suffix_cons ..).trans hmem

section Step

variable (hsp : Sparing k u base s H x j key after c) (h : Step crew thread aside c c')
  (hafter : c'.history = c.history ∧ after' = after ∨
    ∃ m, c'.history = c.history ++ [m] ∧ after' = after ++ [m])
include hsp h hafter

omit hsp h in
theorem later_of_step : after <+: after' := by
  rcases hafter with ⟨-, rfl⟩ | ⟨m, -, rfl⟩
  · exact List.prefix_rfl
  · exact List.prefix_append ..

omit hsp h in
theorem added_of_step {m : Moment L} (hadded : c'.history = c.history ++ [m]) :
    after' = after ++ [m] := by
  rcases hafter with ⟨hsame, -⟩ | ⟨m', hadded', rfl⟩
  · rw [hsame] at hadded
    simp at hadded
  · rw [hadded'] at hadded
    rw [List.append_cancel_left hadded]

theorem Sparing.stands_step
    (hinside : ∀ m ∈ after', .load k u base :: Activity.frames s <:+ m.frames) :
    Upon k u base s c'.stack := by
  obtain ⟨stage, hmem⟩ := hsp.stands
  rcases h.goes_on hmem with ⟨stage', hmem', -⟩ | ⟨o, y, -, -, hadded⟩
  · exact ⟨stage', hmem'⟩
  · obtain rfl := added_of_step hafter hadded
    have hlength := (hinside _ (List.mem_append_right after List.mem_cons_self)).length_le
    exact absurd hlength (by simp)

theorem Sparing.arrived_step (haside : ∀ w w', aside w w' → w.Beside w') (hn : c.Nested)
    (hstack : c'.stack = .load j v key .arriving :: t) (hupon : Upon k u base s t) :
    ∃ before y, after' = before ++ [⟨Activity.frames t, .entered (.load j v key), y⟩] ∧
      (y.worker j).finds? key = (c'.world.worker j).finds? key := by
  rcases h.arriving haside hn hstack with ⟨hsame, hhistory, hfinds⟩ | ⟨-, hworld, hadded⟩
  · rcases hafter with ⟨-, rfl⟩ | ⟨m, hadded, -⟩
    · obtain ⟨before, y, hbefore, hy⟩ := hsp.arrived v t (hsame.trans hstack) hupon
      exact ⟨before, y, hbefore, hy.trans hfinds.symm⟩
    · rw [hhistory] at hadded
      simp at hadded
  · exact ⟨after, c.world, added_of_step hafter hadded, by rw [hworld]⟩

theorem Sparing.missed_mono (hmissed : Missed j v key (Activity.frames t) after)
    (hmem : .load j v key stage :: t <:+ c'.stack) (hstage : stage ≠ .arriving) :
    Missed j v key (Activity.frames t) after' := by
  rcases hafter with ⟨-, rfl⟩ | ⟨m, hadded, rfl⟩
  · exact hmissed
  · exact hmissed.snoc (h.beneath hadded hmem hstage)

theorem Sparing.missed_step (hmem : .load j v key stage :: t <:+ c'.stack) (hupon : Upon k u base s t)
    (hstage : stage.isInside) : Missed j v key (Activity.frames t) after' := by
  have hne : stage ≠ .arriving := by
    rintro rfl
    cases hstage
  rcases h.stems hmem with ⟨stage', hmem', hcases⟩ | ⟨rfl, -⟩
  · rcases hcases hstage with hstage' | ⟨hsame, hstack, hnone⟩
    · exact hsp.missed_mono h hafter (hsp.missed v stage' t hmem' hupon hstage') hmem hne
    · obtain ⟨before, y, hbefore, hfinds⟩ := hsp.arrived v t hstack hupon
      refine hsp.missed_mono h hafter ?_ hmem hne
      exact ⟨before, y, [], hbefore, (fun _ hm => nomatch hm), hfinds.trans hnone⟩
  · cases hstage

theorem Sparing.absent_step (haside : ∀ w w', aside w w' → w.Beside w') (hc : c.Sound crew thread)
    (hmem : .load j v key stage :: t <:+ c'.stack) (hst : s <:+ t) (hstage : stage.isInside)
    (hmode : (c'.world.worker j).cache.mode = .release) :
    (x.worker j).cache.get? key = none ∨ Excused j key after' := by
  have hmono : ∀ {P : Prop}, P ∨ Excused j key after → P ∨ Excused j key after' :=
    fun h => h.imp_right fun h => h.mono (later_of_step hafter)
  rcases h.stems hmem with ⟨stage', hmem', hcases⟩ | ⟨rfl, -⟩
  · have hj := hc.seated.crew_of_mem (hmem'.subset List.mem_cons_self)
    rw [h.mode haside hc.seated hj] at hmode
    rcases hcases hstage with hstage' | ⟨-, hstack, hnone⟩
    · exact hmono (hsp.absent v stage' t hmem' hst hstage' hmode)
    · have hget := Worker.get?_of_finds? hmode hnone
      rcases hsp.entry with hsame | hexcused | ⟨w, stage₁, t₁, hmem₁, -, hholds, -⟩
      · exact .inl (hsame.symm.trans hget)
      · exact hmono (.inr hexcused)
      · rcases hholds with ⟨hmodule, -⟩ | hsettled
        · obtain ⟨env, hmodule⟩ := Option.isSome_iff_exists.1 hmodule
          have hpeek := hc.nested.filled j w key stage₁ env (hmem₁.subset List.mem_cons_self) hmodule
          rw [ModuleCache.peek_eq_get? _ _ hmode, hget] at hpeek
          cases hpeek
        · have hhead : stage₁.isInside = false := by
            rcases hsettled with ⟨env, rfl⟩ | ⟨payload, rfl⟩ <;> rfl
          rw [hc.nested.head hmem₁ hhead] at hstack
          cases hstack
          rcases hsettled with ⟨env, heq⟩ | ⟨payload, heq⟩ <;> cases heq
  · cases hstage

theorem Sparing.carries {mode : CacheMode}
    (hmissed : Upon k u base s t → Missed j v key (Activity.frames t) after)
    (hmem : .load j v key stage :: t <:+ c'.stack) (hst : s <:+ t) (hholds : stage.Holds mode)
    (hmode : (c'.world.worker j).cache.mode = mode) : Carried k u base s j key after' c' :=
  ⟨v, stage, t, hmem, hst, hmode ▸ hholds, fun hupon =>
    hsp.missed_mono h hafter (hmissed hupon) hmem hholds.ne_arriving⟩

/-- The load that made an entry goes on and keeps it, or takes it back, or leaves. -/
theorem Sparing.carried_step (haside : ∀ w w', aside w w' → w.Beside w') (hc : c.Sound crew thread)
    (hrefused : c'.Refused)
    (hinside : ∀ m ∈ after', .load k u base :: Activity.frames s <:+ m.frames)
    (hcarried : Carried k u base s j key after c) :
    (c'.world.worker j).cache.get? key = (x.worker j).cache.get? key ∨ Excused j key after' ∨
      Carried k u base s j key after' c' := by
  obtain ⟨v, stage, t, hmem, hst, hholds, hmissed⟩ := hcarried
  have hmode : (c'.world.worker j).cache.mode = (c.world.worker j).cache.mode :=
    h.mode haside hc.seated (hc.seated.crew_of_mem (hmem.subset List.mem_cons_self))
  rcases h.goes_on hmem with ⟨stage', hmem', hbefore⟩ | ⟨o, y, rfl, rfl, hadded⟩
  · have hkeep : stage'.Holds (c.world.worker j).cache.mode → Carried k u base s j key after' c' :=
      fun hholds' => hsp.carries h hafter hmissed hmem' hst hholds' hmode
    rcases hholds with ⟨hmodule, hrelease⟩ | hsettled
    · rcases hbefore.1 hmodule with hmodule' | ⟨o, rfl⟩
      · exact .inr (.inr (hkeep (.inl ⟨hmodule', hrelease⟩)))
      · match o with
        | .done (.ok env) => exact .inr (.inr (hkeep (.inr (.inl ⟨env, rfl⟩))))
        | .panic payload => exact .inr (.inr (hkeep (.inr (.inr ⟨payload, rfl⟩))))
        | .done (.error cause) =>
          have hn' := h.nested haside hc.seated hc.nested
          have hpeek := hrefused j v key cause t (hn'.head hmem' rfl)
          rw [ModuleCache.peek_eq_get? _ _ (hmode.trans hrelease)] at hpeek
          obtain ⟨env, hmodule⟩ := Option.isSome_iff_exists.1 hmodule
          have hstage := Stage.isInside_of_module? hmodule
          rcases hsp.absent v stage t hmem hst hstage hrelease with hnone | hexcused
          · exact .inl (hpeek.trans hnone.symm)
          · exact .inr (.inl (hexcused.mono (later_of_step hafter)))
    · have hsame : stage' = stage := by
        rcases hsettled with ⟨env, rfl⟩ | ⟨payload, rfl⟩ <;> exact hbefore.2 _ rfl
      exact .inr (.inr (hkeep (.inr (hsame ▸ hsettled))))
  · obtain rfl := added_of_step hafter hadded
    rcases hholds with ⟨hmodule, -⟩ | ⟨env, heq⟩ | ⟨payload, heq⟩
    · cases hmodule
    · cases heq
      have hupon := hsp.stands_step h hafter hinside
      exact .inr (.inl (.inl ⟨after, _, v, env, y, [], rfl, hmissed hupon⟩))
    · cases heq
      exact .inr (.inl (.inr ⟨_, List.mem_append_right after List.mem_cons_self, v, payload, rfl⟩))

theorem Sparing.entry_step (haside : ∀ w w', aside w w' → w.Beside w') (hc : c.Sound crew thread)
    (hrefused : c'.Refused)
    (hinside : ∀ m ∈ after', .load k u base :: Activity.frames s <:+ m.frames) :
    (c'.world.worker j).cache.get? key = (x.worker j).cache.get? key ∨ Excused j key after' ∨
      Carried k u base s j key after' c' := by
  have hmono : Excused j key after → Excused j key after' := fun h => h.mono (later_of_step hafter)
  rcases h.stored haside hc.seated with hsame | ⟨v, stage, stage', t, hstack, hstack', -, hstage, hcases⟩
  · rcases hsp.entry with hentry | hexcused | hcarried
    · exact .inl (hsame.trans hentry)
    · exact .inr (.inl (hmono hexcused))
    · exact hsp.carried_step h hafter haside hc hrefused hinside hcarried
  · have hmem : .load j v key stage :: t <:+ c.stack := hstack ▸ List.suffix_rfl
    have hmem' : .load j v key stage' :: t <:+ c'.stack := hstack' ▸ List.suffix_rfl
    have hst := hsp.stands.of_stack hstack
    have hmode : (c'.world.worker j).cache.mode = (c.world.worker j).cache.mode :=
      h.mode haside hc.seated (hc.seated.crew_of_mem (hmem.subset List.mem_cons_self))
    have hmissed : Upon k u base s t → Missed j v key (Activity.frames t) after := fun hupon =>
      hsp.missed v stage t hmem hupon hstage
    rcases hcases with ⟨env, rfl⟩ | ⟨hrelease, hmodule | hnone⟩
    · exact .inr (.inr (hsp.carries h hafter hmissed hmem' hst (.inr (.inl ⟨env, rfl⟩)) hmode))
    · exact .inr (.inr (hsp.carries h hafter hmissed hmem' hst (.inl ⟨hmodule, hrelease⟩) hmode))
    · rcases hsp.absent v stage t hmem hst hstage hrelease with hbefore | hexcused
      · exact .inl (hnone.trans hbefore.symm)
      · exact .inr (.inl (hmono hexcused))

theorem Sparing.step (haside : ∀ w w', aside w w' → w.Beside w') (hc : c.Sound crew thread)
    (hrefused : c'.Refused)
    (hinside : ∀ m ∈ after', .load k u base :: Activity.frames s <:+ m.frames) :
    Sparing k u base s H x j key after' c' where
  stands := hsp.stands_step h hafter hinside
  history := by
    rcases hafter with ⟨hsame, rfl⟩ | ⟨m, hadded, rfl⟩
    · rw [hsame, hsp.history]
    · rw [hadded, hsp.history, List.append_assoc]
  arrived _ _ hstack hupon := hsp.arrived_step h hafter haside hc.nested hstack hupon
  missed _ _ _ hmem hupon hstage := hsp.missed_step h hafter hmem hupon hstage
  absent _ _ _ hmem hst hstage hmode := hsp.absent_step h hafter haside hc hmem hst hstage hmode
  entry := hsp.entry_step h hafter haside hc hrefused hinside

end Step

theorem sparing_start (v : WorkerId) (key' : String) :
    Sparing k u base s H x v key' [] ⟨.load k u base .arriving :: s, H, x⟩ where
  stands := ⟨_, List.suffix_rfl⟩
  history := (List.append_nil H).symm
  arrived w t hstack hupon := by
    cases hstack
    obtain ⟨stage, hmem⟩ := hupon
    exact absurd hmem.length_le (by simp)
  missed w stage t hmem hupon hstage := by
    rcases List.suffix_cons_iff.1 hmem with heq | hmem
    · cases heq
      cases hstage
    · obtain ⟨stage', hmem'⟩ := hupon
      have hlength := (hmem'.trans ((List.suffix_cons ..).trans hmem)).length_le
      exact absurd hlength (by simp)
  absent w stage t hmem hst hstage := by
    rcases List.suffix_cons_iff.1 hmem with heq | hmem
    · cases heq
      cases hstage
    · exact absurd (Nat.le_trans hmem.length_le hst.length_le) (by simp)
  entry := .inl rfl

theorem Path.refused (haside : ∀ w w', aside w w' → w.Beside w') (h : Path crew thread aside c c')
    (hc : c.Sound crew thread) (hrefused : c.Refused) : c'.Refused := by
  induction h with
  | refl => exact hrefused
  | tail hpath hstep ih =>
    have hb := Path.sound haside hpath hc
    exact hstep.refused haside hb.seated hb.nested ih

theorem Path.sparing (haside : ∀ w w', aside w w' → w.Beside w')
    (h : Path crew thread aside ⟨.load k u base .arriving :: s, H, x⟩ c)
    (hc : Sound crew thread ⟨.load k u base .arriving :: s, H, x⟩)
    (hhistory : c.history = H ++ after)
    (hinside : ∀ m ∈ after, .load k u base :: Activity.frames s <:+ m.frames) :
    Sparing k u base s H x j key after c := by
  induction h generalizing after with
  | refl =>
    obtain rfl : after = [] := by simpa using hhistory
    exact sparing_start j key
  | @tail b c hpath hstep ih =>
    obtain ⟨before, hbefore⟩ := Path.history hpath
    have hb := Path.sound haside hpath hc
    have hrefused : Refused ⟨.load k u base .arriving :: s, H, x⟩ := by
      intro i v key cause t hstack
      cases hstack
    have hrefused' := Path.refused haside (hpath.tail hstep) hc hrefused
    have hstep' : c.history = b.history ∧ after = before ∨
        ∃ m, c.history = b.history ++ [m] ∧ after = before ++ [m] := by
      rcases hstep.history with hsame | ⟨m, hadded⟩
      · have hboth : H ++ after = H ++ before := hhistory.symm.trans (hsame.trans hbefore)
        exact .inl ⟨hsame, List.append_cancel_left hboth⟩
      · have hboth : H ++ after = H ++ (before ++ [m]) := by
          rw [← hhistory, hadded, hbefore, List.append_assoc]
        exact .inr ⟨m, hadded, List.append_cancel_left hboth⟩
    refine (ih hbefore fun m hm => hinside m ?_).step hstep hstep' haside hb hrefused' hinside
    exact (later_of_step hstep').subset hm

end Sparing

end Config

namespace Setting

variable {S : Setting L} {crew : WorkerId → Prop} {names : String → Prop} {thread : ThreadId}
  {aside : World L → World L → Prop} {w w' : World L} {t : List (Moment L)} {depth : Nat}
  {request : Request L} {o : Outcome request.Reply} {k : WorkerId}

/-- How the loads of a run that come to an error leave the caches: the key of each is not checked, and
what is stored under a key is as it was unless something inside the load excuses it. -/
def SparesCaches (excused : WorkerId → String → List (Moment L) → Prop) (t : List (Moment L)) : Prop :=
  ∀ earlier frames k u key cause y later,
    t = earlier ++ ⟨frames, .left (.load k u key) (.done (.error cause)), y⟩ :: later →
    ∃ before x inner, earlier = before ++ ⟨frames, .entered (.load k u key), x⟩ :: inner ∧
      (∀ m ∈ inner, .load k u key :: frames <:+ m.frames) ∧
      (y.worker k).cache.peek key = none ∧
      ∀ j key', (y.worker j).cache.get? key' = (x.worker j).cache.get? key' ∨ excused j key' inner

theorem sparesCaches_operation (hS : S.Suits crew names thread aside) (hw : w.Rests crew)
    (hrequest : request.CallsOn crew names)
    (h : S.answers thread (S.calls thread depth) [] request w o w' t) :
    SparesCaches (fun j key inner => Renewed j key inner ∨
      Stopped j key inner ∧ ¬ S.interpreter.PassesPanics) t := by
  intro earlier frames k u key cause y later ht
  have hcalm : (S.answers thread (S.calls thread depth) [] request).Calm S.interpreter.PassesPanics :=
    calm_answers (calm_calls depth) (inside_calls depth) [] request
  obtain ⟨before, x, inner, rfl, hinner, hquiet⟩ :=
    hcalm.bracketed _ _ _ _ h earlier frames _ _ y later ht
  -- the load begins at `c₂` and has settled at `c₃`
  have hpath := path_operation hS hw hrequest h
  have hentered : t = before ++ ⟨frames, .entered (.load k u key), x⟩ ::
      (inner ++ ⟨frames, .left (.load k u key) (.done (.error cause)), y⟩ :: later) := by
    rw [ht, List.append_assoc, List.cons_append]
  rcases Config.Path.split hpath hentered with hlt | ⟨c₁, c₂, h₁, hstep₁, rfl, hadded₁, h₂⟩
  · cases hlt
  obtain ⟨hstack₂, hworld₂, rfl, rfl⟩ := hstep₁.of_entered_load hadded₁
  have hc₁ := Config.Path.sound hS.beside h₁ hw.sound
  have hc₂ := hstep₁.sound hS.beside hc₁
  obtain ⟨stack₂, H₂, world₂⟩ := c₂
  obtain rfl : stack₂ = _ := hstack₂
  obtain rfl : H₂ = _ := hadded₁
  obtain rfl : world₂ = _ := hworld₂
  rcases Config.Path.split h₂ ht with hlt | ⟨c₃, c₄, h₃, hstep₃, hhistory₃, hadded₃, -⟩
  · simp at hlt
  obtain ⟨hstack₃, -, hframes, rfl⟩ := hstep₃.of_left_load (hhistory₃ ▸ hadded₃)
  have hhistory₃ : c₃.history = c₁.history ++
      [⟨Activity.frames c₁.stack, .entered (.load k u key), c₁.world⟩] ++ inner := by
    rw [hhistory₃, List.append_assoc, List.singleton_append]
  have hrefused : Config.Refused ⟨.load k u key .arriving :: c₁.stack, c₁.history ++
      [⟨Activity.frames c₁.stack, .entered (.load k u key), c₁.world⟩], c₁.world⟩ := by
    intro i v key' cause s hstack
    cases hstack
  have hpeek := Config.Path.refused hS.beside h₃ hc₂ hrefused k u key cause c₄.stack hstack₃
  refine ⟨c₁.history, c₁.world, inner, rfl, hinner, hpeek, fun j key' => ?_⟩
  have hsparing : Config.Sparing k u key c₁.stack _ c₁.world j key' inner c₃ :=
    Config.Path.sparing hS.beside h₃ hc₂ hhistory₃ hinner
  rcases hsparing.entry with hsame | (hrenewed | hstopped) | hcarried
  · exact .inl hsame
  · exact .inr (.inl hrenewed)
  · refine .inr (.inr ⟨hstopped, fun hpassing => ?_⟩)
    obtain ⟨m, hm, v, payload, hevent⟩ := hstopped
    exact hquiet hpassing ⟨_, rfl⟩ m hm ⟨_, payload, hevent⟩
  · -- nothing that began since can be under way any more
    obtain ⟨v, stage, s, hmem, hsuffix, hholds, -⟩ := hcarried
    have hlength : c₁.stack.length = c₄.stack.length := by
      simpa [Activity.frames] using congrArg List.length hframes
    rw [hstack₃] at hmem
    rcases List.suffix_cons_iff.1 hmem with heq | hmem
    · cases heq
      exact (Stage.not_holds_error hholds).elim
    · have hshort := Nat.le_trans hmem.length_le (Nat.le_of_eq hlength.symm)
      exact absurd (Nat.le_trans hshort hsuffix.length_le) (by simp)

/-- A call that is to load a module by name and comes to an error has found no unit and done nothing to
a cache, or it shows the load of the unit that it has found. -/
def FindsOrShows (S : Setting L) : Prop :=
  ∀ thread depth frames k caller name v cause v' t, v.Scripted k →
    S.loads thread (S.calls thread depth) frames k caller name v (.done (.error cause)) v' t →
    (t = [] ∧ ∀ j, (v'.worker j).cache = (v.worker j).cache) ∨
      ∃ u key x inner, t = ⟨frames, .entered (.load k u key), x⟩ :: inner ++
          [⟨frames, .left (.load k u key) (.done (.error cause)), v'⟩] ∧
        ∀ j, (x.worker j).cache = (v.worker j).cache

theorem findsOrShows (S : Setting L) : S.FindsOrShows := by
  intro thread depth frames k caller name v cause v' t hscripted h
  rcases loads_cases hscripted h with ⟨cause, hlocate, -⟩ | ⟨u, key, x, inner, hlocate, -, -, rfl⟩
  · exact .inl ⟨(locate_cases hscripted hlocate).1, (beside_located hscripted hlocate).cache⟩
  · exact .inr ⟨u, key, x, inner, rfl, (beside_located hscripted hlocate).cache⟩

/-- A call that fails to load a module leaves the caches as they were, whatever it has loaded on the way,
apart from the modules that loads inside it have come to. -/
structure FailuresSpare (S : Setting L) (operations : List (List (Moment L))) : Prop where
  called : S.FindsOrShows
  /-- Only a load inside it that was not answered from the checked view and came to a module may have
  changed what is stored under its own key. -/
  failed : S.interpreter.PassesPanics → ∀ t ∈ operations, SparesCaches Renewed t
  /-- Where running code stops panics, so may a load that panicked. -/
  stopped : ∀ t ∈ operations, SparesCaches Excused t

theorem SparesCaches.mono {excused excused' : WorkerId → String → List (Moment L) → Prop}
    (h : SparesCaches excused t) (hexcused : ∀ j key inner, excused j key inner → excused' j key inner) :
    SparesCaches excused' t := by
  intro earlier frames k u key cause y later ht
  obtain ⟨before, x, inner, hearlier, hinner, hpeek, hentries⟩ :=
    h earlier frames k u key cause y later ht
  exact ⟨before, x, inner, hearlier, hinner, hpeek,
    fun j key' => (hentries j key').imp_right (hexcused j key' inner)⟩

theorem Operates.sparesCaches {start : World L} {operations : List (List (Moment L))}
    (hS : S.interpreter.Scripting crew names Request.LeavesWorkers) (hstart : start.Rests crew)
    (h : S.Operates World.Beside (Request.CallsOn crew names) start operations w) :
    ∀ t ∈ operations, SparesCaches (fun j key inner => Renewed j key inner ∨
      Stopped j key inner ∧ ¬ S.interpreter.PassesPanics) t := by
  intro t ht
  obtain ⟨before, after, rfl⟩ := List.append_of_mem ht
  obtain ⟨v, v', thread, depth, request, o, hbefore, hasks, hrun, -⟩ := h.split
  have hrests := hbefore.rests (fun _ => suits_beside hS) (fun _ _ h => h) hstart
  exact sparesCaches_operation (suits_beside hS) hrests hasks hrun

/-- Whatever operations and edits there are, a load that fails leaves every cache as it was, but for what
loads inside it have come to. -/
theorem Serves.failures_spare {start : World L}
    (hS : S.interpreter.Scripting crew names Request.LeavesWorkers) (hstart : start.Rests crew)
    (h : S.Serves World.Beside (Request.CallsOn crew names) start w) :
    S.Shows World.Beside (Request.CallsOn crew names) start w S.FailuresSpare := by
  refine h.shows fun operations hshown => ⟨findsOrShows S, fun hpassing t ht => ?_, fun t ht => ?_⟩
  · exact (hshown.sparesCaches hS hstart t ht).mono fun _ _ _ =>
      Or.rec id fun hstopped => (hstopped.2 hpassing).elim
  · exact (hshown.sparesCaches hS hstart t ht).mono fun _ _ _ => Or.imp_right And.left

end Setting

namespace Importing

def importBoth (source : String) : List (Line String) :=
  if source = "m" then [.imports "n.yx", .tries "f.yx", .fails]
  else if source = "f" then [.fails]
  else []

theorem passes_importing {N : Type} {k : WorkerId} {env : EnvironmentId} {name : String}
    {next : Answer EnvironmentId → Code (language N) (Answer Value)}
    (hnext : ∀ answer, (next answer).Passes) : (importing k env name next).Passes := by
  refine (Code.passes_request _).bind fun answer => ?_
  cases answer with
  | ok found => exact (Code.passes_request _).bind fun _ => hnext _
  | error cause => exact hnext _

theorem passes_body {N : Type} (named : N → String) (k : WorkerId) (env : EnvironmentId)
    (lines : List (Line N)) : (body named k env lines).Passes := by
  induction lines with
  | nil => trivial
  | cons line rest ih =>
    cases line with
    | imports name =>
      refine passes_importing fun answer => ?_
      cases answer with
      | ok found => exact ih
      | error cause => trivial
    | tries name => exact passes_importing fun _ => ih
    | fails => trivial
    | panics => trivial

theorem passesPanics {N : Type} (named : N → String) (compile : String → List (Line N)) :
    (interpreter named compile).PassesPanics := by
  intro callee
  match callee with
  | .compile .. => trivial
  | .execute lines k env => exact passes_body named k env lines

def failuresShown (played : List (List (Moment (language String))) × World (language String)) : Bool :=
  match played.1 with
  | [t] => t.any (Moment.fails 0 "memory:app/m.yx") && t.any (Moment.fails 0 "memory:app/f.yx") &&
      (played.2.worker 0).cache.get? "memory:app/m.yx" = none &&
      (played.2.worker 0).cache.get? "memory:app/n.yx" = some 2 &&
      (played.2.worker 0).cache.get? "memory:app/f.yx" = none
  | _ => false

/-- Two loads fail, one inside the other, and the good module stays. -/
theorem failed_imports_spared : ∃ t w,
    (setting id importBoth).Operates World.Beside (Request.CallsOn (· = 0) fun _ => True)
      (world String false [("m.yx", ⟨#[109]⟩), ("n.yx", ByteArray.empty), ("f.yx", ⟨#[102]⟩)]) [t] w ∧
    t.any (Moment.fails 0 "memory:app/m.yx") ∧ t.any (Moment.fails 0 "memory:app/f.yx") ∧
    (w.worker 0).cache.get? "memory:app/m.yx" = none ∧
    (w.worker 0).cache.get? "memory:app/n.yx" = some 2 ∧
    (w.worker 0).cache.get? "memory:app/f.yx" = none ∧
    (setting id importBoth).interpreter.PassesPanics ∧ (setting id importBoth).FailuresSpare [t] := by
  have heval : (((setting id importBoth).playOperations (.caller 0) 3 [.loadModule 0 none "m"]
      (world String false [("m.yx", ⟨#[109]⟩), ("n.yx", ByteArray.empty), ("f.yx", ⟨#[102]⟩)])).any
      failuresShown) = true := by decide +kernel
  obtain ⟨⟨operations, w⟩, hplay, hshown⟩ := (Option.any_eq_true _ _).1 heval
  dsimp only [failuresShown] at hshown
  split at hshown
  case h_2 => cases hshown
  case h_1 t =>
  simp only [Bool.and_eq_true, decide_eq_true_eq] at hshown
  obtain ⟨⟨⟨⟨hm, hf⟩, hnone⟩, hgood⟩, hbad⟩ := hshown
  have hasks : ∀ request ∈ [(Request.loadModule 0 none "m" : Request (language String))],
      request.CallsOn (· = 0) fun _ => True := by
    intro request hrequest
    rw [List.mem_singleton.1 hrequest]
    exact ⟨rfl, trivial⟩
  have hruns : (setting id importBoth).Operates World.Beside (Request.CallsOn (· = 0) fun _ => True)
      (world String false [("m.yx", ⟨#[109]⟩), ("n.yx", ByteArray.empty), ("f.yx", ⟨#[102]⟩)]) [t] w :=
    Setting.operates_of_play hasks hplay
  have hspares := Setting.Serves.failures_spare
    ((scripting id _ _ fun _ => trivial).mono fun _ h => h.leavesModules.leavesWorkers)
    (rests_world false _) hruns.serves
  exact ⟨t, w, hruns, hm, hf, hnone, hgood, hbad, passesPanics id importBoth, hspares.2 _ hruns⟩

end Importing

end ScriptWorker
