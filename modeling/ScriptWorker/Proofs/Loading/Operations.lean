import ScriptWorker.Proofs.Evaluation
import ScriptWorker.Proofs.Loading.Modules

/-!
# Operations of the host

The host loads modules and calls functions by name, one operation after another and each on a thread
of its choice. Between two operations whatever leaves the workers alone may happen.
-/

namespace ScriptWorker

open Relation World

variable {L : Language}

namespace Setting

/-- Operations one after another from a world on, as the programs of the library run. -/
inductive Serves (S : Setting L) (between : World L → World L → Prop) (asks : Request L → Prop)
    (start : World L) : World L → Prop
  | start : Serves S between asks start start
  | between {w w'} : Serves S between asks start w → between w w' → Serves S between asks start w'
  | operation {w w' thread depth request o} : Serves S between asks start w → asks request →
    S.Replies thread depth request w o w' → Serves S between asks start w'

/-- What operations show, one after another, from a world on. -/
inductive Operates (S : Setting L) (between : World L → World L → Prop) (asks : Request L → Prop)
    (start : World L) : List (List (Moment L)) → World L → Prop
  | start : Operates S between asks start [] start
  | between {operations w w'} : Operates S between asks start operations w → between w w' →
    Operates S between asks start operations w'
  | operation {operations w w' thread depth request o t} :
    Operates S between asks start operations w → asks request →
    S.answers thread (S.calls thread depth) [] request w o w' t →
    Operates S between asks start (operations ++ [t]) w'

/-- Operations show something, and whatever they show is of a kind. -/
def Shows (S : Setting L) (between : World L → World L → Prop) (asks : Request L → Prop)
    (start w : World L) (P : List (List (Moment L)) → Prop) : Prop :=
  (∃ operations, S.Operates between asks start operations w) ∧
    ∀ operations, S.Operates between asks start operations w → P operations

section Operates

variable {S : Setting L} {between : World L → World L → Prop} {asks : Request L → Prop}
  {start w : World L} {before after : List (List (Moment L))} {t : List (Moment L)}

/-- What operations show is what the programs of the library do. -/
theorem exists_operates_iff : (∃ operations, S.Operates between asks start operations w) ↔
    S.Serves between asks start w := by
  constructor
  · rintro ⟨operations, h⟩
    induction h with
    | start => exact .start
    | between _ hmove ih => exact ih.between hmove
    | operation _ hasks hrun ih => exact ih.operation hasks (exists_answers_iff.1 ⟨_, hrun⟩)
  · intro h
    induction h with
    | start => exact ⟨[], .start⟩
    | between _ hmove ih =>
      obtain ⟨operations, h⟩ := ih
      exact ⟨operations, h.between hmove⟩
    | operation _ hasks hreplies ih =>
      obtain ⟨operations, h⟩ := ih
      obtain ⟨t, hrun⟩ := exists_answers_iff.2 hreplies
      exact ⟨operations ++ [t], h.operation hasks hrun⟩

theorem Operates.serves (h : S.Operates between asks start after w) : S.Serves between asks start w :=
  exists_operates_iff.1 ⟨after, h⟩

theorem Serves.shows {P : List (List (Moment L)) → Prop} (h : S.Serves between asks start w)
    (hP : ∀ operations, S.Operates between asks start operations w → P operations) :
    S.Shows between asks start w P := ⟨exists_operates_iff.2 h, hP⟩

theorem Operates.split (h : S.Operates between asks start (before ++ t :: after) w) :
    ∃ v v' thread depth request o, S.Operates between asks start before v ∧ asks request ∧
      S.answers thread (S.calls thread depth) [] request v o v' t ∧
      S.Operates between asks v' after w := by
  generalize hoperations : before ++ t :: after = operations at h
  induction h generalizing after with
  | start => simp at hoperations
  | between _ hbetween ih =>
    obtain ⟨v, v', thread, depth, request, o, hbefore, hasks, hrun, hafter⟩ := ih hoperations
    exact ⟨v, v', thread, depth, request, o, hbefore, hasks, hrun, hafter.between hbetween⟩
  | @operation operations w₁ w₂ thread depth request o t' hsofar hasks hrun ih =>
    rcases List.eq_nil_or_concat after with rfl | ⟨after, last, rfl⟩
    · obtain ⟨rfl, hlast⟩ := List.append_inj' hoperations rfl
      cases hlast
      exact ⟨w₁, w₂, thread, depth, request, o, hsofar, hasks, hrun, .start⟩
    · have hboth : before ++ t :: after = operations ∧ [last] = [t'] :=
        List.append_inj' (by simpa using hoperations) rfl
      obtain ⟨rfl, hlast⟩ := hboth
      cases hlast
      obtain ⟨v, v', thread', depth', request', o', hbefore, hasks', hrun', hafter⟩ := ih rfl
      have hlater := hafter.operation hasks hrun
      rw [← List.concat_eq_append] at hlater
      exact ⟨v, v', thread', depth', request', o', hbefore, hasks', hrun', hlater⟩

theorem Operates.append {v : World L} (h : S.Operates between asks start before v)
    (h' : S.Operates between asks v after w) : S.Operates between asks start (before ++ after) w := by
  induction h' with
  | start => simpa using h
  | between _ hmove ih => exact ih.between hmove
  | operation _ hasks hrun ih =>
    rw [← List.append_assoc]
    exact ih.operation hasks hrun

/-- What holds at the start, between operations and across each of them holds at the end. -/
theorem Operates.induct {P : World L → Prop} (h : S.Operates between asks start after w)
    (hstart : P start) (hbetween : ∀ w w', P w → between w w' → P w')
    (hoperation : ∀ w w' thread depth request o t, P w → asks request →
      S.answers thread (S.calls thread depth) [] request w o w' t → P w') : P w := by
  induction h with
  | start => exact hstart
  | between _ hmove ih => exact hbetween _ _ ih hmove
  | operation _ hasks hrun ih => exact hoperation _ _ _ _ _ _ _ ih hasks hrun

def playOperations (S : Setting L) (thread : ThreadId) (depth : Nat) :
    List (Request L) → World L → Option (List (List (Moment L)) × World L)
  | [], w => some ([], w)
  | request :: rest, w =>
    match S.playAnswer thread (S.playCall thread depth) [] request w with
    | some (_, w', t) =>
      match playOperations S thread depth rest w' with
      | some (operations, w'') => some (t :: operations, w'')
      | none => none
    | none => none

theorem operates_of_play {thread : ThreadId} {depth : Nat} {requests : List (Request L)}
    (hasks : ∀ request ∈ requests, asks request)
    (h : S.playOperations thread depth requests start = some (after, w)) :
    S.Operates between asks start after w := by
  induction requests generalizing start after with
  | nil =>
    cases h
    exact .start
  | cons request rest ih =>
    unfold playOperations at h
    split at h
    · next o v t hplay =>
      split at h
      · next operations v' hrest =>
        cases h
        have hfirst : S.Operates between asks start [t] v :=
          Operates.operation .start (hasks request List.mem_cons_self) (answers_of_play hplay)
        exact hfirst.append (ih (fun r hr => hasks r (List.mem_cons_of_mem _ hr)) hrest)
      · cases h
    · cases h

end Operates

end Setting

/-- No call is under way on the workers of a crew. -/
structure World.Rests (w : World L) (crew : WorkerId → Prop) : Prop where
  row : ∀ k, crew k → k < w.workers.size
  scripted : ∀ k, crew k → w.Scripted k
  serializer : ∀ k, crew k → (w.worker k).serializer = .create
  mode : ∀ k, crew k → (w.worker k).cache.mode = .ofReloading (w.worker k).config.reloading
  stored : ∀ k key env, crew k → (w.worker k).cache.get? key = some env →
    env < w.environments.size

section Rests

variable {crew : WorkerId → Prop} {thread : ThreadId} {w w' : World L} {T : List (Moment L)}

theorem World.Rests.beside (h : w.Rests crew) (hw : w.Beside w') : w'.Rests crew where
  row k hk := hw.size ▸ h.row k hk
  scripted k hk := hw.scripted (h.scripted k hk)
  serializer k hk := (hw.serializer k).trans (h.serializer k hk)
  mode k hk := by rw [hw.cache, hw.config, h.mode k hk]
  stored k key env hk hget := by
    rw [hw.cache] at hget
    exact Nat.lt_of_lt_of_le (h.stored k key env hk hget) hw.environments

theorem World.Rests.sound (h : w.Rests crew) : Config.Sound crew thread ⟨[], T, w⟩ where
  seated := ⟨fun k hk => ⟨h.row k hk, h.scripted k hk, h.serializer k hk, h.mode k hk⟩,
    fun _ hmem => nomatch hmem⟩
  nested := ⟨trivial, fun _ => .nil, fun _ _ _ _ _ hmem => nomatch hmem⟩
  bounded := by
    rintro k key env hk (hget | ⟨-, hpos⟩ | ⟨_, _, hmem, -⟩)
    · exact h.stored k key env hk hget
    · cases hpos
    · cases hmem
  unfinished := fun _ _ _ _ _ hmem => nomatch hmem

theorem Config.Sound.rests (h : Config.Sound crew thread ⟨[], T, w⟩) : w.Rests crew where
  row k hk := (h.seated.workers k hk).row
  scripted k hk := (h.seated.workers k hk).scripted
  serializer k hk := (h.seated.workers k hk).serializer
  mode k hk := (h.seated.workers k hk).mode
  stored k key env hk hget := h.bounded k key env hk (.inl hget)

end Rests

namespace Setting

variable {S : Setting L} {crew : WorkerId → Prop} {names : String → Prop} {thread : ThreadId}
  {aside : World L → World L → Prop} {w w' : World L} {t : List (Moment L)} {depth : Nat}
  {request : Request L} {o : Outcome request.Reply}

/-- An operation goes along steps from rest to rest. -/
theorem path_operation (hS : S.Suits crew names thread aside) (hw : w.Rests crew)
    (hrequest : request.CallsOn crew names)
    (h : S.answers thread (S.calls thread depth) [] request w o w' t) :
    Config.Path crew thread aside ⟨[], [], w⟩ ⟨[], t, w'⟩ :=
  path_answers (s := []) hS (follows_calls hS depth) hw.sound.seated (.inl ⟨hrequest, trivial⟩) h

theorem rests_operation (hS : S.Suits crew names thread aside) (hw : w.Rests crew)
    (hrequest : request.CallsOn crew names)
    (h : S.answers thread (S.calls thread depth) [] request w o w' t) : w'.Rests crew :=
  ((path_operation hS hw hrequest h).sound hS.beside hw.sound).rests

theorem Operates.rests {between : World L → World L → Prop} {start : World L}
    {operations : List (List (Moment L))} (hS : ∀ thread, S.Suits crew names thread aside)
    (hbetween : ∀ w w', between w w' → w.Beside w') (hstart : start.Rests crew)
    (h : S.Operates between (Request.CallsOn crew names) start operations w) : w.Rests crew :=
  h.induct hstart (fun w w' hw hmove => hw.beside (hbetween w w' hmove))
    fun _ _ thread _ _ _ _ hw hasks hrun => rests_operation (hS thread) hw hasks hrun

end Setting

end ScriptWorker
