import ScriptWorker.Proofs.Reloading.Versions

/-!
# Bodies of the sources that there are

While nobody edits a source, its time and its text stay together: the body that is kept with a time was
compiled from the text that the source had at that time, whichever call compiled it. So a body that fills a
module was compiled from the text that the source had then.
-/

namespace ScriptWorker

open Relation World

variable {L : Language}

/-- Every resource has the same time and the same text in two storages. -/
def Storage.Agrees (s s' : Storage) : Prop :=
  ∀ resource, s'.modified resource = s.modified resource ∧ s'.readText resource = s.readText resource

def Storage.Consistent (past : List Storage) : Prop :=
  ∀ s ∈ past, ∀ s' ∈ past, ∀ resource, s.modified resource = s'.modified resource →
    s.readText resource = s'.readText resource

def Compiles (t : List (Moment L)) (path text : String) (code : L.Body) : Prop :=
  ∃ frames x, ⟨frames, .left (.call (.compile path text)) (.done (.ok code)), x⟩ ∈ t

/-- A body was compiled from the text that the source of a unit has. -/
def FromSource (t : List (Moment L)) (s : Storage) (w : World L) (u : UnitId) (key : String)
    (code : L.Body) (time : UInt64) : Prop :=
  ∃ resource text, w.Script u key resource ∧ s.modified resource = time ∧
    s.readText resource = .ok text ∧ Compiles t resource.path text code

section Storage

variable {s s' s'' : Storage} {past : List Storage}

theorem Storage.Agrees.refl (s : Storage) : s.Agrees s := fun _ => ⟨rfl, rfl⟩

theorem Storage.Agrees.trans (h : s.Agrees s') (h' : s'.Agrees s'') : s.Agrees s'' := fun resource =>
  ⟨(h' resource).1.trans (h resource).1, (h' resource).2.trans (h resource).2⟩

theorem Storage.Consistent.text (h : Consistent past) (hs : ∃ x ∈ past, x.Agrees s)
    (hs' : ∃ x ∈ past, x.Agrees s') {resource : Resource}
    (htime : s.modified resource = s'.modified resource) :
    s.readText resource = s'.readText resource := by
  obtain ⟨x, hx, hagree⟩ := hs
  obtain ⟨x', hx', hagree'⟩ := hs'
  rw [(hagree resource).2, (hagree' resource).2]
  refine h x hx x' hx' resource ?_
  rw [← (hagree resource).1, ← (hagree' resource).1, htime]

/-- A source that is edited gets a time that it never had. -/
theorem Storage.Consistent.cons (h : Consistent past) (hs : s ∈ past)
    (hedit : ∀ resource, s'.modified resource = s.modified resource ∧
        s'.readText resource = s.readText resource ∨
      ∀ x ∈ past, x.modified resource ≠ s'.modified resource) : Consistent (s' :: past) := by
  have hnew : ∀ x ∈ past, ∀ resource, s'.modified resource = x.modified resource →
      s'.readText resource = x.readText resource := by
    intro x hx resource htime
    rcases hedit resource with ⟨hkept, htext⟩ | hnever
    · rw [htext]
      exact h s hs x hx resource (hkept.symm.trans htime)
    · exact (hnever x hx htime.symm).elim
  intro x hx x' hx' resource htime
  rcases List.mem_cons.1 hx with rfl | hold
  · rcases List.mem_cons.1 hx' with rfl | hold'
    · rfl
    · exact hnew x' hold' resource htime
  · rcases List.mem_cons.1 hx' with rfl | hold'
    · exact (hnew x hold resource htime.symm).symm
    · exact h x hold x' hold' resource htime

end Storage

namespace World

structure Calm (w w' : World L) : Prop where
  apart : w.Apart w'
  storage : w.storage.Agrees w'.storage

section Calm

variable {w w' : World L} {u p : UnitId} {key : String} {resource resource' : Resource}
  {code : L.Body} {time : UInt64}

theorem Still.calm (h : w.Still w') : w.Calm w' where
  apart := h.apart
  storage resource := by
    refine ⟨h.apart.modified resource, ?_⟩
    unfold Storage.readText Storage.read Storage.entry?
    rw [h.stores, h.files]

theorem calm_existence (w : World L) (existence : Table (Option Bool)) :
    w.Calm { w with storage := { w.storage with existence := existence } } :=
  (w.still_existence existence).calm

theorem Script.unique (h : w.Script u key resource) (h' : w.Script u key resource') :
    resource = resource' := by
  obtain ⟨unit, c, hunit, hsource, -⟩ := h
  obtain ⟨unit', c', hunit', hsource', -⟩ := h'
  rw [hunit] at hunit'
  cases hunit'
  rw [hsource] at hsource'
  cases hsource'
  rfl

theorem compiled_recorded (w : World L) (parent : Option UnitId) (u p : UnitId) :
    (w.recorded parent u).compiled p = w.compiled p := by
  cases parent with
  | none => rfl
  | some parent =>
    unfold recorded recordDependency compiled
    dsimp only
    rw [Table.get?_modify]
    split
    · cases w.units.get? p with
      | none => rfl
      | some unit =>
        dsimp only [Option.map_some]
        split <;> rfl
    · rfl

theorem of_compiled_setCompiled {c : L.Body × UInt64}
    (h : (w.setCompiled u code time).compiled p = some c) :
    w.compiled p = some c ∨ p = u ∧ c = (code, time) := by
  unfold setCompiled compiled at h
  dsimp only at h
  rw [Table.get?_modify] at h
  split at h
  · next hp =>
    cases hrow : w.units.get? p with
    | none => simp [hrow] at h
    | some unit =>
      cases hsource : unit.source with
      | script resource compiled =>
        simp only [hrow, hsource, Option.map_some, Option.bind_some, Option.some.injEq] at h
        exact .inr ⟨hp.symm, h.symm⟩
      | custom spec version => simp [hrow, hsource] at h
  · exact .inl h

theorem Apart.of_compiled (h : w.Apart w') {c : L.Body × UInt64} (hc : w'.compiled p = some c) :
    w.compiled p = some c := by
  unfold World.compiled at hc ⊢
  obtain ⟨unit, hunit, hsource⟩ := Option.bind_eq_some_iff.1 hc
  rcases h.newcomers p unit hunit with hold | ⟨-, resource, hnone⟩
  · rw [hold]
    exact hsource
  · rw [hnone] at hsource
    cases hsource

end Calm

end World

theorem FromSource.mono {t t' : List (Moment L)} {s : Storage} {w w' : World L} {u : UnitId}
    {key : String} {code : L.Body} {time : UInt64} (h : FromSource t s w u key code time) (ht : t ⊆ t')
    (hscript : ∀ u key resource, w.Script u key resource → w'.Script u key resource) :
    FromSource t' s w' u key code time := by
  obtain ⟨resource, text, hu, htime, htext, frames, x, hmem⟩ := h
  exact ⟨resource, text, hscript u key resource hu, htime, htext, frames, x, ht hmem⟩

namespace Config

/-- Bodies go with the sources that there were, at the times at which they were compiled. -/
structure Sourced (T : List (Moment L)) (past : List Storage) (k : WorkerId) (c : Config L) : Prop where
  storage : ∃ s ∈ past, s.Agrees c.world.storage
  moments : ∀ m ∈ T ++ c.history, (∃ s ∈ past, s.Agrees m.world.storage) ∧
    ∀ u key resource, m.world.Script u key resource → c.world.Script u key resource
  compiled : ∀ u key code time, c.world.Holds k u key → c.world.compiled u = some (code, time) →
    ∃ s ∈ past, FromSource (T ++ c.history) s c.world u key code time
  compiling : ∀ u key time text, .load k u key (.compiling time text) ∈ c.stack →
    ∃ resource, c.world.Script u key resource ∧ c.world.storage.readText resource = .ok text
  registered : ∀ u key env code time, .load k u key (.registered env code time) ∈ c.stack →
    FromSource (T ++ c.history) c.world.storage c.world u key code time
  ran : ∀ u key env code x, Ran (T ++ c.history) k u key env code x →
    FromSource (T ++ c.history) x.storage x u key code (x.unitVersion u)

section Steps

variable {thread : ThreadId} {aside : World L → World L → Prop} {c c' : Config L} {k : WorkerId}
  {u : UnitId} {key : String} {env : EnvironmentId} {code : L.Body} {time : UInt64}
  {T : List (Moment L)} {past : List Storage}

theorem Step.storage (haside : ∀ w w', aside w w' → w.Calm w') (h : Step (· = k) thread aside c c') :
    c.world.storage.Agrees c'.world.storage := by
  have hrecorded {w : World L} {parent u} : (w.recorded parent u).storage = w.storage := by
    cases parent <;> rfl
  cases h with
  | aside h => exact (haside _ _ h).storage
  | hit hpeek =>
    unfold World.answered
    rw [hrecorded]
    exact .refl _
  | reuse hget hfresh =>
    unfold World.closed
    rw [hrecorded]
    exact .refl _
  | refuse hstage =>
    unfold World.closed
    rw [hrecorded]
    exact .refl _
  | finish hreturned =>
    unfold World.closed
    rw [hrecorded]
    exact .refl _
  | fail hreturned =>
    unfold World.closed
    rw [hrecorded]
    exact .refl _
  | _ => exact .refl _

theorem Step.of_compiled (haside : ∀ w w', aside w w' → w.Calm w')
    (h : Step (· = k) thread aside c c') (hseat : c.Seated (· = k) thread)
    (hcompiled : c'.world.compiled u = some (code, time)) :
    c.world.compiled u = some (code, time) ∨ ∃ key text s resource,
      c.stack = .load k u key (.compiling time text) :: s ∧ c.world.Script u key resource ∧
        Returned c.history (.compile resource.path text) (.done (.ok code)) := by
  cases h with
  | aside h => exact .inl ((haside _ _ h).apart.of_compiled hcompiled)
  | hit hpeek =>
    unfold World.answered at hcompiled
    rw [compiled_recorded] at hcompiled
    exact .inl hcompiled
  | reuse hget hfresh =>
    unfold World.closed at hcompiled
    rw [compiled_recorded] at hcompiled
    exact .inl hcompiled
  | refuse hstage =>
    unfold World.closed at hcompiled
    rw [compiled_recorded] at hcompiled
    exact .inl hcompiled
  | finish hreturned =>
    unfold World.closed at hcompiled
    rw [compiled_recorded] at hcompiled
    exact .inl hcompiled
  | fail hreturned =>
    unfold World.closed at hcompiled
    rw [compiled_recorded] at hcompiled
    exact .inl hcompiled
  | @compiled s H w j v key resource time' text code' hscript hreturned =>
    obtain rfl := hseat.crew_of_mem List.mem_cons_self
    rcases of_compiled_setCompiled hcompiled with hbefore | ⟨rfl, heq⟩
    · exact .inl hbefore
    · cases heq
      exact .inr ⟨key, text, s, resource, rfl, hscript, hreturned⟩
  | _ => exact .inl hcompiled

theorem Step.holds_of_compiled (haside : ∀ w w', aside w w' → w.Calm w')
    (h : Step (· = k) thread aside c c') {b : L.Body × UInt64} (hcompiled : c.world.compiled u = some b)
    (hu : c'.world.Holds k u key) : c.world.Holds k u key := by
  rcases h.scripts with hmove | hsame
  · refine ((haside _ _ hmove).apart.known k u key hu).elim id fun hnew => ?_
    obtain ⟨unit, hunit, -⟩ := Option.bind_eq_some_iff.1 hcompiled
    exact (Nat.not_lt.2 hnew (List.getElem?_eq_some_iff.1 hunit).1).elim
  · unfold Holds at hu ⊢
    rw [hsame] at hu
    exact hu

theorem Step.of_compiling (h : Step (· = k) thread aside c c') {text : String}
    (hmem : .load k u key (.compiling time text) ∈ c'.stack) :
    .load k u key (.compiling time text) ∈ c.stack ∨ ∃ resource, c.world.Script u key resource ∧
      c.world.storage.readText resource = .ok text := by
  cases h <;> grind

theorem Step.of_registered_mem (h : Step (· = k) thread aside c c')
    (hmem : .load k u key (.registered env code time) ∈ c'.stack) :
    .load k u key (.registered env code time) ∈ c.stack ∨
      .load k u key (.ready code time) ∈ c.stack ∧ c.world.compiled u = some (code, time) := by
  cases h <;> grind

theorem Step.sourced (haside : ∀ w w', aside w w' → w.Calm w') (h : Step (· = k) thread aside c c')
    (hc : c.Regular thread k) (hpast : Storage.Consistent past) (hs : c.Sourced T past k) :
    c'.Sourced T past k := by
  have hapart : ∀ w w', aside w w' → w.Apart w' := fun _ _ h => (haside _ _ h).apart
  have hbeside : ∀ w w', aside w w' → w.Beside w' := fun _ _ h => (hapart _ _ h).beside
  have hseat := hc.sound.seated
  have hscript : ∀ u key resource, c.world.Script u key resource → c'.world.Script u key resource :=
    fun _ _ _ => h.script hbeside
  have hstorage := h.storage haside
  have hsubset : T ++ c.history ⊆ T ++ c'.history := h.history_subset
  obtain ⟨s₀, hs₀, hagree⟩ := hs.storage
  have hmoved {u key code time} (hfrom : FromSource (T ++ c.history) c.world.storage c.world u key code time) :
      FromSource (T ++ c'.history) c'.world.storage c'.world u key code time := by
    obtain ⟨resource, text, hu, htime, htext, hcompiles⟩ := hfrom.mono hsubset hscript
    exact ⟨resource, text, hu, (hstorage resource).1.trans htime, (hstorage resource).2.trans htext, hcompiles⟩
  constructor
  case storage => exact ⟨s₀, hs₀, hagree.trans hstorage⟩
  case moments =>
    intro m hm
    have hbefore (hm : m ∈ T ++ c.history) : (∃ s ∈ past, s.Agrees m.world.storage) ∧
        ∀ u key resource, m.world.Script u key resource → c'.world.Script u key resource :=
      ⟨(hs.moments m hm).1, fun u key resource hu => hscript u key resource ((hs.moments m hm).2 u key resource hu)⟩
    rcases h.history with hsame | ⟨m', hadded⟩
    · exact hbefore (hsame ▸ hm)
    · rw [hadded, ← List.append_assoc] at hm
      rcases List.mem_append.1 hm with hm | hm
      · exact hbefore hm
      · rw [List.mem_singleton.1 hm, (h.moment hadded).1]
        exact ⟨⟨s₀, hs₀, hagree⟩, hscript⟩
  case compiled =>
    intro u key code time hu hcompiled
    rcases h.of_compiled haside hseat hcompiled with hbefore | ⟨key', text, s, resource, hstack, hscript', hreturned⟩
    · obtain ⟨s, hs', hfrom⟩ := hs.compiled u key code time (h.holds_of_compiled haside hbefore hu) hbefore
      exact ⟨s, hs', hfrom.mono hsubset hscript⟩
    · have hmem : .load k u key' (.compiling time text) ∈ c.stack := hstack ▸ List.mem_cons_self
      obtain ⟨resource', hu', htext⟩ := hs.compiling u key' time text hmem
      obtain rfl := hu'.unique hscript'
      obtain rfl : key' = key := (Script.unitKey (hscript _ _ _ hu')).symm.trans
        (hu.unitKey ((h.seated hbeside hseat).workers k rfl).scripted)
      have htime : c.world.storage.modified resource' = time :=
        hu'.unitVersion.symm.trans (hc.dated k u key' _ time hmem rfl)
      obtain ⟨before, frames, x, heq⟩ := hreturned
      refine ⟨s₀, hs₀, resource', text, hscript _ _ _ hu', (hagree resource').1.symm.trans htime,
        (hagree resource').2.symm.trans htext, frames, x, hsubset (List.mem_append_right _ ?_)⟩
      rw [heq]
      exact List.mem_append_right _ (List.mem_singleton_self _)
  case compiling =>
    intro u key time text hmem
    rcases h.of_compiling hmem with hbefore | ⟨resource, hu, htext⟩
    · obtain ⟨resource, hu, htext⟩ := hs.compiling u key time text hbefore
      exact ⟨resource, hscript u key resource hu, (hstorage resource).2.trans htext⟩
    · exact ⟨resource, hscript u key resource hu, (hstorage resource).2.trans htext⟩
  case registered =>
    intro u key env code time hmem
    rcases h.of_registered_mem hmem with hbefore | ⟨hready, hcompiled⟩
    · exact hmoved (hs.registered u key env code time hbefore)
    · have hload : k = k ∧ c.world.Holds k u key := hseat.known _ hready
      obtain ⟨s, hs', resource, text, hu, htime, htext, hcompiles⟩ :=
        hs.compiled u key code time hload.2 hcompiled
      have hnow : c.world.storage.modified resource = time :=
        hu.unitVersion.symm.trans (hc.dated k u key _ time hready rfl)
      refine hmoved ⟨resource, text, hu, hnow, ?_, hcompiles⟩
      rw [← htext]
      exact hpast.text ⟨s₀, hs₀, hagree⟩ ⟨s, hs', .refl s⟩ (hnow.trans htime.symm)
  case ran =>
    intro u key env code x hran
    rcases h.ran hran with hbefore | ⟨time, s, hstack, -, rfl⟩
    · exact (hs.ran u key env code x hbefore).mono hsubset fun _ _ _ h => h
    · have htop : .load k u key (.registered env code time) ∈ c.stack := hstack ▸ List.mem_cons_self
      rw [hc.dated k u key _ time htop rfl]
      exact (hs.registered u key env code time htop).mono hsubset fun _ _ _ h => h

end Steps

end Config

end ScriptWorker
