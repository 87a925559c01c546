import ScriptWorker.Proofs.Loading.Deliveries
import ScriptWorker.Proofs.Loading.Dependencies

/-!
# Stamps that stay right

A module is fresh when its load ends, with a stamp over what its unit leads to by then. While no source
gets another time, the stamp goes wrong only when the unit comes to lead to more.
-/

namespace ScriptWorker

open Relation World

variable {L : Language}

def Stage.time? : Stage L → Option UInt64
  | reading time => some time
  | compiling time _ => some time
  | ready _ time => some time
  | registered _ _ time => some time
  | filling _ _ time => some time
  | _ => none

theorem World.Script.unitVersion {w : World L} {u : UnitId} {key : String} {resource : Resource}
    (h : w.Script u key resource) : w.unitVersion u = w.storage.modified resource := by
  obtain ⟨unit, compiled, hunit, hsource, -⟩ := h
  unfold World.unitVersion
  rw [hunit]
  dsimp only [ExecutableUnit.version]
  rw [hsource]

namespace Config

def Dated (c : Config L) : Prop :=
  ∀ k u key stage time, .load k u key stage ∈ c.stack → stage.time? = some time →
    c.world.unitVersion u = time

/-- A module that is being filled can be stamped, and shows under its own key only. -/
def Alone (c : Config L) (k : WorkerId) : Prop :=
  ∀ u key stage env, .load k u key stage ∈ c.stack → stage.module? = some env →
    (c.world.environment env).kind = .module ∧ ∀ key', c.Shows k key' env → key' = key

section Times

variable {crew : WorkerId → Prop} {thread : ThreadId} {aside : World L → World L → Prop}
  {k : WorkerId} {u : UnitId} {key : String} {env : EnvironmentId} {stage : Stage L}
  {time : UInt64} {c c' : Config L}

theorem Step.time? (h : Step crew thread aside c c') (hmem : .load k u key stage ∈ c'.stack)
    (htime : stage.time? = some time) :
    (∃ stage', .load k u key stage' ∈ c.stack ∧ stage'.time? = some time) ∨
      ∃ stage' resource, .load k u key stage' ∈ c.stack ∧ c.world.Script u key resource ∧
        time = c.world.storage.modified resource := by
  cases h <;> grind [Stage.time?]

theorem Step.dated (haside : ∀ w w', aside w w' → w.Apart w') (h : Step crew thread aside c c')
    (hseat : c.Seated crew thread) (hdated : c.Dated) : c'.Dated := by
  intro k u key stage time hmem htime
  rcases h.time? hmem htime with ⟨stage', hmem', htime'⟩ | ⟨stage', resource, hmem', hscript, rfl⟩
  · rw [h.unitVersion haside (hseat.lt hmem')]
    exact hdated k u key stage' time hmem' htime'
  · rw [h.unitVersion haside (hseat.lt hmem')]
    exact hscript.unitVersion

theorem Step.newcomer (haside : ∀ w w', aside w w' → w.Beside w') (h : Step crew thread aside c c')
    (hseat : c.Seated crew thread) (hbound : c.Bounded crew) (hk : crew k)
    (hnew : c.world.environments.size ≤ env) (hshows : c'.Shows k key env) :
    (c'.world.environment env).kind = .module ∧
      ∃ u code time s, c'.stack = .load k u key (.registered env code time) :: s := by
  rcases h.shows haside hseat hshows with hbefore | hregisters
  · exact absurd (hbound k key env hk hbefore) (Nat.not_lt.2 hnew)
  · obtain ⟨u, code, time, s, -, hstack⟩ := hregisters.stack
    exact ⟨hregisters.kind, u, code, time, s, hstack⟩

theorem Step.kind (haside : ∀ w w', aside w w' → w.Apart w') (h : Step crew thread aside c c')
    (henv : env < c.world.environments.size) :
    (c'.world.environment env).kind = (c.world.environment env).kind := by
  have hclosed {w : World L} {k u key parent answer} :
      (w.closed k u key parent answer).environment env = w.environment env := by
    unfold World.environment
    rw [environments_closed]
  cases h with
  | aside h => exact ((haside _ _ h).stamps env henv).2
  | hit hpeek =>
    unfold World.environment
    rw [environments_answered]
  | reuse hget hfresh =>
    rw [hclosed]
    rfl
  | refuse hstage => rw [hclosed]
  | fill hscript hcompiled =>
    unfold World.environment World.addModule World.addEnvironment World.modifyWorker
    dsimp only at henv ⊢
    rw [Table.get?_push, if_neg (Nat.ne_of_lt henv)]
  | @finish s H w k u key found code time value hreturned =>
    rw [hclosed]
    unfold World.environment World.stamp
    dsimp only
    rw [Table.get?_modify]
    by_cases hfound : found = env
    · rw [if_pos hfound]
      cases w.environments.get? env with
      | none => rfl
      | some e =>
        dsimp only [Option.map_some, Option.getD_some, Environment.stamp]
        split <;> rfl
    · rw [if_neg hfound]
  | fail hreturned => rw [hclosed]
  | _ => rfl

theorem Step.alone (haside : ∀ w w', aside w w' → w.Apart w') (h : Step crew thread aside c c')
    (hc : c.Sound crew thread) (hk : crew k) (halone : c.Alone k) : c'.Alone k := by
  have hbeside : ∀ w w', aside w w' → w.Beside w' := fun _ _ h => (haside _ _ h).beside
  intro u key stage env hmem hmodule
  rcases h.module? hmem hmodule with ⟨stage', hmem', hmodule'⟩ | ⟨rfl, -⟩
  · have hold := hc.bounded k key env hk (.of_module? hmem' hmodule')
    obtain ⟨hkind, hsole⟩ := halone u key stage' env hmem' hmodule'
    refine ⟨(h.kind haside hold).trans hkind, fun key' hshows => ?_⟩
    rcases h.shows hbeside hc.seated hshows with hbefore | ⟨rfl, -⟩
    · exact hsole key' hbefore
    · exact (Nat.lt_irrefl _ hold).elim
  · obtain ⟨hkind, _, _, _, _, hstack⟩ := h.newcomer hbeside hc.seated hc.bounded hk (Nat.le_refl _)
      (.of_module? hmem hmodule)
    refine ⟨hkind, fun key' hshows => ?_⟩
    obtain ⟨-, _, _, _, _, hstack'⟩ := h.newcomer hbeside hc.seated hc.bounded hk (Nat.le_refl _) hshows
    rw [hstack] at hstack'
    cases hstack'
    rfl

/-- A stamp changes only when the body of a load has filled the module. -/
theorem Step.stamps (haside : ∀ w w', aside w w' → w.Apart w') (h : Step crew thread aside c c')
    (henv : env < c.world.environments.size) :
    (c'.world.environment env).checksum = (c.world.environment env).checksum ∨
      ∃ k u key code time s, c.stack = .load k u key (.filling env code time) :: s := by
  have hclosed {w : World L} {k u key parent answer} :
      (w.closed k u key parent answer).environment env = w.environment env := by
    unfold World.environment
    rw [environments_closed]
  cases h with
  | aside h => exact .inl ((haside _ _ h).stamps env henv).1
  | hit hpeek =>
    left
    unfold World.environment
    rw [environments_answered]
  | reuse hget hfresh =>
    left
    rw [hclosed]
    rfl
  | refuse hstage => exact .inl (by rw [hclosed])
  | fill hscript hcompiled =>
    left
    unfold World.environment World.addModule World.addEnvironment World.modifyWorker
    dsimp only at henv ⊢
    rw [Table.get?_push, if_neg (Nat.ne_of_lt henv)]
  | @finish s H w k u key found code time value hreturned =>
    by_cases hfound : found = env
    · exact .inr ⟨k, u, key, code, time, s, by rw [hfound]⟩
    · left
      rw [hclosed]
      unfold World.environment World.stamp
      dsimp only
      rw [Table.get?_modify, if_neg hfound]
  | fail hreturned => exact .inl (by rw [hclosed])
  | _ => exact .inl rfl

end Times

/-! ## Modules whose loads have ended -/

/-- A load of a unit has come to a module and has ended, and it was not within another one for its key. -/
def Ended (t : List (Moment L)) (k : WorkerId) (u : UnitId) (key : String) (env : EnvironmentId)
    (x : World L) : Prop :=
  ∃ frames, ⟨frames, .left (.load k u key) (.done (.ok env)), x⟩ ∈ t ∧ key ∉ Frame.keys k frames

/-- A module was fresh in a world, and has the same stamp now. -/
structure Stamped (k : WorkerId) (u : UnitId) (key : String) (env : EnvironmentId) (x w : World L) :
    Prop where
  held : x.Holds k u key
  scripted : x.Scripted k
  linked : x.Linked k
  grows : x.Grows k w
  fresh : x.isFresh u env
  stamp : (w.environment env).checksum = (x.environment env).checksum

section Stamped

variable {k : WorkerId} {u : UnitId} {key : String} {env : EnvironmentId} {x w : World L}

theorem Stamped.isFresh_iff (h : Stamped k u key env x w) :
    w.isFresh u env ↔ w.unitChecksum u = x.unitChecksum u := by
  have hfresh : (x.environment env).checksum = some (x.unitChecksum u) := of_decide_eq_true h.fresh
  unfold World.isFresh
  rw [h.stamp, hfresh, decide_eq_true_eq, Option.some.injEq, eq_comm]

/-- A stamp stays right while the unit leads to no more. -/
theorem Stamped.isFresh (h : Stamped k u key env x w) (hscripted : w.Scripted k) (hlinked : w.Linked k)
    (hreach : ∀ p, w.LeadsTo u p → x.LeadsTo u p) : w.isFresh u env :=
  h.isFresh_iff.2 (h.grows.unitChecksum_eq h.scripted h.linked hscripted hlinked h.held hreach)

end Stamped

/-- A load is about to end with a module that is fresh, or has ended with one that was. -/
def Certified (c : Config L) (k : WorkerId) (u : UnitId) (key : String) (env : EnvironmentId) : Prop :=
  (c.world.isFresh u env ∧ ∃ s, c.stack = .load k u key (.settled (.done (.ok env))) :: s) ∨
    ∃ x, Ended c.history k u key env x ∧ Stamped k u key env x c.world

/-- The modules that loads have come to are fresh when these loads end, and keep their stamps. -/
structure Steady (k : WorkerId) (c : Config L) : Prop where
  linked : c.world.Linked k
  dated : c.Dated
  alone : c.Alone k
  certified : ∀ u key env, c.Given k u key env → key ∉ Activity.progress k c.stack →
    c.Certified k u key env

section Steady

variable {thread : ThreadId} {aside : World L → World L → Prop} {k : WorkerId} {u v p : UnitId}
  {key : String} {env : EnvironmentId} {stage : Stage L} {s : List (Activity L)}
  {c c' : Config L}
  (haside : ∀ w w', aside w w' → w.Apart w') (h : Step (· = k) thread aside c c')
  (hc : c.Sound (· = k) thread) (hd : c.Delivers k) (hsteady : c.Steady k)

include haside h hc hd hsteady in
theorem Steady.stamp (hgiven : c.Given k u key env) (hkey : key ∉ Activity.progress k c.stack) :
    (c'.world.environment env).checksum = (c.world.environment env).checksum := by
  have hshows : c.Shows k key env := by
    rcases hd.stored u key env hgiven with hget | ⟨code, time, hmem⟩
    · exact .inl hget
    · exact (hkey (Activity.mem_progress hmem rfl)).elim
  rcases h.stamps haside (hc.bounded k key env rfl hshows) with hsame | ⟨j, v, key', code, time, s, hstack⟩
  · exact hsame
  · have hmem : .load j v key' (.filling env code time) ∈ c.stack := hstack ▸ List.mem_cons_self
    obtain rfl := hc.seated.crew_of_mem hmem
    obtain rfl := (hsteady.alone v key' _ env hmem rfl).2 key hshows
    exact (hkey (Activity.mem_progress hmem rfl)).elim

include haside h hc hsteady in
theorem Steady.settles (hstack : c.stack = .load k u key stage :: s)
    (hstamp : (c'.world.environment env).checksum = some (c.world.unitChecksum u)) :
    c'.world.isFresh u env := by
  have hbeside : ∀ w w', aside w w' → w.Beside w' := fun _ _ h => (haside _ _ h).beside
  have hload : k = k ∧ c.world.Holds k u key :=
    hc.seated.known (.load k u key stage) (hstack ▸ List.mem_cons_self)
  have hsame : c'.world.unitChecksum u = c.world.unitChecksum u :=
    (h.grows haside hc.seated).unitChecksum_eq (hc.seated.workers k rfl).scripted hsteady.linked
      ((h.seated hbeside hc.seated).workers k rfl).scripted
      (h.linked (fun _ _ hw => (haside _ _ hw).linked) hc.seated hsteady.linked) hload.2
      fun p hlead => h.leadsTo haside hstack hlead
  unfold World.isFresh
  rw [hstamp, hsame]
  exact decide_eq_true rfl

theorem checksum_stamp {w : World L} {sum : UInt64} (henv : env < w.environments.size)
    (hkind : (w.environment env).kind = .module) :
    ((w.stamp env sum).environment env).checksum = some sum := by
  have hrow : w.environments.get? env = some w.environments.rows[env] := List.getElem?_eq_getElem henv
  unfold World.environment at hkind ⊢
  unfold World.stamp
  dsimp only
  rw [hrow, Option.getD_some] at hkind
  rw [Table.get?_modify, if_pos rfl, hrow]
  simp [Environment.stamp, hkind]

include haside h hc hsteady in
theorem Steady.filled {code : L.Body} {time : UInt64} {parent : Option UnitId}
    (hstack : c.stack = .load k u key (.filling env code time) :: s)
    (hworld : c'.world = (c.world.stamp env (c.world.checksumAt u time)).closed k u key parent (.ok env)) :
    c'.world.isFresh u env := by
  have hmem : .load k u key (.filling env code time) ∈ c.stack := hstack ▸ List.mem_cons_self
  refine hsteady.settles haside h hc hstack ?_
  have hstamp : ((c.world.stamp env (c.world.unitChecksum u)).environment env).checksum =
      some (c.world.unitChecksum u) :=
    checksum_stamp (hc.bounded k key env rfl (.of_module? hmem rfl)) (hsteady.alone u key _ env hmem rfl).1
  unfold World.environment at hstamp ⊢
  rw [hworld, environments_closed, ← hsteady.dated k u key _ time hmem rfl]
  exact hstamp

include haside h hc hsteady in
theorem Steady.reused {parent : Option UnitId} (hstack : c.stack = .load k u key .opened :: s)
    (hfresh : c.world.isFresh u env)
    (hworld : c'.world = (c.world.modifyWorker k (Worker.marked key env)).closed k u key parent (.ok env)) :
    c'.world.isFresh u env := by
  refine hsteady.settles haside h hc hstack ?_
  unfold World.environment
  rw [hworld, environments_closed]
  exact of_decide_eq_true hfresh

include haside h in
/-- What has ended stays so, and a module keeps its stamp along. -/
theorem Stamped.step {x : World L} (hx : Stamped k u key env x c.world) (hseat : c.Seated (· = k) thread)
    (hstamp : (c'.world.environment env).checksum = (c.world.environment env).checksum) :
    Stamped k u key env x c'.world where
  held := hx.held
  scripted := hx.scripted
  linked := hx.linked
  grows := hx.grows.trans (h.grows haside hseat)
  fresh := hx.fresh
  stamp := hstamp.trans hx.stamp

theorem Ended.step {x : World L} (hx : Ended c.history k u key env x)
    (h : Step (· = k) thread aside c c') : Ended c'.history k u key env x := by
  obtain ⟨frames, hmem, hkey⟩ := hx
  refine ⟨frames, ?_, hkey⟩
  rcases h.history with hsame | ⟨m, hadded⟩
  · exact hsame ▸ hmem
  · exact hadded ▸ List.mem_append_left _ hmem

include haside h hc hd hsteady in
theorem Steady.stays (hgiven : c.Given k u key env) (hkey : key ∉ Activity.progress k c.stack) :
    c'.Certified k u key env := by
  have hstamp := hsteady.stamp haside h hc hd hgiven hkey
  rcases hsteady.certified u key env hgiven hkey with ⟨hfresh, s, hstack⟩ | ⟨x, hended, hx⟩
  · have hsettles := hsteady.settles haside h hc hstack (hstamp.trans (of_decide_eq_true hfresh))
    have hshaped := hc.nested.shaped
    have hscripted := (hc.seated.workers k rfl).scripted
    have hload : k = k ∧ c.world.Holds k u key := 
      hc.seated.known (.load k u key _) (hstack ▸ List.mem_cons_self)
    obtain ⟨stack, H, w⟩ := c
    obtain rfl : _ = _ := hstack
    cases h with
    | aside h => exact .inl ⟨hsettles, s, rfl⟩
    | leave =>
      refine .inr ⟨w, ⟨Activity.frames s, List.mem_append_right _ (List.mem_singleton_self _), ?_⟩,
        hload.2, hscripted, hsteady.linked, .refl k w, hfresh, rfl⟩
      rw [Activity.keys_frames fun _ _ _ _ => Activity.inside_of_fits hshaped]
      rwa [Activity.progress_load_outside rfl] at hkey
    | arrive hk hload hholds => exact hload.elim
    | arriveInvoke hk hcall => exact hcall.elim
    | refuse hstage => cases hstage
    | crash hstage hreturned => cases hstage
  · exact .inr ⟨x, hended.step h, hx.step haside h hc.seated hstamp⟩

include haside h hc hd hsteady in
theorem Steady.certified_step (hreload : (c.world.worker k).config.reloading = true)
    (hsmooth : Smooth k c c') (hgiven : c'.Given k u key env)
    (hkey : key ∉ Activity.progress k c'.stack) : c'.Certified k u key env := by
  have hnone {code time} (hmem : .load k u key (.filling env code time) ∈ c'.stack) : False :=
    hkey (Activity.mem_progress hmem rfl)
  have hbefore (hgiven : c.Given k u key env) : c'.Certified k u key env := by
    by_cases hprogress : key ∈ Activity.progress k c.stack
    · -- the module was being filled, so its load has just settled
      obtain ⟨v, stage, hmem, hinside⟩ := Activity.exists_of_mem_progress hprogress
      obtain ⟨rfl, code, time, rfl⟩ := hd.filling hc.seated hgiven hmem hinside
      rcases h.filling hc.seated hmem with hmem' | ⟨o, s, hstack', -⟩
      · exact (hnone hmem').elim
      · obtain ⟨found, rfl⟩ := hsmooth.settles _ _ _ _ hstack'
        rcases h.comes hc.nested hstack' with hsame | ⟨stage, hstack, hcomes⟩
        · exact (hnone (hsame ▸ hmem)).elim
        · rw [hstack] at hmem
          rcases List.mem_cons.1 hmem with heq | hmem
          · cases heq
            generalize hworld : c'.world = w' at hcomes
            cases hcomes
            exact .inl ⟨hsteady.filled haside h hc hstack hworld, s, hstack'⟩
          · exact (hnone (hstack' ▸ List.mem_cons_of_mem _ hmem)).elim
    · exact hsteady.stays haside h hc hd hgiven hprogress
  rcases h.of_given hc.nested hgiven with hgiven | ⟨stage, s, hstack, hstack', hcomes⟩
  · exact hbefore hgiven
  · generalize hworld : c'.world = w' at hcomes
    cases hcomes with
    | found hpeek =>
      rcases hd.found hc hreload hstack hpeek with hgiven | ⟨code, time, hmem⟩
      · exact hbefore hgiven
      · exact (hnone (hstack' ▸ List.mem_cons_of_mem _ hmem)).elim
    | reused hget hfresh =>
      exact .inl ⟨hsteady.reused haside h hc hstack hfresh hworld, s, hstack'⟩
    | filled =>
      exact .inl ⟨hsteady.filled haside h hc hstack hworld, s, hstack'⟩

theorem Steady.step (haside : ∀ w w', aside w w' → w.Apart w') (h : Step (· = k) thread aside c c')
    (hc : c.Sound (· = k) thread) (hreload : (c.world.worker k).config.reloading = true)
    (hsmooth : Smooth k c c') (hd : c.Delivers k) (hsteady : c.Steady k) : c'.Steady k where
  linked := h.linked (fun _ _ hw => (haside _ _ hw).linked) hc.seated hsteady.linked
  dated := h.dated haside hc.seated hsteady.dated
  alone := h.alone haside hc rfl hsteady.alone
  certified _ _ _ := hsteady.certified_step haside h hc hd hreload hsmooth

theorem Path.steady (haside : ∀ w w', aside w w' → w.Apart w')
    (h : Path (· = k) thread aside c c') (hc : c.Sound (· = k) thread)
    (hreload : (c.world.worker k).config.reloading = true) (hd : c.Delivers k) (hsteady : c.Steady k)
    (hsmooth : ∀ c₁ c₂, Path (· = k) thread aside c c₁ → Step (· = k) thread aside c₁ c₂ →
      Path (· = k) thread aside c₂ c' → Smooth k c₁ c₂) : c'.Steady k := by
  have hbeside : ∀ w w', aside w w' → w.Beside w' := fun _ _ h => (haside _ _ h).beside
  induction h with
  | refl => exact hsteady
  | @tail b c' hpath hstep ih =>
    have hbefore c₁ c₂ (h₁ : Path (· = k) thread aside c c₁) (h : Step (· = k) thread aside c₁ c₂)
        (h₂ : Path (· = k) thread aside c₂ b) := hsmooth c₁ c₂ h₁ h (h₂.tail hstep)
    have hconfig := Path.config hbeside hpath k
    exact (ih hbefore).step haside hstep (Path.sound hbeside hpath hc) (hconfig ▸ hreload)
      (hsmooth b c' hpath hstep .refl) (Path.delivers hbeside hpath hc hreload hd hbefore)

end Steady

end Config

end ScriptWorker
