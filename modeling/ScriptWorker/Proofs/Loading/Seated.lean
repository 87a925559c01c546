import ScriptWorker.Proofs.Loading.Steps

/-!
# Workers in step with what is under way

The serializer of a worker says how many of its calls are under way and which script is current. It
says so in every configuration that steps lead to, if it does in the first.
-/

namespace ScriptWorker

variable {L : Language}

namespace Serializer

def heldBy (thread : ThreadId) (depth : Nat) (current : Option UnitId) : Serializer UnitId :=
  ⟨if depth = 0 then none else some thread, depth, current⟩

@[simp] theorem leave_heldBy (thread : ThreadId) (depth : Nat) (current : Option UnitId) :
    (heldBy thread (depth + 1) current).leave = heldBy thread depth current := by
  unfold heldBy leave
  by_cases h : depth = 0
  · simp [h]
  · have hle : ¬ depth ≤ 0 := by omega
    simp [h, hle]

@[simp] theorem heldBy_depth (thread : ThreadId) (depth : Nat) (current : Option UnitId) :
    (heldBy thread depth current).depth = depth := rfl

@[simp] theorem heldBy_current (thread : ThreadId) (depth : Nat) (current : Option UnitId) :
    (heldBy thread depth current).current = current := rfl

theorem heldBy_admits (thread : ThreadId) (depth : Nat) (current : Option UnitId) :
    (heldBy thread depth current).admits thread := by
  unfold heldBy admits
  by_cases h : depth = 0 <;> simp [h]

end Serializer

namespace Worker

variable {thread : ThreadId} {x : Worker} {depth : Nat} {current parent : Option UnitId}
  {key : String} {u : UnitId}

theorem serializer_entered (h : x.serializer = .heldBy thread depth current) :
    (x.entered thread).serializer = .heldBy thread (depth + 1) current := by
  unfold entered
  rw [h]
  simp [Serializer.heldBy]

theorem serializer_left (h : x.serializer = .heldBy thread (depth + 1) current) :
    x.left.serializer = .heldBy thread depth current := by
  unfold left
  rw [h, Serializer.leave_heldBy]

theorem serializer_answered (h : x.serializer = .heldBy thread depth current) :
    (x.answered thread key).serializer = .heldBy thread depth current := by
  unfold answered
  exact serializer_left (serializer_entered h)

theorem serializer_opened (h : x.serializer = .heldBy thread depth current) :
    (x.opened thread u key).serializer = .heldBy thread (depth + 1) (some u) := by
  unfold opened
  simp only [serializer_entered h]
  rfl

theorem serializer_unwound (h : x.serializer = .heldBy thread (depth + 1) current) :
    (x.unwound parent).serializer = .heldBy thread depth parent := by
  unfold unwound
  apply serializer_left
  simp only [h]
  rfl

@[simp] theorem mode_entered : (x.entered thread).cache.mode = x.cache.mode := by
  unfold entered
  dsimp only
  split <;> simp

@[simp] theorem mode_answered : (x.answered thread key).cache.mode = x.cache.mode := by
  simp [answered, left]

@[simp] theorem mode_opened : (x.opened thread u key).cache.mode = x.cache.mode := by
  simp [opened]

@[simp] theorem mode_settledCache {answer : Answer EnvironmentId}
    {cache : ModuleCache EnvironmentId} : (settledCache key answer cache).mode = cache.mode := by
  cases answer <;> simp [settledCache]

@[simp] theorem mode_closed {answer : Answer EnvironmentId} :
    (x.closed key parent answer).cache.mode = x.cache.mode := by
  simp [closed, unwound, left]

theorem serializer_closed {answer : Answer EnvironmentId}
    (h : x.serializer = .heldBy thread (depth + 1) current) :
    (x.closed key parent answer).serializer = .heldBy thread depth parent := by
  unfold closed
  exact serializer_unwound h

end Worker

namespace World

/-! ## What leaves workers alone -/

theorem Beside.refl (w : World L) : w.Beside w :=
  ⟨rfl, fun _ => rfl, fun _ => rfl, fun _ => rfl, fun _ => rfl, fun _ _ _ h => h,
    fun _ scripts h => ⟨scripts, h, fun _ _ h => h, fun _ _ h => .inl h⟩, Nat.le_refl _⟩

theorem Beside.trans {w v u : World L} (h : w.Beside v) (h' : v.Beside u) : w.Beside u := by
  refine ⟨h'.size.trans h.size, fun k => (h'.cache k).trans (h.cache k),
    fun k => (h'.serializer k).trans (h.serializer k), fun k => (h'.config k).trans (h.config k),
    fun k => (h'.resolver k).trans (h.resolver k),
    fun u key resource hu => h'.script u key resource (h.script u key resource hu), ?_,
    Nat.le_trans h.environments h'.environments⟩
  intro k scripts hs
  obtain ⟨scripts₁, hs₁, hto₁, hfrom₁⟩ := h.scripts k scripts hs
  obtain ⟨scripts₂, hs₂, hto₂, hfrom₂⟩ := h'.scripts k scripts₁ hs₁
  refine ⟨scripts₂, hs₂, fun key u hu => hto₂ key u (hto₁ key u hu), ?_⟩
  intro key u hu
  rcases hfrom₂ key u hu with hu₁ | hnew
  · rcases hfrom₁ key u hu₁ with hu₀ | ⟨resource, hnew⟩
    · exact .inl hu₀
    · exact .inr ⟨resource, h'.script u key resource hnew⟩
  · exact .inr hnew

theorem Beside.holds {w v : World L} (h : w.Beside v) {k : WorkerId} {u : UnitId} {key : String}
    (hu : w.Holds k u key) : v.Holds k u key := by
  obtain ⟨scripts, hs, hu⟩ := hu
  obtain ⟨scripts', hs', hto, -⟩ := h.scripts k scripts hs
  exact ⟨scripts', hs', hto key u hu⟩

theorem Beside.scripted {w v : World L} (h : w.Beside v) {k : WorkerId} (hk : w.Scripted k) :
    v.Scripted k := by
  obtain ⟨scripts, hs, hscripts⟩ := hk
  obtain ⟨scripts', hs', -, hfrom⟩ := h.scripts k scripts hs
  refine ⟨scripts', hs', fun key u hu => ?_⟩
  rcases hfrom key u hu with hold | hnew
  · obtain ⟨resource, hu⟩ := hscripts key u hold
    exact ⟨resource, h.script u key resource hu⟩
  · exact hnew

theorem Scripted.script {w : World L} {k : WorkerId} (h : w.Scripted k) {u : UnitId} {key : String}
    (hu : w.Holds k u key) : ∃ resource, w.Script u key resource := by
  obtain ⟨scripts, hs, hscripts⟩ := h
  obtain ⟨scripts', hs', hu⟩ := hu
  rw [hs] at hs'
  cases hs'
  exact hscripts key u hu

theorem Holds.unique {w : World L} {k : WorkerId} {u v : UnitId} {key : String}
    (hu : w.Holds k u key) (hv : w.Holds k v key) : u = v := by
  obtain ⟨scripts, hs, hu⟩ := hu
  obtain ⟨scripts', hs', hv⟩ := hv
  rw [hs] at hs'
  cases hs'
  exact Option.some.inj (hu.symm.trans hv)

theorem scripts_modifyWorker {w : World L} {k j : WorkerId} {f : Worker → Worker}
    (hf : ∀ x, (f x).resolver = x.resolver) : (w.modifyWorker k f).scripts j = w.scripts j := by
  have hrow : (w.modifyWorker k f).workerResolver j = w.workerResolver j := by
    unfold workerResolver
    rw [worker_modifyWorker]
    split
    · next h => rw [hf, h.1]
    · rfl
  unfold scripts
  rw [hrow]
  rfl

theorem scripts_recorded (w : World L) (parent : Option UnitId) (u : UnitId) (j : WorkerId) :
    (w.recorded parent u).scripts j = w.scripts j := by
  cases parent <;> rfl

theorem scripts_closed {w : World L} {k j : WorkerId} {u : UnitId} {key : String}
    {parent : Option UnitId} {answer : Answer EnvironmentId} :
    (w.closed k u key parent answer).scripts j = w.scripts j := by
  unfold closed
  rw [scripts_recorded]
  exact scripts_modifyWorker fun _ => rfl

theorem Holds.modifyWorker {w : World L} {k j : WorkerId} {u : UnitId} {key : String}
    {f : Worker → Worker} (hu : w.Holds j u key) (hf : ∀ x, (f x).resolver = x.resolver) :
    (w.modifyWorker k f).Holds j u key := by
  obtain ⟨scripts, hs, hu⟩ := hu
  exact ⟨scripts, (scripts_modifyWorker hf).trans hs, hu⟩

theorem beside_units {w : World L} {u : UnitId} {f : ExecutableUnit L → ExecutableUnit L}
    (hkey : ∀ unit, (f unit).key = unit.key)
    (hsource : ∀ unit resource c, unit.source = .script resource c →
      ∃ c', (f unit).source = .script resource c') :
    w.Beside { w with units := w.units.modify u f } := by
  refine ⟨rfl, fun _ => rfl, fun _ => rfl, fun _ => rfl, fun _ => rfl, ?_,
    fun _ scripts h => ⟨scripts, h, fun _ _ h => h, fun _ _ h => .inl h⟩, Nat.le_refl _⟩
  rintro u' key resource ⟨unit, c, hunit, hscript, hk, hr⟩
  by_cases h : u = u'
  · obtain ⟨c', hc'⟩ := hsource unit resource c hscript
    exact ⟨f unit, c', by simp [Table.get?_modify, h, hunit], hc', (hkey unit).trans hk, hr⟩
  · exact ⟨unit, c, by simp [Table.get?_modify, h, hunit], hscript, hk, hr⟩

theorem beside_recordDependency (w : World L) (u dependency : UnitId) :
    w.Beside (w.recordDependency u dependency) := by
  apply beside_units
  · intro unit
    split <;> rfl
  · intro unit resource c h
    exact ⟨c, by split <;> exact h⟩

theorem beside_recorded (w : World L) (parent : Option UnitId) (u : UnitId) :
    w.Beside (w.recorded parent u) := by
  cases parent with
  | none => exact .refl w
  | some parent => exact w.beside_recordDependency parent u

theorem beside_setCompiled (w : World L) (u : UnitId) (body : L.Body) (time : UInt64) :
    w.Beside (w.setCompiled u body time) := by
  apply beside_units
  · intro unit
    split <;> rfl
  · intro unit resource c h
    exact ⟨some (body, time), by simp [h]⟩

theorem beside_stamp (w : World L) (env : EnvironmentId) (sum : UInt64) :
    w.Beside (w.stamp env sum) :=
  ⟨rfl, fun _ => rfl, fun _ => rfl, fun _ => rfl, fun _ => rfl, fun _ _ _ h => h,
    fun _ scripts h => ⟨scripts, h, fun _ _ h => h, fun _ _ h => .inl h⟩, by simp [stamp]⟩

theorem beside_addEnvironment (w : World L) (e : Environment) :
    w.Beside (w.addEnvironment e).2 :=
  ⟨rfl, fun _ => rfl, fun _ => rfl, fun _ => rfl, fun _ => rfl, fun _ _ _ h => h,
    fun _ scripts h => ⟨scripts, h, fun _ _ h => h, fun _ _ h => .inl h⟩,
    by simp [addEnvironment]⟩

theorem beside_addModule (w : World L) (u : UnitId) (resource : Resource) :
    w.Beside (w.addModule u resource).2 := w.beside_addEnvironment _

theorem beside_storage (w : World L) (storage : Storage) :
    w.Beside { w with storage := storage } :=
  ⟨rfl, fun _ => rfl, fun _ => rfl, fun _ => rfl, fun _ => rfl, fun _ _ _ h => h,
    fun _ scripts h => ⟨scripts, h, fun _ _ h => h, fun _ _ h => .inl h⟩, Nat.le_refl _⟩

theorem beside_drifts {edits : Storage → Storage → Prop} {w v : World L}
    (h : Drifts edits w v) : w.Beside v := by
  obtain ⟨storage, -, rfl⟩ := drifts_iff.1 h
  exact w.beside_storage storage

theorem beside_tryCandidate (w : World L) (root : Repository) (candidate : String) :
    w.Beside (w.tryCandidate root candidate).2 := by
  unfold tryCandidate
  split <;> exact w.beside_storage _

end World

namespace World

section Scripts

def enrolled (w : World L) (r : ResolverId) (resource : Resource) (name : String) : World L :=
  { w with
    units := w.units.push
      ⟨resource.key, Path.normalize name, .script resource none, Dictionary.empty⟩
    resolvers := w.resolvers.modify r fun resolver =>
      withScripts resolver fun scripts => scripts.insert resource.key w.units.size }

variable (w : World L) {k : WorkerId} (r : ResolverId) (resource : Resource) (name : String)

theorem scriptFor_cases :
    (∃ scripts u, w.scriptsOf r = some scripts ∧ scripts.get? resource.key = some u ∧
      w.scriptFor r resource name = (u, w)) ∨
    (∀ scripts, w.scriptsOf r = some scripts → scripts.get? resource.key = none) ∧
      w.scriptFor r resource name = (w.units.size, w.enrolled r resource name) := by
  unfold scriptFor scriptsOf
  cases hrow : w.resolvers.get? r with
  | none => exact .inr ⟨by simp, rfl⟩
  | some resolver =>
    cases hkind : resolver.kind with
    | custom spec =>
      simp only [Option.bind_some, hkind]
      exact .inr ⟨by simp, rfl⟩
    | repositories path extension scripts =>
      cases hu : scripts.get? resource.key with
      | none =>
        simp only [Option.bind_some, hkind, hu]
        exact .inr ⟨by simpa using hu, rfl⟩
      | some u =>
        refine .inl ⟨scripts, u, ?_, hu, ?_⟩ <;> simp only [Option.bind_some, hkind, hu]

theorem scriptsOf_enrolled (r' : ResolverId) :
    (w.enrolled r resource name).scriptsOf r' =
      if r = r' then
        (w.scriptsOf r').map fun scripts => scripts.insert resource.key w.units.size
      else w.scriptsOf r' := by
  unfold scriptsOf
  change ((w.resolvers.modify r _).get? r').bind _ = _
  rw [Table.get?_modify]
  by_cases hr : r = r'
  · rw [if_pos hr, if_pos hr]
    cases hrow : w.resolvers.get? r' with
    | none => rfl
    | some resolver =>
      simp only [Option.map_some, Option.bind_some]
      unfold withScripts
      cases hkind : resolver.kind <;> simp [hkind]
  · rw [if_neg hr, if_neg hr]

theorem script_enrolled {u : UnitId} {key : String} {known : Resource}
    (h : w.Script u key known) : (w.enrolled r resource name).Script u key known := by
  obtain ⟨unit, c, hunit, hsource, hkey⟩ := h
  refine ⟨unit, c, ?_, hsource, hkey⟩
  have hlt : u < w.units.size := (List.getElem?_eq_some_iff.1 hunit).1
  change (w.units.push _).get? u = some unit
  rw [Table.get?_push, if_neg (Nat.ne_of_lt hlt)]
  exact hunit

theorem script_enrolled_new :
    (w.enrolled r resource name).Script w.units.size resource.key resource := by
  refine ⟨⟨resource.key, Path.normalize name, .script resource none, Dictionary.empty⟩, none, ?_,
    rfl, rfl, rfl⟩
  change (w.units.push _).get? w.units.size = _
  rw [Table.get?_push, if_pos rfl]

theorem holds_enrolled {u : UnitId} {key : String} (h : (w.enrolled r resource name).Holds k u key) :
    w.Holds k u key ∨ u = w.units.size := by
  obtain ⟨scripts, hs, hu⟩ := h
  have hscripts : (w.enrolled r resource name).scripts k = _ :=
    scriptsOf_enrolled w r resource name (w.workerResolver k)
  rw [hscripts] at hs
  split at hs
  · obtain ⟨scripts', hs', rfl⟩ := Option.map_eq_some_iff.1 hs
    rw [Dictionary.get?_insert] at hu
    split at hu
    · exact .inr (Option.some.inj hu).symm
    · exact .inl ⟨scripts', hs', hu⟩
  · exact .inl ⟨scripts, hs, hu⟩

theorem beside_scriptFor : w.Beside (w.scriptFor r resource name).2 := by
  rcases scriptFor_cases w r resource name with ⟨_, u, -, -, h⟩ | ⟨hnone, h⟩
  · rw [h]
    exact .refl w
  rw [h]
  refine ⟨rfl, fun _ => rfl, fun _ => rfl, fun _ => rfl, fun _ => rfl,
    fun _ _ _ => script_enrolled w r resource name, ?_, Nat.le_refl _⟩
  intro k scripts hs
  have hscripts : (w.enrolled r resource name).scripts k = _ :=
    scriptsOf_enrolled w r resource name (w.workerResolver k)
  have hs' : w.scriptsOf (w.workerResolver k) = some scripts := hs
  rw [hscripts, hs']
  by_cases hr : r = w.workerResolver k
  · rw [if_pos hr]
    refine ⟨scripts.insert resource.key w.units.size, rfl, ?_, ?_⟩
    · intro key u hu
      have hkey : resource.key ≠ key := by
        rintro rfl
        rw [hnone scripts (hr ▸ hs')] at hu
        cases hu
      rw [Dictionary.get?_insert, if_neg hkey]
      exact hu
    · intro key u hu
      rw [Dictionary.get?_insert] at hu
      split at hu
      · next hkey =>
        cases hu
        exact .inr ⟨resource, hkey ▸ script_enrolled_new w r resource name⟩
      · exact .inl hu
  · rw [if_neg hr]
    exact ⟨scripts, rfl, fun _ _ hu => hu, fun _ _ hu => .inl hu⟩

variable {w}

theorem holds_scriptFor (hk : w.Scripted k) :
    (w.scriptFor (w.workerResolver k) resource name).2.Holds k
      (w.scriptFor (w.workerResolver k) resource name).1 resource.key := by
  rcases scriptFor_cases w (w.workerResolver k) resource name with ⟨scripts, u, hs, hu, h⟩ | ⟨-, h⟩
  · rw [h]
    exact ⟨scripts, hs, hu⟩
  · rw [h]
    obtain ⟨scripts, hs, -⟩ := hk
    have hscripts := scriptsOf_enrolled w (w.workerResolver k) resource name (w.workerResolver k)
    have hs' : w.scriptsOf (w.workerResolver k) = some scripts := hs
    rw [if_pos rfl, hs'] at hscripts
    exact ⟨_, hscripts, by rw [Dictionary.get?_insert, if_pos rfl]⟩

end Scripts

end World

/-- A worker's row and resolver as they are while a stack of calls is under way. -/
structure World.Seated (w : World L) (thread : ThreadId) (k : WorkerId) (stack : List (Activity L)) :
    Prop where
  row : k < w.workers.size
  scripted : w.Scripted k
  serializer : (w.worker k).serializer =
    .heldBy thread (Activity.depth k stack) (Activity.script k stack)
  mode : (w.worker k).cache.mode = .ofReloading (w.worker k).config.reloading

/-- The workers that an activity is on belong to the crew, and loads are of known units. -/
def Activity.Known (crew : WorkerId → Prop) (w : World L) : Activity L → Prop
  | load k u key _ => crew k ∧ w.Holds k u key
  | invoke k _ => crew k
  | call _ => True

/-- Every worker of a crew is in step with the stack. -/
structure Config.Seated (crew : WorkerId → Prop) (thread : ThreadId) (c : Config L) : Prop where
  workers : ∀ k, crew k → c.world.Seated thread k c.stack
  known : ∀ a ∈ c.stack, a.Known crew c.world

section Seated

variable {crew : WorkerId → Prop} {thread : ThreadId} {s : List (Activity L)}
  {a b : Activity L} {H T : List (Moment L)} {w w' : World L} {k : WorkerId}

theorem Activity.Known.beside (h : w.Beside w') (ha : a.Known crew w) : a.Known crew w' := by
  cases a with
  | load k u key stage => exact ⟨ha.1, h.holds ha.2⟩
  | invoke k progression => exact ha
  | call callee => trivial

theorem World.Seated.beside (hk : w.Seated thread k s) (h : w.Beside w') : w'.Seated thread k s where
  row := h.size ▸ hk.row
  scripted := h.scripted hk.scripted
  serializer := (h.serializer k).trans hk.serializer
  mode := by rw [h.cache, h.config, hk.mode]

namespace Config

theorem Seated.beside (hc : Seated crew thread ⟨s, H, w⟩) (h : w.Beside w') :
    Seated crew thread ⟨s, T, w'⟩ :=
  ⟨fun k hk => (hc.workers k hk).beside h, fun a ha => (hc.known a ha).beside h⟩

theorem Seated.history (hc : Seated crew thread ⟨s, H, w⟩) : Seated crew thread ⟨s, T, w⟩ :=
  ⟨hc.workers, hc.known⟩

theorem Seated.push (hc : Seated crew thread ⟨s, H, w⟩) (ha : a.Known crew w)
    (hdepth : ∀ k, Activity.depth k (a :: s) = Activity.depth k s)
    (hscript : ∀ k, Activity.script k (a :: s) = Activity.script k s) :
    Seated crew thread ⟨a :: s, T, w⟩ := by
  refine ⟨fun k hk => ?_, ?_⟩
  · have hseat := hc.workers k hk
    exact ⟨hseat.row, hseat.scripted, by rw [hdepth, hscript]; exact hseat.serializer, hseat.mode⟩
  · intro b hb
    rcases List.mem_cons.1 hb with rfl | hb
    · exact ha
    · exact hc.known b hb

theorem Seated.pop (hc : Seated crew thread ⟨a :: s, H, w⟩)
    (hdepth : ∀ k, Activity.depth k (a :: s) = Activity.depth k s)
    (hscript : ∀ k, Activity.script k (a :: s) = Activity.script k s) :
    Seated crew thread ⟨s, T, w⟩ := by
  refine ⟨fun k hk => ?_, fun b hb => hc.known b (List.mem_cons_of_mem a hb)⟩
  have hseat := hc.workers k hk
  refine ⟨hseat.row, hseat.scripted, ?_, hseat.mode⟩
  rw [← hdepth, ← hscript]
  exact hseat.serializer

theorem Seated.turn (hc : Seated crew thread ⟨a :: s, H, w⟩) (hb : b.Known crew w)
    (hdepth : ∀ k, Activity.depth k (b :: s) = Activity.depth k (a :: s))
    (hscript : ∀ k, Activity.script k (b :: s) = Activity.script k (a :: s)) :
    Seated crew thread ⟨b :: s, T, w⟩ := by
  refine ⟨fun k hk => ?_, ?_⟩
  · have hseat := hc.workers k hk
    exact ⟨hseat.row, hseat.scripted, by rw [hdepth, hscript]; exact hseat.serializer, hseat.mode⟩
  · intro c hcmem
    rcases List.mem_cons.1 hcmem with rfl | hcmem
    · exact hb
    · exact hc.known c (List.mem_cons_of_mem a hcmem)

/-- A change of a worker's row that goes with the new stage of the call on top. -/
theorem Seated.modifyWorker {f : Worker → Worker} (hc : Seated crew thread ⟨a :: s, H, w⟩)
    (hb : b.Known crew w) (hconfig : ∀ x, (f x).config = x.config)
    (hresolver : ∀ x, (f x).resolver = x.resolver)
    (hmode : ∀ x, (f x).cache.mode = x.cache.mode)
    (hserializer : ∀ x : Worker,
      x.serializer = .heldBy thread (Activity.depth k (a :: s)) (Activity.script k (a :: s)) →
      (f x).serializer = .heldBy thread (Activity.depth k (b :: s)) (Activity.script k (b :: s)))
    (hothers : ∀ j, k ≠ j → Activity.depth j (b :: s) = Activity.depth j (a :: s) ∧
      Activity.script j (b :: s) = Activity.script j (a :: s)) :
    Seated crew thread ⟨b :: s, T, w.modifyWorker k f⟩ := by
  refine ⟨fun j hj => ?_, ?_⟩
  · have hseat := hc.workers j hj
    have hscripted : (w.modifyWorker k f).Scripted j := by
      obtain ⟨scripts, hs, hscripts⟩ := hseat.scripted
      exact ⟨scripts, (World.scripts_modifyWorker hresolver).trans hs, hscripts⟩
    by_cases hkj : k = j
    · subst hkj
      refine ⟨by simpa using hseat.row, hscripted, ?_, ?_⟩ <;>
        rw [World.worker_modifyWorker_self hseat.row]
      · exact hserializer _ hseat.serializer
      · rw [hmode, hconfig, hseat.mode]
    · obtain ⟨hdepth, hscript⟩ := hothers j hkj
      refine ⟨by simpa using hseat.row, hscripted, ?_, ?_⟩ <;>
        rw [World.worker_modifyWorker_ne hkj]
      · rw [hdepth, hscript]
        exact hseat.serializer
      · exact hseat.mode
  · have hknown : ∀ c : Activity L, c.Known crew w → c.Known crew (w.modifyWorker k f) := by
      intro c hc
      cases c with
      | load j u key stage => exact ⟨hc.1, hc.2.modifyWorker hresolver⟩
      | invoke j progression => exact hc
      | call callee => trivial
    intro c hcmem
    rcases List.mem_cons.1 hcmem with rfl | hcmem
    · exact hknown _ hb
    · exact hknown c (hc.known c (List.mem_cons_of_mem a hcmem))

section Rows

variable {u : UnitId} {key : String}

theorem Seated.opened (hc : Seated crew thread ⟨.load k u key .arriving :: s, H, w⟩) :
    Seated crew thread
      ⟨.load k u key .opened :: s, T, w.modifyWorker k (Worker.opened thread u key)⟩ := by
  have hload : crew k ∧ w.Holds k u key := hc.known (.load k u key .arriving) List.mem_cons_self
  refine hc.modifyWorker hload (fun _ => rfl) (fun _ => rfl) (fun _ => Worker.mode_opened) ?_ ?_
  · intro x hx
    rw [Activity.depth_load_outside rfl, Activity.script_load_outside rfl] at hx
    rw [Activity.depth_load_inside rfl, Activity.script_load_inside rfl]
    exact Worker.serializer_opened hx
  · intro j hj
    exact ⟨by simp only [Activity.depth_load_ne hj], by simp only [Activity.script_load_ne hj]⟩

theorem Seated.answered {outcome : Outcome (Answer EnvironmentId)} {parent : Option UnitId}
    (hc : Seated crew thread ⟨.load k u key .arriving :: s, H, w⟩) :
    Seated crew thread
      ⟨.load k u key (.settled outcome) :: s, T, w.answered thread k u key parent⟩ := by
  have hload : crew k ∧ w.Holds k u key := hc.known (.load k u key .arriving) List.mem_cons_self
  apply Seated.beside (H := H) _ (World.beside_recorded _ parent u)
  refine hc.modifyWorker hload (fun _ => rfl) (fun _ => rfl) (fun _ => Worker.mode_answered) ?_ ?_
  · intro x hx
    rw [Activity.depth_load_outside rfl, Activity.script_load_outside rfl] at hx ⊢
    exact Worker.serializer_answered hx
  · intro j hj
    exact ⟨by simp only [Activity.depth_load_ne hj], by simp only [Activity.script_load_ne hj]⟩

theorem Seated.marked {stage : Stage L} {env : EnvironmentId}
    (hc : Seated crew thread ⟨.load k u key stage :: s, H, w⟩) :
    Seated crew thread
      ⟨.load k u key stage :: s, T, w.modifyWorker k (Worker.marked key env)⟩ := by
  have hload : crew k ∧ w.Holds k u key := hc.known (.load k u key stage) List.mem_cons_self
  exact hc.modifyWorker hload (fun _ => rfl) (fun _ => rfl) (fun _ => ModuleCache.mode_mark ..)
    (fun _ hx => hx) fun _ _ => ⟨rfl, rfl⟩

theorem Seated.unwound {stage : Stage L} {payload : Option String} (hstage : stage.isInside)
    (hc : Seated crew thread ⟨.load k u key stage :: s, H, w⟩) :
    Seated crew thread ⟨.load k u key (.settled (.panic payload)) :: s, T,
      w.modifyWorker k (Worker.unwound (Activity.script k s))⟩ := by
  have hload : crew k ∧ w.Holds k u key := hc.known (.load k u key stage) List.mem_cons_self
  refine hc.modifyWorker hload (fun _ => rfl) (fun _ => rfl) (fun _ => rfl) ?_ ?_
  · intro x hx
    rw [Activity.depth_load_inside hstage, Activity.script_load_inside hstage] at hx
    rw [Activity.depth_load_outside rfl, Activity.script_load_outside rfl]
    exact Worker.serializer_unwound hx
  · intro j hj
    exact ⟨by simp only [Activity.depth_load_ne hj], by simp only [Activity.script_load_ne hj]⟩

theorem Seated.closed {stage : Stage L} {answer : Answer EnvironmentId} (hstage : stage.isInside)
    (hc : Seated crew thread ⟨.load k u key stage :: s, H, w⟩) :
    Seated crew thread ⟨.load k u key (.settled (.done answer)) :: s, T,
      w.closed k u key (Activity.script k s) answer⟩ := by
  have hload : crew k ∧ w.Holds k u key := hc.known (.load k u key stage) List.mem_cons_self
  apply Seated.beside (H := H) _ (World.beside_recorded _ (Activity.script k s) u)
  refine hc.modifyWorker hload (fun _ => rfl) (fun _ => rfl) (fun _ => Worker.mode_closed) ?_ ?_
  · intro x hx
    rw [Activity.depth_load_inside hstage, Activity.script_load_inside hstage] at hx
    rw [Activity.depth_load_outside rfl, Activity.script_load_outside rfl]
    exact Worker.serializer_closed hx
  · intro j hj
    exact ⟨by simp only [Activity.depth_load_ne hj], by simp only [Activity.script_load_ne hj]⟩

theorem Seated.stage {stage stage' : Stage L} (hstage : stage.isInside) (hstage' : stage'.isInside)
    (hc : Seated crew thread ⟨.load k u key stage :: s, H, w⟩) :
    Seated crew thread ⟨.load k u key stage' :: s, T, w⟩ := by
  have hload : crew k ∧ w.Holds k u key := hc.known (.load k u key stage) List.mem_cons_self
  refine hc.turn hload ?_ ?_
  · intro j
    simp only [Activity.depth, Activity.entries, hstage, hstage']
  · intro j
    simp only [Activity.script, hstage, hstage']

theorem Seated.enteredInvoke (hc : Seated crew thread ⟨.invoke k .arriving :: s, H, w⟩) :
    Seated crew thread ⟨.invoke k .inside :: s, T, w.entered thread k⟩ := by
  have hinvoke : crew k := hc.known (.invoke k .arriving) List.mem_cons_self
  refine hc.modifyWorker hinvoke (fun _ => rfl) (fun _ => rfl) (fun _ => Worker.mode_entered) ?_ ?_
  · intro x hx
    rw [Activity.depth_invoke_outside (by decide)] at hx
    rw [Activity.depth_invoke_inside]
    exact Worker.serializer_entered hx
  · intro j hj
    exact ⟨by simp only [Activity.depth_invoke_ne hj], rfl⟩

theorem Seated.leftInvoke (hc : Seated crew thread ⟨.invoke k .inside :: s, H, w⟩) :
    Seated crew thread ⟨.invoke k .settled :: s, T, w.modifyWorker k Worker.left⟩ := by
  have hinvoke : crew k := hc.known (.invoke k .inside) List.mem_cons_self
  refine hc.modifyWorker hinvoke (fun _ => rfl) (fun _ => rfl) (fun _ => rfl) ?_ ?_
  · intro x hx
    rw [Activity.depth_invoke_inside] at hx
    rw [Activity.depth_invoke_outside (by decide)]
    exact Worker.serializer_left hx
  · intro j hj
    exact ⟨by simp only [Activity.depth_invoke_ne hj], rfl⟩

end Rows

/-- Every step keeps workers in step with what is under way. -/
theorem Step.seated {aside : World L → World L → Prop} (haside : ∀ w w', aside w w' → w.Beside w')
    {c c' : Config L} (h : Step crew thread aside c c') (hc : c.Seated crew thread) :
    c'.Seated crew thread := by
  cases h with
  | aside h => exact hc.beside (haside _ _ h)
  | arrive hk hload hholds =>
    exact hc.push ⟨hk, hholds⟩ (fun _ => Activity.depth_load_outside rfl)
      fun _ => Activity.script_load_outside rfl
  | hit hpeek => exact hc.answered
  | miss hpeek => exact hc.opened
  | reuse hget hfresh => exact Seated.closed rfl (hc.marked (T := []))
  | distrust hstale => exact hc.stage rfl rfl
  | date hscript => exact hc.stage rfl rfl
  | remember hcompiled => exact hc.stage rfl rfl
  | read hscript htext => exact hc.stage rfl rfl
  | compile hscript => exact hc.push trivial (fun _ => Activity.depth_call) fun _ => rfl
  | compiled hscript hreturned =>
    exact Seated.stage rfl rfl (hc.beside (T := []) (World.beside_setCompiled ..))
  | refuse hstage => exact hc.closed (Stage.isInside_of_isReading hstage)
  | @fill s H w k u key resource code time hscript hcompiled =>
    have hadded := hc.beside (T := H) (w.beside_addModule u resource)
    exact Seated.marked (Seated.stage (T := H) rfl rfl hadded)
  | execute =>
    exact (hc.stage (T := []) rfl rfl).push trivial (fun _ => Activity.depth_call) fun _ => rfl
  | finish hreturned =>
    exact Seated.closed rfl (hc.beside (T := []) (World.beside_stamp ..))
  | fail hreturned => exact hc.closed rfl
  | crash hstage hreturned => exact hc.unwound hstage
  | leave =>
    exact hc.pop (fun _ => Activity.depth_load_outside rfl)
      fun _ => Activity.script_load_outside rfl
  | arriveInvoke hk hcall =>
    exact hc.push hk (fun _ => Activity.depth_invoke_outside (by decide)) fun _ => rfl
  | enterInvoke => exact hc.enteredInvoke
  | call => exact hc.push trivial (fun _ => Activity.depth_call) fun _ => rfl
  | settleInvoke => exact hc.leftInvoke
  | leaveInvoke => exact hc.pop (fun _ => Activity.depth_invoke_outside (by decide)) fun _ => rfl
  | comeBack => exact hc.pop (fun _ => Activity.depth_call) fun _ => rfl

theorem Path.seated {aside : World L → World L → Prop} (haside : ∀ w w', aside w w' → w.Beside w')
    {c c' : Config L} (h : Path crew thread aside c c') (hc : c.Seated crew thread) :
    c'.Seated crew thread := by
  induction h with
  | refl => exact hc
  | tail _ hstep ih => exact hstep.seated haside ih

theorem Step.script {aside : World L → World L → Prop} (haside : ∀ w w', aside w w' → w.Beside w')
    {c c' : Config L} {u : UnitId} {key : String} {resource : Resource}
    (h : Step crew thread aside c c') (hu : c.world.Script u key resource) :
    c'.world.Script u key resource := by
  cases h with
  | aside h => exact (haside _ _ h).script u key resource hu
  | hit hpeek =>
    apply (World.beside_recorded _ _ _).script
    exact hu
  | reuse hget hfresh =>
    apply (World.beside_recorded _ _ _).script
    exact hu
  | compiled hscript hreturned => exact (World.beside_setCompiled ..).script u key resource hu
  | refuse hstage =>
    apply (World.beside_recorded _ _ _).script
    exact hu
  | finish hreturned =>
    apply (World.beside_recorded _ _ _).script
    exact hu
  | fail hreturned =>
    apply (World.beside_recorded _ _ _).script
    exact hu
  | _ => exact hu

theorem Path.script {aside : World L → World L → Prop} (haside : ∀ w w', aside w w' → w.Beside w')
    {c c' : Config L} {u : UnitId} {key : String} {resource : Resource}
    (h : Path crew thread aside c c') (hu : c.world.Script u key resource) :
    c'.world.Script u key resource := by
  induction h with
  | refl => exact hu
  | tail _ hstep ih => exact hstep.script haside ih

theorem Step.scripts {aside : World L → World L → Prop} {c c' : Config L}
    (h : Step crew thread aside c c') :
    aside c.world c'.world ∨ ∀ j, c'.world.scripts j = c.world.scripts j := by
  cases h with
  | aside h => exact .inl h
  | hit hpeek =>
    exact .inr fun j => (World.scripts_recorded ..).trans (World.scripts_modifyWorker fun _ => rfl)
  | miss hpeek => exact .inr fun j => World.scripts_modifyWorker fun _ => rfl
  | reuse hget hfresh =>
    exact .inr fun j => World.scripts_closed.trans (World.scripts_modifyWorker fun _ => rfl)
  | refuse hstage => exact .inr fun j => World.scripts_closed
  | fill hscript hcompiled => exact .inr fun j => World.scripts_modifyWorker fun _ => rfl
  | finish hreturned => exact .inr fun j => World.scripts_closed
  | fail hreturned => exact .inr fun j => World.scripts_closed
  | crash hstage hreturned => exact .inr fun j => World.scripts_modifyWorker fun _ => rfl
  | enterInvoke => exact .inr fun j => World.scripts_modifyWorker fun _ => rfl
  | settleInvoke => exact .inr fun j => World.scripts_modifyWorker fun _ => rfl
  | _ => exact .inr fun _ => rfl

theorem Step.holds {aside : World L → World L → Prop} (haside : ∀ w w', aside w w' → w.Beside w')
    {c c' : Config L} {j : WorkerId} {u : UnitId} {key : String} (h : Step crew thread aside c c')
    (hu : c.world.Holds j u key) : c'.world.Holds j u key := by
  rcases h.scripts with hmove | hsame
  · exact (haside _ _ hmove).holds hu
  · obtain ⟨scripts, hs, hu⟩ := hu
    exact ⟨scripts, (hsame j).trans hs, hu⟩

end Config

end Seated

end ScriptWorker
