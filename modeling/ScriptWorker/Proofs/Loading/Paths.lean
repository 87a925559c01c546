import ScriptWorker.Proofs.Loading.Programs
import ScriptWorker.Proofs.Loading.Seated

/-!
# Runs are paths

Every run of a load or of a call by name goes along the steps of nested loads, whatever the scripts
and the host do in between, as long as they leave the workers to the library.
-/

namespace ScriptWorker

open Relation World

variable {L : Language} {α : Type}

def Code.Only (P : Request L → Prop) : Code L α → Prop
  | .ended _ => True
  | .ask request next => P request ∧ ∀ outcome, (next outcome).Only P

namespace Request

/-- A call on a worker of a crew, from running code, with modules named by certain names. -/
def CallsOn (crew : WorkerId → Prop) (names : String → Prop) : Request L → Prop
  | .loadModule k _ name => crew k ∧ names name
  | .invoke k module _ _ => crew k ∧ ∀ name, module = .name name → names name
  | .resolve k _ name => crew k ∧ names name
  | _ => False

def IsPlain : Request L → Prop
  | .loadModule .. => False
  | .invoke .. => False
  | .evaluate .. => False
  | .markChecked .. => False
  | _ => True

end Request

namespace Setting

def AnswersWithin (S : Setting L) (thread : ThreadId) (aside : World L → World L → Prop)
    (request : Request L) : Prop :=
  ∀ call frames w o w' t, S.runs call frames (S.interpreter.answer thread request) w o w' t →
    ReflTransGen aside w w' ∧ t = []

/-- In a setting, all that happens besides the steps on workers of a crew is of a kind. -/
structure Suits (S : Setting L) (crew : WorkerId → Prop) (names : String → Prop) (thread : ThreadId)
    (aside : World L → World L → Prop) : Prop where
  beside : ∀ w w', aside w w' → w.Beside w'
  edited : ∀ w w', Edited S.edits w w' → aside w w'
  located : ∀ call frames w k caller name o w' t, crew k → w.Scripted k → names name →
    S.runs call frames (Worker.locate k caller name) w o w' t → ReflTransGen aside w w'
  asked : ∀ w resource, aside w { w with storage := (w.storage.resourceExists resource).2 }
  reported : ∀ w k error, aside w (w.reportError k error)
  activated : ∀ w k, aside w (w.setActive thread k)
  compiling : ∀ path source, (S.interpreter.code (.compile path source)).Only fun request =>
    request.IsPlain ∧ S.AnswersWithin thread aside request
  executing : ∀ body k env, crew k → (S.interpreter.code (.execute body k env)).Only fun request =>
    request.CallsOn crew names ∨ request.IsPlain ∧ S.AnswersWithin thread aside request
  calling : ∀ closure k this args, crew k → (S.interpreter.code (.call closure k this args)).Only
    fun request => request.CallsOn crew names ∨
      request.IsPlain ∧ S.AnswersWithin thread aside request

end Setting

/-- A callee that runs as part of a load or of a call by name on a worker of a crew. -/
def Callee.IsScripted (crew : WorkerId → Prop) : Callee L → Prop
  | .compile .. => True
  | .execute _ k _ => crew k
  | .call _ k _ _ => crew k
  | _ => False

def Setting.Follows (crew : WorkerId → Prop) (thread : ThreadId) (aside : World L → World L → Prop)
    (call : List (Frame L) → (callee : Callee L) → Behaviour L callee.Result) : Prop :=
  ∀ s H w callee o w' t, callee.IsScripted crew → Config.Seated crew thread ⟨s, H, w⟩ →
    call (Activity.frames s) callee w o w' t → ∃ t',
      t = ⟨Activity.frames s, .entered (.call callee), w⟩ :: t' ++
        [⟨Activity.frames s, .left (.call callee) o, w'⟩] ∧
      Config.Path crew thread aside
        ⟨.call callee :: s, H ++ [⟨Activity.frames s, .entered (.call callee), w⟩], w⟩
        ⟨.call callee :: s, H ++ [⟨Activity.frames s, .entered (.call callee), w⟩] ++ t', w'⟩

namespace Config

variable {crew : WorkerId → Prop} {thread : ThreadId} {aside : World L → World L → Prop}
  {s : List (Activity L)} {H : List (Moment L)} {w v : World L}

theorem path_aside (h : ReflTransGen aside w v) : Path crew thread aside ⟨s, H, w⟩ ⟨s, H, v⟩ := by
  induction h with
  | refl => exact .refl
  | tail _ hstep ih => exact ih.tail (.aside hstep)

theorem path_drifts {edits : Storage → Storage → Prop}
    (hedited : ∀ w w', Edited edits w w' → aside w w') (h : Drifts edits w v) :
    Path crew thread aside ⟨s, H, w⟩ ⟨s, H, v⟩ :=
  path_aside (ReflTransGen.mono hedited _ _ h)

end Config

section Runs

variable {S : Setting L} {crew : WorkerId → Prop} {names : String → Prop} {thread : ThreadId}
  {aside : World L → World L → Prop}
  {call : List (Frame L) → (callee : Callee L) → Behaviour L callee.Result}
  {frames : List (Frame L)} {w w' : World L} {t : List (Moment L)} {k : WorkerId}

theorem aside_drifts (hS : S.Suits crew names thread aside) (h : Drifts S.edits w w') :
    ReflTransGen aside w w' := ReflTransGen.mono hS.edited _ _ h

/-! ## Names -/

theorem beside_chain {R : World L → World L → Prop} (hR : ∀ w w', R w w' → w.Beside w')
    (h : ReflTransGen R w w') : w.Beside w' := by
  induction h with
  | refl => exact .refl w
  | tail _ hstep ih => exact ih.trans (hR _ _ hstep)

theorem Scripted.kind {w : World L} (hk : w.Scripted k) :
    ∃ path extension scripts, (w.resolvers.get? (w.workerResolver k)).map NameResolver.kind =
      some (.repositories path extension scripts) := by
  obtain ⟨scripts, hs, -⟩ := hk
  unfold World.scripts World.scriptsOf at hs
  cases hrow : w.resolvers.get? (w.workerResolver k) with
  | none => simp [hrow] at hs
  | some resolver =>
    simp only [hrow, Option.bind_some] at hs
    cases hkind : resolver.kind with
    | custom spec => simp [hkind] at hs
    | repositories path extension scripts' =>
      exact ⟨path, extension, scripts', by simp [hkind]⟩

/-- How the library comes to a candidate, and to the unit that a name stands for. -/
structure Naming (S : Setting L) (aside : World L → World L → Prop) : Prop where
  beside : ∀ w w', aside w w' → w.Beside w'
  edited : ∀ w w', Edited S.edits w w' → aside w w'
  tried : ∀ w root candidate, aside w (w.tryCandidate root candidate).2
  scripted : ∀ w r resource name, aside w (w.scriptFor r resource name).2

theorem runs_firstCandidate (hS : Naming S aside) {tried : List (Repository × String)}
    {o : Outcome (Option Resource)} (h : S.runs call frames (firstCandidate tried) w o w' t) :
    ReflTransGen aside w w' ∧ t = [] ∧ ∃ found, o = .done found := by
  induction tried generalizing w t with
  | nil =>
    obtain ⟨hw, rfl, rfl⟩ := Program.runs_pure.1 h
    exact ⟨ReflTransGen.mono hS.edited _ _ hw, rfl, none, rfl⟩
  | cons attempt rest ih =>
    obtain ⟨root, candidate⟩ := attempt
    obtain ⟨v, hv, hnext⟩ := Program.runs_transact_bind.1 h
    have hfirst := (ReflTransGen.mono hS.edited _ _ hv).tail (hS.tried v root candidate)
    cases hfound : (v.tryCandidate root candidate).1 with
    | some resource =>
      simp only [hfound] at hnext
      obtain ⟨hw, rfl, rfl⟩ := Program.runs_pure.1 hnext
      exact ⟨hfirst.trans (ReflTransGen.mono hS.edited _ _ hw), rfl, some resource, rfl⟩
    | none =>
      simp only [hfound] at hnext
      obtain ⟨hw, ht, ho⟩ := ih hnext
      exact ⟨hfirst.trans hw, ht, ho⟩

theorem runs_locate (hS : Naming S aside) (hw : w.Scripted k)
    {caller : Option EnvironmentId} {name : String} {o : Outcome (Answer UnitId)}
    (h : S.runs call frames (Worker.locate k caller name) w o w' t) :
    ReflTransGen aside w w' ∧ t = [] ∧ ∃ answer, o = .done answer ∧
      ∀ u, answer = .ok u → ∃ key, w'.Holds k u key := by
  have hdrifts : ∀ {w w'}, Drifts S.edits w w' → ReflTransGen aside w w' :=
    fun h => ReflTransGen.mono hS.edited _ _ h
  have hbeside : ∀ {w w'}, ReflTransGen aside w w' → w.Beside w' :=
    fun h => beside_chain hS.beside h
  obtain ⟨v₁, hv₁, h⟩ := Program.runs_read_bind.1 h
  obtain ⟨v₂, hv₂, h⟩ := Program.runs_read_bind.1 h
  obtain ⟨v₃, hv₃, h⟩ := Program.runs_read_bind.1 h
  have hto : ReflTransGen aside w v₃ := hdrifts ((hv₁.trans hv₂).trans hv₃)
  have hv : v₃.Scripted k := (hbeside hto).scripted hw
  have hresolver : v₁.workerResolver k = v₃.workerResolver k :=
    ((beside_drifts (hv₂.trans hv₃)).resolver k).symm
  obtain ⟨path, extension, scripts, hkind⟩ := Scripted.kind hv
  rw [hresolver, hkind] at h
  obtain ⟨found, v₄, t₁, t₂, hfirst, hrest, rfl⟩ | ⟨payload, v₄, hfirst, -, -⟩ :=
    Program.runs_bind.1 h
  case inr =>
    obtain ⟨-, -, found, ho⟩ := runs_firstCandidate hS hfirst
    cases ho
  case inl =>
  obtain ⟨hv₄, rfl, found, ho⟩ := runs_firstCandidate hS hfirst
  cases ho
  cases found with
  | none =>
    obtain ⟨hw', rfl, rfl⟩ := Program.runs_pure.1 hrest
    exact ⟨(hto.trans hv₄).trans (hdrifts hw'), rfl, _, rfl, fun _ h => nomatch h⟩
  | some resource =>
    obtain ⟨v₅, hv₅, hrest⟩ := Program.runs_transact_bind.1 hrest
    obtain ⟨hw', rfl, rfl⟩ := Program.runs_pure.1 hrest
    have hto₅ : ReflTransGen aside v₃ v₅ := hv₄.trans (hdrifts hv₅)
    have hscripted : v₅.Scripted k := (hbeside hto₅).scripted hv
    rw [← (hbeside hto₅).resolver k] at hw' ⊢
    have hmade := hS.scripted v₅ (v₅.workerResolver k) resource name
    refine ⟨((hto.trans hto₅).tail hmade).trans (hdrifts hw'), rfl, _, rfl, ?_⟩
    intro u hu
    cases hu
    exact ⟨resource.key, (beside_drifts hw').holds (holds_scriptFor resource name hscripted)⟩

theorem naming_beside (S : Setting L) : Naming S World.Beside where
  beside _ _ h := h
  edited _ _ h := by
    obtain ⟨storage, -, rfl⟩ := h
    exact World.beside_storage _ storage
  tried w root candidate := w.beside_tryCandidate root candidate
  scripted w r resource name := w.beside_scriptFor r resource name

theorem locate_cases (hw : w.Scripted k) {caller : Option EnvironmentId} {name : String}
    {o : Outcome (Answer UnitId)} (h : S.runs call frames (Worker.locate k caller name) w o w' t) :
    t = [] ∧ ∃ answer, o = .done answer ∧ ∀ u, answer = .ok u → ∃ key, w'.Holds k u key :=
  (runs_locate (naming_beside S) hw h).2

theorem beside_located (hw : w.Scripted k) {caller : Option EnvironmentId} {name : String}
    {o : Outcome (Answer UnitId)} (h : S.runs call frames (Worker.locate k caller name) w o w' t) :
    w.Beside w' :=
  beside_chain (fun _ _ h => h) (runs_locate (naming_beside S) hw h).1

/-! ## Bodies -/

section Bodies

variable {s : List (Activity L)} {H : List (Moment L)} {u : UnitId} {key : String}
  {resource : Resource} {code : L.Body} {time : UInt64}

theorem runs_reportAll (hS : S.Suits crew names thread aside) {errors : List SyntaxError}
    {o : Outcome Unit} (h : S.runs call frames (Script.reportAll k errors) w o w' t) :
    ReflTransGen aside w w' ∧ t = [] ∧ o = .done () := by
  induction errors generalizing w with
  | nil =>
    obtain ⟨hw, rfl, rfl⟩ := Program.runs_pure.1 h
    exact ⟨aside_drifts hS hw, rfl, rfl⟩
  | cons error rest ih =>
    obtain ⟨v, hv, hrest⟩ := Program.runs_modify_bind.1 h
    obtain ⟨hw, ht, ho⟩ := ih hrest
    exact ⟨((aside_drifts hS hv).tail (hS.reported v k error)).trans hw, ht, ho⟩

theorem compiled_setCompiled {unit : ExecutableUnit L} {c : Option (L.Body × UInt64)}
    (hunit : w.units.get? u = some unit) (hsource : unit.source = .script resource c) :
    (w.setCompiled u code time).compiled u = some (code, time) := by
  unfold compiled setCompiled
  simp only [Table.get?_modify, if_true, hunit, Option.map_some, Option.bind_some, hsource]

theorem Script.compiled {w : World L} (h : w.Script u key resource) :
    (w.setCompiled u code time).compiled u = some (code, time) := by
  obtain ⟨unit, c, hunit, hsource, -⟩ := h
  exact compiled_setCompiled hunit hsource

theorem path_outside (hcall : Setting.Follows crew thread aside call) {callee : Callee L}
    {c : Config L} {o : Outcome callee.Result} (hcallee : callee.IsScripted crew)
    (hseat : Config.Seated crew thread ⟨s, H, w⟩)
    (henter : Config.Step crew thread aside c
      ⟨.call callee :: s, H ++ [⟨Activity.frames s, .entered (.call callee), w⟩], w⟩)
    (h : call (Activity.frames s) callee w o w' t) :
    Config.Path crew thread aside c ⟨s, H ++ t, w'⟩ ∧
      Config.Returned (H ++ t) callee o := by
  obtain ⟨t', rfl, hinside⟩ := hcall s H w callee o w' t hcallee hseat h
  have hback : Config.Step crew thread aside
      ⟨.call callee :: s, H ++ [⟨Activity.frames s, .entered (.call callee), w⟩] ++ t', w'⟩
      ⟨s, H ++ [⟨Activity.frames s, .entered (.call callee), w⟩] ++ t' ++
        [⟨Activity.frames s, .left (.call callee) o, w'⟩], w'⟩ := .comeBack
  have hpath := (hinside.head henter).tail hback
  have hhistory : H ++ [⟨Activity.frames s, .entered (.call callee), w⟩] ++ t' ++
      [⟨Activity.frames s, .left (.call callee) o, w'⟩] =
      H ++ (⟨Activity.frames s, .entered (.call callee), w⟩ :: t' ++
        [⟨Activity.frames s, .left (.call callee) o, w'⟩]) := by simp
  rw [hhistory] at hpath
  exact ⟨hpath, _, _, _, hhistory.symm⟩

/-- What the search for a body may come to, and the stage of the load then. -/
def Searched (u : UnitId) (stage : Stage L) (history : List (Moment L)) (w : World L) :
    Outcome (Answer (L.Body × UInt64)) → Prop
  | .done (.ok (code, time)) => stage = .ready code time ∧ w.compiled u = some (code, time)
  | .done (.error _) => stage.isReading
  | .panic payload => stage.isReading ∧ ∃ callee, Config.Returned history callee (.panic payload)

theorem path_compile (hS : S.Suits crew names thread aside)
    (hcall : Setting.Follows crew thread aside call) {text : String}
    (hseat : Config.Seated crew thread ⟨.load k u key (.compiling time text) :: s, H, w⟩)
    (hscript : w.Script u key resource) {o : Outcome (Answer (L.Body × UInt64))}
    (h : S.runs call (.load k u key :: Activity.frames s) (Script.compile k u resource time text)
      w o w' t) :
    ∃ stage, Config.Path crew thread aside
        ⟨.load k u key (.compiling time text) :: s, H, w⟩ ⟨.load k u key stage :: s, H ++ t, w'⟩ ∧
      Searched u stage (H ++ t) w' o := by
  obtain ⟨v, o₁, v', t₁, t₂, hv, hcompile, rfl, h⟩ := Program.runs_invokeOutside_bind.1 h
  have hscript₁ := (beside_drifts hv).script u key resource hscript
  obtain ⟨hpath, hreturned⟩ := path_outside (s := .load k u key (.compiling time text) :: s)
    hcall (show Callee.IsScripted crew (.compile resource.path text) from trivial)
    (hseat.beside (beside_drifts hv))
    (.compile hscript₁) hcompile
  have hpath₁ := (Config.path_drifts hS.edited hv).trans hpath
  have hscript₂ := hpath.script hS.beside hscript₁
  cases o₁ with
  | panic payload =>
    obtain ⟨hw, rfl, rfl⟩ := h
    rw [List.append_nil]
    exact ⟨_, hpath₁.trans (Config.path_drifts hS.edited hw), rfl, _, hreturned⟩
  | done result =>
    cases result with
    | ok code =>
      obtain ⟨v₂, hv₂, h⟩ := Program.runs_modify_bind.1 h
      obtain ⟨hw, rfl, rfl⟩ := Program.runs_pure.1 h
      have hscript₃ := (beside_drifts hv₂).script u key resource hscript₂
      rw [List.append_nil]
      refine ⟨.ready code time, ?_, rfl, ?_⟩
      · exact ((hpath₁.trans (Config.path_drifts hS.edited hv₂)).tail
          (.compiled hscript₃ hreturned)).trans (Config.path_drifts hS.edited hw)
      · obtain ⟨storage, -, rfl⟩ := drifts_iff.1 hw
        exact Script.compiled hscript₃
    | error errors =>
      obtain ⟨_, v₂, t₃, t₄, hreport, hend, rfl⟩ | ⟨payload, v₂, hreport, -, -⟩ :=
        Program.runs_bind.1 h
      · obtain ⟨hv₂, rfl, -⟩ := runs_reportAll hS hreport
        obtain ⟨hw, rfl, rfl⟩ := Program.runs_pure.1 hend
        rw [List.append_nil, List.append_nil]
        exact ⟨_, (hpath₁.trans (Config.path_aside hv₂)).trans (Config.path_drifts hS.edited hw), rfl⟩
      · obtain ⟨-, -, ho⟩ := runs_reportAll hS hreport
        cases ho

theorem path_body (hS : S.Suits crew names thread aside) (hcall : Setting.Follows crew thread aside call)
    (hseat : Config.Seated crew thread ⟨.load k u key .stale :: s, H, w⟩)
    (hscript : w.Script u key resource) {o : Outcome (Answer (L.Body × UInt64))}
    (h : S.runs call (.load k u key :: Activity.frames s) (Script.body k u resource) w o w' t) :
    ∃ stage, Config.Path crew thread aside
        ⟨.load k u key .stale :: s, H, w⟩ ⟨.load k u key stage :: s, H ++ t, w'⟩ ∧
      Searched u stage (H ++ t) w' o := by
  unfold Script.body at h
  obtain ⟨v₁, hv₁, h⟩ := Program.runs_read_bind.1 h
  obtain ⟨v₂, hv₂, h⟩ := Program.runs_read_bind.1 h
  have hscript₁ := (beside_drifts hv₁).script u key resource hscript
  have hscript₂ := (beside_drifts hv₂).script u key resource hscript₁
  have hpath₂ : Config.Path crew thread aside ⟨.load k u key .stale :: s, H, w⟩
      ⟨.load k u key (.reading (v₁.storage.modified resource)) :: s, H, v₂⟩ :=
    ((Config.path_drifts hS.edited hv₁).tail (.date hscript₁)).trans
      (Config.path_drifts hS.edited hv₂)
  generalize v₁.storage.modified resource = time at h hpath₂
  cases hknown : (v₂.compiled u).filter fun c => c.2 = time with
  | some c =>
    simp only [hknown] at h
    obtain ⟨hw, rfl, rfl⟩ := Program.runs_pure.1 h
    obtain ⟨hcompiled, htime⟩ := Option.filter_eq_some_iff.1 hknown
    obtain ⟨code, time'⟩ := c
    obtain rfl : time' = time := by simpa using htime
    refine ⟨.ready code time', ?_, rfl, ?_⟩
    · rw [List.append_nil]
      exact (hpath₂.tail (.remember hcompiled)).trans (Config.path_drifts hS.edited hw)
    · obtain ⟨storage, -, rfl⟩ := drifts_iff.1 hw
      exact hcompiled
  | none =>
    simp only [hknown] at h
    obtain ⟨v₃, hv₃, h⟩ := Program.runs_transact_bind.1 h
    have hpath₃ := (hpath₂.trans (Config.path_drifts hS.edited hv₃)).tail
      (.aside (hS.asked v₃ resource))
    have hscript₃ := (hS.beside _ _ (hS.asked v₃ resource)).script u key resource
      ((beside_drifts hv₃).script u key resource hscript₂)
    generalize hv : ({ v₃ with storage := (v₃.storage.resourceExists resource).2 } : World L) = v
      at hpath₃ hscript₃ h
    cases hfound : (v₃.storage.resourceExists resource).1 with
    | false =>
      simp only [hfound, Bool.not_false, if_true] at h
      obtain ⟨v₄, hv₄, h⟩ := Program.runs_read_bind.1 h
      obtain ⟨hw, rfl, rfl⟩ := Program.runs_pure.1 h
      refine ⟨.reading time, ?_, rfl⟩
      rw [List.append_nil]
      exact hpath₃.trans (Config.path_drifts hS.edited (hv₄.trans hw))
    | true =>
      simp only [hfound, Bool.not_true, Bool.false_eq_true, if_false] at h
      obtain ⟨v₄, hv₄, h⟩ := Program.runs_read_bind.1 h
      have hpath₄ := hpath₃.trans (Config.path_drifts hS.edited hv₄)
      have hscript₄ := (beside_drifts hv₄).script u key resource hscript₃
      cases htext : v₄.storage.readText resource with
      | error cause =>
        simp only [htext] at h
        obtain ⟨hw, rfl, rfl⟩ := Program.runs_pure.1 h
        refine ⟨.reading time, ?_, rfl⟩
        rw [List.append_nil]
        exact hpath₄.trans (Config.path_drifts hS.edited hw)
      | ok text =>
        simp only [htext] at h
        have hseat₄ := Config.Path.seated hS.beside hpath₄ hseat
        have hread := hpath₄.tail (.read hscript₄ htext)
        obtain ⟨stage, hpath, hsearched⟩ := path_compile hS hcall
          (Config.Seated.stage rfl rfl hseat₄) hscript₄ h
        exact ⟨stage, hread.trans hpath, hsearched⟩

theorem Script.unitKey {w : World L} (h : w.Script u key resource) : w.unitKey u = key := by
  obtain ⟨unit, c, hunit, -, hkey, -⟩ := h
  unfold World.unitKey
  rw [hunit]
  exact hkey

theorem path_build (hS : S.Suits crew names thread aside)
    (hcall : Setting.Follows crew thread aside call)
    (hseat : Config.Seated crew thread ⟨.load k u key (.ready code time) :: s, H, w⟩)
    (hscript : w.Script u key resource) (hcompiled : w.compiled u = some (code, time))
    {o : Outcome (Answer EnvironmentId)}
    (h : S.runs call (.load k u key :: Activity.frames s) (Script.build k u resource code time)
      w o w' t) :
    ∀ v, Drifts S.edits w' v →
      Config.Path crew thread aside ⟨.load k u key (.ready code time) :: s, H, w⟩
        ⟨.load k u key (.settled o) :: s, H ++ t, v.departed k u key (Activity.script k s) o⟩ := by
  unfold Script.build at h
  obtain ⟨v₁, hv₁, h⟩ := Program.runs_transact_bind.1 h
  obtain ⟨v₂, hv₂, h⟩ := Program.runs_modify_bind.1 h
  obtain ⟨v₃, o₁, v₄, t₁, t₂, hv₃, hexecute, rfl, h⟩ := Program.runs_invokeOutside_bind.1 h
  have hscript₁ := (beside_drifts hv₁).script u key resource hscript
  have hscript₂ := (beside_drifts hv₂).script u key resource
    ((v₁.beside_addModule u resource).script u key resource hscript₁)
  have hcompiled₁ : v₁.compiled u = some (code, time) := by
    obtain ⟨storage, -, rfl⟩ := drifts_iff.1 hv₁
    exact hcompiled
  rw [Script.unitKey hscript₂, markChecked_eq] at hv₃
  change Drifts S.edits
    (v₂.modifyWorker k (Worker.marked key v₁.environments.size)) v₃ at hv₃
  change call _ (.execute code k v₁.environments.size) v₃ o₁ v₄ t₁ at hexecute
  have hpath : Config.Path crew thread aside ⟨.load k u key (.ready code time) :: s, H, w⟩
      ⟨.load k u key (.registered v₁.environments.size code time) :: s, H, v₃⟩ :=
    ((Config.path_drifts hS.edited hv₁).tail (.fill hscript₁ hcompiled₁)).trans
      (Config.path_drifts hS.edited ((drifts_after hv₂).trans hv₃))
  have hseat₃ := Config.Path.seated hS.beside hpath hseat
  have hk : crew k := (hseat.known (.load k u key (.ready code time)) List.mem_cons_self).1
  obtain ⟨hran, hreturned⟩ := path_outside
    (s := .load k u key (.filling v₁.environments.size code time) :: s)
    hcall (show Callee.IsScripted crew (.execute code k v₁.environments.size) from hk)
    (Config.Seated.stage rfl rfl hseat₃) .execute hexecute
  have hpath₄ := hpath.trans hran
  intro v hv
  cases o₁ with
  | panic payload =>
    obtain ⟨hw, rfl, rfl⟩ := h
    rw [List.append_nil]
    exact (hpath₄.trans (Config.path_drifts hS.edited (hw.trans hv))).tail (.crash rfl hreturned)
  | done answer =>
    cases answer with
    | error cause =>
      obtain ⟨hw, rfl, rfl⟩ := Program.runs_pure.1 h
      rw [List.append_nil]
      exact (hpath₄.trans (Config.path_drifts hS.edited (hw.trans hv))).tail (.fail hreturned)
    | ok value =>
      obtain ⟨v₅, hv₅, h⟩ := Program.runs_modify_bind.1 h
      obtain ⟨hw, rfl, rfl⟩ := Program.runs_pure.1 h
      rw [List.append_nil]
      have hfinish := (hpath₄.trans (Config.path_drifts hS.edited hv₅)).tail (.finish hreturned)
      exact hfinish.trans (Config.path_drifts hS.edited
        (drifts_departed (o := .done (.ok v₁.environments.size)) (hw.trans hv)))

theorem path_scriptLoad (hS : S.Suits crew names thread aside)
    (hcall : Setting.Follows crew thread aside call)
    (hseat : Config.Seated crew thread ⟨.load k u key .opened :: s, H, w⟩)
    (hscript : w.Script u key resource) {existing : Option EnvironmentId}
    (hexisting : (w.worker k).cache.get? key = existing) {o : Outcome (Answer EnvironmentId)}
    (h : S.runs call (.load k u key :: Activity.frames s) (Script.load k u resource existing)
      w o w' t) :
    ∀ v, Drifts S.edits w' v →
      Config.Path crew thread aside ⟨.load k u key .opened :: s, H, w⟩
        ⟨.load k u key (.settled o) :: s, H ++ t, v.departed k u key (Activity.script k s) o⟩ := by
  intro v hv
  unfold Script.load at h
  obtain ⟨v₁, hv₁, h⟩ := Program.runs_read_bind.1 h
  have hscript₁ := (beside_drifts hv₁).script u key resource hscript
  have hexisting₁ : (v₁.worker k).cache.get? key = existing := by
    rw [worker_drifts hv₁]
    exact hexisting
  have hpath₁ : Config.Path crew thread aside ⟨.load k u key .opened :: s, H, w⟩
      ⟨.load k u key .opened :: s, H, v₁⟩ := Config.path_drifts hS.edited hv₁
  cases hfresh : existing.filter fun env => v₁.isFresh u env with
  | some env =>
    simp only [hfresh] at h
    obtain ⟨v₂, hv₂, h⟩ := Program.runs_modify_bind.1 h
    obtain ⟨hw, rfl, rfl⟩ := Program.runs_pure.1 h
    obtain ⟨henv, hisFresh⟩ := Option.filter_eq_some_iff.1 hfresh
    have hscript₂ := (beside_drifts hv₂).script u key resource hscript₁
    rw [Script.unitKey hscript₂, markChecked_eq] at hw
    have hreuse := hpath₁.tail (.reuse (hexisting₁.trans henv) hisFresh)
    rw [List.append_nil]
    exact hreuse.trans (Config.path_drifts hS.edited
      (drifts_departed (o := .done (.ok env)) (((drifts_after hv₂).trans hw).trans hv)))
  | none =>
    simp only [hfresh] at h
    have hstale : ∀ env, (v₁.worker k).cache.get? key = some env → ¬ v₁.isFresh u env := by
      intro env henv hisFresh
      rw [hexisting₁] at henv
      rw [henv] at hfresh
      simp [hisFresh] at hfresh
    have hpath₂ := hpath₁.tail (.distrust hstale)
    have hseat₂ := Config.Path.seated hS.beside hpath₂ hseat
    obtain ⟨answer, v₂, t₁, t₂, hbody, hrest, rfl⟩ | ⟨payload, v₂, hbody, hw, rfl⟩ :=
      Program.runs_bind.1 h
    · obtain ⟨stage, hpath₃, hsearched⟩ := path_body hS hcall hseat₂ hscript₁ hbody
      have hpath := hpath₂.trans hpath₃
      cases answer with
      | error cause =>
        obtain ⟨hw, rfl, rfl⟩ := Program.runs_pure.1 hrest
        rw [List.append_nil]
        exact (hpath.trans (Config.path_drifts hS.edited (hw.trans hv))).tail (.refuse hsearched)
      | ok result =>
        obtain ⟨code, time⟩ := result
        obtain ⟨rfl, hcompiled⟩ := hsearched
        have hbuild := path_build hS hcall (Config.Path.seated hS.beside hpath hseat)
          (hpath₃.script hS.beside hscript₁) hcompiled hrest v hv
        rw [List.append_assoc] at hbuild
        exact hpath.trans hbuild
    · obtain ⟨stage, hpath₃, hreading, callee, hreturned⟩ := path_body hS hcall hseat₂ hscript₁ hbody
      have hpath := hpath₂.trans hpath₃
      exact (hpath.trans (Config.path_drifts hS.edited (hw.trans hv))).tail
        (.crash (Stage.isInside_of_isReading hreading) hreturned)

theorem path_unitLoad (hS : S.Suits crew names thread aside)
    (hcall : Setting.Follows crew thread aside call)
    (hseat : Config.Seated crew thread ⟨.load k u key .opened :: s, H, w⟩)
    (hscript : w.Script u key resource) {existing : Option EnvironmentId}
    (hexisting : (w.worker k).cache.get? key = existing) {o : Outcome (Answer EnvironmentId)}
    (h : S.runs call (.load k u key :: Activity.frames s) (ExecutableUnit.load k u existing)
      w o w' t) :
    ∀ v, Drifts S.edits w' v →
      Config.Path crew thread aside ⟨.load k u key .opened :: s, H, w⟩
        ⟨.load k u key (.settled o) :: s, H ++ t, v.departed k u key (Activity.script k s) o⟩ := by
  intro v hv
  obtain ⟨v₁, hv₁, h⟩ := Program.runs_read_bind.1 h
  have hscript₁ := (beside_drifts hv₁).script u key resource hscript
  obtain ⟨unit, c, hunit, hsource, -⟩ := id hscript₁
  simp only [hunit, Option.map_some, hsource] at h
  have hpath₁ : Config.Path crew thread aside ⟨.load k u key .opened :: s, H, w⟩
      ⟨.load k u key .opened :: s, H, v₁⟩ := Config.path_drifts hS.edited hv₁
  have hload := path_scriptLoad hS hcall (Config.Path.seated hS.beside hpath₁ hseat) hscript₁
    (by rw [worker_drifts hv₁]; exact hexisting) h v hv
  exact hpath₁.trans hload

end Bodies

/-! ## Loads -/

section Loads

variable {s : List (Activity L)} {H : List (Moment L)} {u : UnitId} {key : String}

theorem script_of_recorded {p : UnitId} {resource : Resource} {parent : Option UnitId}
    (h : (w.recorded parent u).Script p key resource) :
    ∃ unit resource c, w.units.get? p = some unit ∧ unit.source = .script resource c := by
  obtain ⟨unit, c, hunit, hsource, -⟩ := h
  cases parent with
  | none => exact ⟨unit, resource, c, hunit, hsource⟩
  | some parent =>
    change (w.units.modify parent _).get? p = some unit at hunit
    rw [Table.get?_modify] at hunit
    split at hunit
    · obtain ⟨unit', hunit', rfl⟩ := Option.map_eq_some_iff.1 hunit
      refine ⟨unit', resource, c, hunit', ?_⟩
      split at hsource <;> exact hsource
    · exact ⟨unit, resource, c, hunit, hsource⟩

theorem mem_of_script {p : UnitId} (h : Activity.script k s = some p) :
    ∃ key stage, Activity.load k p key stage ∈ s ∧ stage.isInside := by
  induction s with
  | nil => cases h
  | cons a rest ih =>
    have hrest : Activity.script k rest = some p → ∃ key stage,
        Activity.load k p key stage ∈ a :: rest ∧ stage.isInside := by
      intro hrest
      obtain ⟨key, stage, hmem, hinside⟩ := ih hrest
      exact ⟨key, stage, List.mem_cons_of_mem a hmem, hinside⟩
    cases a with
    | load j u key stage =>
      unfold Activity.script at h
      split at h
      · next hinside =>
        obtain ⟨rfl, hinside⟩ := hinside
        cases h
        exact ⟨key, stage, List.mem_cons_self, hinside⟩
      · exact hrest h
    | invoke j progression => exact hrest h
    | call callee => exact hrest h

theorem script_of_seated (hk : crew k) (hseat : Config.Seated crew thread ⟨s, H, w⟩) {p : UnitId}
    (h : Activity.script k s = some p) : ∃ key resource, w.Script p key resource := by
  obtain ⟨key, stage, hmem, -⟩ := mem_of_script h
  have hload : crew k ∧ w.Holds k p key := hseat.known _ hmem
  obtain ⟨resource, hscript⟩ := (hseat.workers k hk).scripted.script hload.2
  exact ⟨key, resource, hscript⟩

theorem runs_recordImport_bind {parent : Option UnitId} {answer : Answer EnvironmentId}
    {o : Outcome (Answer EnvironmentId)}
    (hparent : ∀ p, parent = some p → ∃ unit resource c,
      w.units.get? p = some unit ∧ unit.source = .script resource c)
    (h : S.runs call frames (Worker.recordImport parent u >>= fun _ =>
      (pure answer : Run L (Answer EnvironmentId))) w o w' t) :
    o = .done answer ∧ t = [] ∧ ∃ v, Drifts S.edits w v ∧ w' = v.recorded parent u := by
  obtain ⟨_, v, t₁, t₂, hrecord, hend, rfl⟩ | ⟨payload, v, hrecord, -, -⟩ := Program.runs_bind.1 h
  · obtain ⟨v₁, hv₁, -, rfl, rfl⟩ := Worker.runs_recordImport hparent hrecord
    obtain ⟨hw, rfl, rfl⟩ := Program.runs_pure.1 hend
    obtain ⟨v₂, hv₂, rfl⟩ := drifts_recorded hw
    exact ⟨rfl, rfl, v₂, hv₁.trans hv₂, rfl⟩
  · obtain ⟨-, -, ho, -⟩ := Worker.runs_recordImport hparent hrecord
    cases ho

theorem current_arriving (hk : crew k)
    (hseat : Config.Seated crew thread ⟨.load k u key .arriving :: s, H, w⟩) :
    (w.worker k).serializer.current = Activity.script k s := by
  rw [(hseat.workers k hk).serializer, Serializer.heldBy_current]
  change Activity.script k (.load k u key .arriving :: s) = _
  rw [Activity.script_load_outside rfl]

theorem get?_opened (hk : k < w.workers.size) :
    ((w.modifyWorker k (Worker.opened thread u key)).worker k).cache.get? key =
      ((w.worker k).entered thread).cache.get? key := by
  rw [worker_modifyWorker_self hk]
  exact ModuleCache.get?_checked ..

/-- Inside its serializer a load comes to an answer, and leaves before the import is recorded. -/
theorem path_serialLoad (hS : S.Suits crew names thread aside)
    (hcall : Setting.Follows crew thread aside call)
    (hseat : Config.Seated crew thread ⟨.load k u key .arriving :: s, H, w⟩)
    {answer : Answer EnvironmentId} {parent : Option UnitId}
    (h : S.runs call (.load k u key :: Activity.frames s)
      (Worker.serialized thread k (Worker.checkOrLoad k u key)) w (.done (answer, parent)) w' t) :
    parent = Activity.script k s ∧ ∀ v, Drifts S.edits w' v →
      Config.Path crew thread aside ⟨.load k u key .arriving :: s, H, w⟩
        ⟨.load k u key (.settled (.done answer)) :: s, H ++ t,
          v.recorded (Activity.script k s) u⟩ := by
  have hload : crew k ∧ w.Holds k u key := hseat.known (.load k u key .arriving) List.mem_cons_self
  obtain ⟨resource, hscript⟩ := (hseat.workers k hload.1).scripted.script hload.2
  obtain ⟨v₁, hv₁, -, hcases⟩ := Worker.runs_serialLoad (hseat.workers k hload.1).row h
  have hpath₁ : Config.Path crew thread aside ⟨.load k u key .arriving :: s, H, w⟩
      ⟨.load k u key .arriving :: s, H, v₁⟩ := Config.path_drifts hS.edited hv₁
  have hseat₁ := Config.Path.seated hS.beside hpath₁ hseat
  have hcurrent : (v₁.worker k).serializer.current = Activity.script k s :=
    current_arriving hload.1 hseat₁
  rw [hcurrent] at hcases
  rcases hcases with ⟨env, hpeek, ho, rfl, rfl⟩ | ⟨hpeek, o₁, w₁, v₂, hunit, hv₂, ho⟩
  · cases ho
    refine ⟨rfl, fun v hv => ?_⟩
    obtain ⟨v₃, hv₃, rfl⟩ := drifts_modifyWorker hv
    rw [List.append_nil]
    have hpeek₃ : ((v₃.worker k).entered thread).cache.peek key = some env := by
      rw [worker_drifts hv₃]
      exact hpeek
    exact (hpath₁.trans (Config.path_drifts hS.edited hv₃)).tail (.hit hpeek₃)
  · cases o₁ with
    | panic payload => cases ho.1
    | done answer' =>
      obtain ⟨ho, rfl⟩ := ho
      cases ho
      refine ⟨rfl, fun v hv => ?_⟩
      obtain ⟨v₃, hv₃, rfl⟩ := drifts_modifyWorker hv
      have hopened := hpath₁.tail (.miss hpeek)
      exact hopened.trans (path_unitLoad hS hcall (Config.Path.seated hS.beside hopened hseat)
        (Config.Path.script hS.beside hopened hscript)
        (get?_opened (hseat₁.workers k hload.1).row) hunit v₃ (hv₂.trans hv₃))

theorem path_serialLoad_panic (hS : S.Suits crew names thread aside)
    (hcall : Setting.Follows crew thread aside call)
    (hseat : Config.Seated crew thread ⟨.load k u key .arriving :: s, H, w⟩)
    {payload : Option String}
    (h : S.runs call (.load k u key :: Activity.frames s)
      (Worker.serialized thread k (Worker.checkOrLoad k u key)) w (.panic payload) w' t) :
    Config.Path crew thread aside ⟨.load k u key .arriving :: s, H, w⟩
      ⟨.load k u key (.settled (.panic payload)) :: s, H ++ t, w'⟩ := by
  have hload : crew k ∧ w.Holds k u key := hseat.known (.load k u key .arriving) List.mem_cons_self
  obtain ⟨resource, hscript⟩ := (hseat.workers k hload.1).scripted.script hload.2
  obtain ⟨v₁, hv₁, -, ⟨env, -, ho, -⟩ | ⟨hpeek, o₁, w₁, v₂, hunit, hv₂, ho⟩⟩ :=
    Worker.runs_serialLoad (hseat.workers k hload.1).row h
  · cases ho
  have hpath₁ : Config.Path crew thread aside ⟨.load k u key .arriving :: s, H, w⟩
      ⟨.load k u key .arriving :: s, H, v₁⟩ := Config.path_drifts hS.edited hv₁
  have hseat₁ := Config.Path.seated hS.beside hpath₁ hseat
  cases o₁ with
  | done answer => cases ho.1
  | panic payload' =>
    obtain ⟨ho, rfl⟩ := ho
    cases ho
    rw [current_arriving hload.1 hseat₁]
    have hopened := hpath₁.tail (.miss hpeek)
    exact hopened.trans (path_unitLoad hS hcall (Config.Path.seated hS.beside hopened hseat)
      (Config.Path.script hS.beside hopened hscript)
      (get?_opened (hseat₁.workers k hload.1).row) hunit v₂ hv₂)

theorem path_loadUnit (hS : S.Suits crew names thread aside)
    (hcall : Setting.Follows crew thread aside call)
    (hseat : Config.Seated crew thread ⟨.load k u key .arriving :: s, H, w⟩)
    {o : Outcome (Answer EnvironmentId)}
    (h : S.runs call (.load k u key :: Activity.frames s) (Worker.loadUnit thread k u) w o w' t) :
    Config.Path crew thread aside ⟨.load k u key .arriving :: s, H, w⟩
      ⟨.load k u key (.settled o) :: s, H ++ t, w'⟩ := by
  have hload : crew k ∧ w.Holds k u key := hseat.known (.load k u key .arriving) List.mem_cons_self
  obtain ⟨resource, hscript⟩ := (hseat.workers k hload.1).scripted.script hload.2
  obtain ⟨v₁, hv₁, h⟩ := Program.runs_read_bind.1 h
  have hpath₁ : Config.Path crew thread aside ⟨.load k u key .arriving :: s, H, w⟩
      ⟨.load k u key .arriving :: s, H, v₁⟩ := Config.path_drifts hS.edited hv₁
  have hseat₁ := Config.Path.seated hS.beside hpath₁ hseat
  rw [Script.unitKey (hpath₁.script hS.beside hscript)] at h
  obtain ⟨⟨answer, parent⟩, v₂, t₁, t₂, hserial, hrecord, rfl⟩ | ⟨payload, v₂, hserial, hw, rfl⟩ :=
    Program.runs_bind.1 h
  · obtain ⟨rfl, hpath⟩ := path_serialLoad hS hcall hseat₁ hserial
    have hparent : ∀ p, Activity.script k s = some p → ∃ unit resource c,
        v₂.units.get? p = some unit ∧ unit.source = .script resource c := by
      intro p hp
      have hsettled := Config.Path.seated hS.beside (hpath v₂ .refl) hseat₁
      have hp' : Activity.script k
          (.load k u key (.settled (.done answer)) :: s) = some p := by
        rw [Activity.script_load_outside rfl]
        exact hp
      obtain ⟨_, resource, hscript⟩ := script_of_seated hload.1 hsettled hp'
      exact script_of_recorded hscript
    obtain ⟨rfl, rfl, v, hv, rfl⟩ := runs_recordImport_bind hparent hrecord
    rw [List.append_nil]
    exact hpath₁.trans (hpath v hv)
  · exact (hpath₁.trans (path_serialLoad_panic hS hcall hseat₁ hserial)).trans
      (Config.path_drifts hS.edited hw)

/-- Loading by name fails to find a unit, or comes to the outcome of a load that it shows. -/
theorem loads_cases (hw : w.Scripted k) {caller : Option EnvironmentId} {name : String}
    {o : Outcome (Answer EnvironmentId)} (h : S.loads thread call frames k caller name w o w' t) :
    (∃ cause, S.runs call frames (Worker.locate k caller name) w (.done (.error cause)) w' t ∧
      o = .done (.error cause)) ∨
      ∃ u key v t', S.runs call frames (Worker.locate k caller name) w (.done (.ok u)) v [] ∧
        v.Holds k u key ∧
        S.runs call (.load k u key :: frames) (Worker.loadUnit thread k u) v o w' t' ∧
        t = ⟨frames, .entered (.load k u key), v⟩ :: t' ++
          [⟨frames, .left (.load k u key) o, w'⟩] := by
  obtain ⟨o₁, v, t₁, t₂, hlocate, hload, rfl⟩ := h
  obtain ⟨rfl, answer, rfl, hholds⟩ := locate_cases hw hlocate
  have hv : w.Beside v := beside_located hw hlocate
  cases answer with
  | error cause =>
    obtain ⟨hafter, rfl, rfl⟩ := Program.runs_pure.1 hload
    exact .inl ⟨cause, Program.Runs.before hlocate hafter, rfl⟩
  | ok u =>
    obtain ⟨key, hu⟩ := hholds u rfl
    obtain ⟨resource, hscript⟩ := (hv.scripted hw).script hu
    obtain ⟨t', hinside, rfl⟩ := hload
    rw [Script.unitKey hscript] at hinside ⊢
    exact .inr ⟨u, key, v, t', hlocate, hu, hinside, rfl⟩

theorem path_loads (hS : S.Suits crew names thread aside)
    (hcall : Setting.Follows crew thread aside call) (hk : crew k) (hs : Activity.MayLoad s)
    (hseat : Config.Seated crew thread ⟨s, H, w⟩) {caller : Option EnvironmentId} {name : String}
    (hname : names name) {o : Outcome (Answer EnvironmentId)}
    (h : S.loads thread call (Activity.frames s) k caller name w o w' t) :
    Config.Path crew thread aside ⟨s, H, w⟩ ⟨s, H ++ t, w'⟩ := by
  have hscripted := (hseat.workers k hk).scripted
  rcases loads_cases hscripted h with ⟨cause, hlocate, rfl⟩ | ⟨u, key, v, t', hlocate, hu, hload, rfl⟩
  · obtain ⟨rfl, -⟩ := locate_cases hscripted hlocate
    rw [List.append_nil]
    exact Config.path_aside (hS.located _ _ _ _ _ _ _ _ _ hk hscripted hname hlocate)
  · have hpath : Config.Path crew thread aside ⟨s, H, w⟩ ⟨s, H, v⟩ :=
      Config.path_aside (hS.located _ _ _ _ _ _ _ _ _ hk hscripted hname hlocate)
    have harrive := hpath.tail (.arrive hk hs hu)
    have hpath₁ := harrive.trans (path_loadUnit hS hcall
      (Config.Path.seated hS.beside harrive hseat) hload)
    have hleave := hpath₁.tail .leave
    simpa using hleave

end Loads

/-! ## Calls by name -/

section Invocations

variable {s : List (Activity L)} {H : List (Moment L)}

theorem path_finds (hS : S.Suits crew names thread aside)
    (hcall : Setting.Follows crew thread aside call) (hk : crew k)
    (hseat : Config.Seated crew thread ⟨.invoke k .inside :: s, H, w⟩) {module : ModuleRef}
    (hnames : ∀ name, module = .name name → names name) {o : Outcome (Answer EnvironmentId)}
    (h : S.finds thread call (.invoke k :: Activity.frames s) k module w o w' t) :
    Config.Path crew thread aside
      ⟨.invoke k .inside :: s, H, w⟩ ⟨.invoke k .inside :: s, H ++ t, w'⟩ := by
  cases module with
  | environment env =>
    obtain ⟨hw, rfl, rfl⟩ := h
    rw [List.append_nil]
    exact Config.path_drifts hS.edited hw
  | name name =>
    exact path_loads (s := .invoke k .inside :: s) hS hcall hk trivial hseat (hnames name rfl) h

theorem runs_findFunction {env : EnvironmentId} {function : FunctionRef}
    {o : Outcome (Answer FunctionId)}
    (h : S.runs call frames (Worker.findFunction env function) w o w' t) :
    Drifts S.edits w w' ∧ t = [] ∧ ∃ answer, o = .done answer := by
  cases function with
  | callable function name =>
    obtain ⟨hw, rfl, rfl⟩ := h
    exact ⟨hw, rfl, _, rfl⟩
  | name name =>
    obtain ⟨v, v', hv, hmove, hw, rfl, rfl⟩ := h
    cases hmove
    exact ⟨hv.trans hw, rfl, _, rfl⟩

theorem path_callFunction (hS : S.Suits crew names thread aside)
    (hcall : Setting.Follows crew thread aside call)
    (hseat : Config.Seated crew thread ⟨.invoke k .inside :: s, H, w⟩) {env : EnvironmentId}
    {function : FunctionId} {args : List Value} {o : Outcome (Answer Value)}
    (h : S.runs call (.invoke k :: Activity.frames s)
      (Worker.callFunction thread k env function args) w o w' t) :
    Config.Path crew thread aside
      ⟨.invoke k .inside :: s, H, w⟩ ⟨.invoke k .inside :: s, H ++ t, w'⟩ := by
  have hk : crew k := hseat.known (.invoke k .inside) List.mem_cons_self
  obtain ⟨v₁, hv₁, h⟩ := Program.runs_read_bind.1 h
  have hpath₁ : Config.Path crew thread aside ⟨.invoke k .inside :: s, H, w⟩
      ⟨.invoke k .inside :: s, H, v₁⟩ := Config.path_drifts hS.edited hv₁
  cases hclosure : v₁.functions.get? function with
  | none =>
    simp only [hclosure] at h
    obtain ⟨hw, rfl, rfl⟩ := Program.runs_pure.1 h
    rw [List.append_nil]
    exact hpath₁.trans (Config.path_drifts hS.edited hw)
  | some closure =>
    simp only [hclosure] at h
    obtain ⟨v₂, hv₂, h⟩ := Program.runs_transact_bind.1 h
    obtain ⟨o₁, v₃, t₁, t₂, hrun, hend, rfl⟩ := Program.runs_thenOutcome.1 h
    obtain ⟨v₄, o₂, v₅, t₃, t₄, hv₄, hclosed, ⟨hv₅, rfl, rfl⟩, rfl⟩ := hrun
    obtain ⟨v₆, hv₆, hw, rfl, rfl⟩ := Program.runs_modify_bind.1 hend
    have hpath₂ := (hpath₁.trans (Config.path_drifts hS.edited hv₂)).tail
      (.aside (hS.activated v₂ (some k)))
    have hpath₃ := hpath₂.trans (Config.path_drifts hS.edited hv₄)
    obtain ⟨hran, -⟩ := path_outside (s := .invoke k .inside :: s)
      hcall (show Callee.IsScripted crew (.call closure k env args) from hk)
      (Config.Path.seated hS.beside hpath₃ hseat)
      .call hclosed
    have hpath₄ := (hpath₃.trans hran).trans (Config.path_drifts hS.edited (hv₅.trans hv₆))
    rw [List.append_nil, List.append_nil]
    exact (hpath₄.tail (.aside (hS.activated v₆ _))).trans (Config.path_drifts hS.edited hw)

theorem path_callNamed (hS : S.Suits crew names thread aside)
    (hcall : Setting.Follows crew thread aside call)
    (hseat : Config.Seated crew thread ⟨.invoke k .inside :: s, H, w⟩) {env : EnvironmentId}
    {function : FunctionRef} {args : List Value} {o : Outcome (Answer Value)}
    (h : S.runs call (.invoke k :: Activity.frames s)
      (Worker.callNamed thread k env function args) w o w' t) :
    Config.Path crew thread aside
      ⟨.invoke k .inside :: s, H, w⟩ ⟨.invoke k .inside :: s, H ++ t, w'⟩ := by
  obtain ⟨answer, v₁, t₁, t₂, hfind, hcalled, rfl⟩ | ⟨payload, v₁, hfind, -, -⟩ :=
    Program.runs_bind.1 h
  case inr =>
    obtain ⟨-, -, answer, ho⟩ := runs_findFunction hfind
    cases ho
  case inl =>
  obtain ⟨hv₁, rfl, -⟩ := runs_findFunction hfind
  have hpath₁ : Config.Path crew thread aside ⟨.invoke k .inside :: s, H, w⟩
      ⟨.invoke k .inside :: s, H, v₁⟩ := Config.path_drifts hS.edited hv₁
  have hseat₁ := Config.Path.seated hS.beside hpath₁ hseat
  cases answer with
  | error cause =>
    obtain ⟨hw, rfl, rfl⟩ := Program.runs_pure.1 hcalled
    rw [List.append_nil, List.append_nil]
    exact hpath₁.trans (Config.path_drifts hS.edited hw)
  | ok f =>
    obtain ⟨answer, v₂, t₃, t₄, hfunction, hend, rfl⟩ | ⟨payload, v₂, hfunction, hw, rfl⟩ :=
      Program.runs_bind.1 hcalled
    · obtain ⟨hw, rfl, rfl⟩ := Program.runs_pure.1 hend
      rw [List.append_nil]
      exact (hpath₁.trans (path_callFunction hS hcall hseat₁ hfunction)).trans
        (Config.path_drifts hS.edited hw)
    · exact (hpath₁.trans (path_callFunction hS hcall hseat₁ hfunction)).trans
        (Config.path_drifts hS.edited hw)

theorem path_invoked (hS : S.Suits crew names thread aside)
    (hcall : Setting.Follows crew thread aside call) (hk : crew k)
    (hseat : Config.Seated crew thread ⟨.invoke k .inside :: s, H, w⟩) {module : ModuleRef}
    (hnames : ∀ name, module = .name name → names name) {function : FunctionRef}
    {args : List Value} {o : Outcome (Answer Value)}
    (h : (S.finds thread call (.invoke k :: Activity.frames s) k module).bind (fun
      | .error cause => S.runs call (.invoke k :: Activity.frames s) (pure (.error cause))
      | .ok env => S.runs call (.invoke k :: Activity.frames s)
          (Worker.callNamed thread k env function args)) w o w' t) :
    Config.Path crew thread aside
      ⟨.invoke k .inside :: s, H, w⟩ ⟨.invoke k .inside :: s, H ++ t, w'⟩ := by
  obtain ⟨o₁, v, t₁, t₂, hfinds, hrest, rfl⟩ := h
  have hpath := path_finds hS hcall hk hseat hnames hfinds
  have hseat₁ := Config.Path.seated hS.beside hpath hseat
  cases o₁ with
  | panic payload =>
    obtain ⟨rfl, rfl, rfl⟩ := hrest
    rw [List.append_nil]
    exact hpath
  | done answer =>
    cases answer with
    | error cause =>
      obtain ⟨hw, rfl, rfl⟩ := Program.runs_pure.1 hrest
      rw [List.append_nil]
      exact hpath.trans (Config.path_drifts hS.edited hw)
    | ok env =>
      have hnamed := path_callNamed hS hcall hseat₁ hrest
      rw [List.append_assoc] at hnamed
      exact hpath.trans hnamed

theorem path_invokes (hS : S.Suits crew names thread aside)
    (hcall : Setting.Follows crew thread aside call) (hk : crew k) (hs : Activity.MayCall s)
    (hseat : Config.Seated crew thread ⟨s, H, w⟩) {module : ModuleRef}
    (hnames : ∀ name, module = .name name → names name) {function : FunctionRef} {args : List Value} {o : Outcome (Answer Value)}
    (h : S.invokes thread call (Activity.frames s) k module function args w o w' t) :
    Config.Path crew thread aside ⟨s, H, w⟩ ⟨s, H ++ t, w'⟩ := by
  obtain ⟨t', ⟨o₁, v₁, t₁, t₂, henter, hrest, rfl⟩, rfl⟩ := h
  obtain ⟨v, guard, hv, -, rfl, rfl, rfl⟩ := Worker.runs_enter (hseat.workers k hk).row henter
  obtain ⟨o₂, v₂, t₃, t₄, hinvoked, ⟨o₃, v₃, t₅, t₆, hleave, hend, rfl⟩, rfl⟩ := hrest
  obtain ⟨v₄, v₅, hv₄, hmove, hv₃, rfl, rfl⟩ := hleave
  cases hmove
  obtain ⟨hw, rfl, rfl⟩ := hend
  have henter : Config.Path crew thread aside ⟨s, H, w⟩ ⟨.invoke k .inside :: s,
      H ++ [⟨Activity.frames s, .entered (.invoke k), w⟩], v.entered thread k⟩ :=
    ((ReflTransGen.single (.arriveInvoke hk hs)).trans (Config.path_drifts hS.edited hv)).tail
      .enterInvoke
  have hpath := (henter.trans (path_invoked hS hcall hk
    (Config.Path.seated hS.beside henter hseat) hnames hinvoked)).trans (Config.path_drifts hS.edited hv₄)
  have hsettled := (hpath.tail .settleInvoke).trans (Config.path_drifts hS.edited (hv₃.trans hw))
  have hleave : Config.Step crew thread aside
      ⟨.invoke k .settled :: s, H ++ [⟨Activity.frames s, .entered (.invoke k), w⟩] ++ t₃, w'⟩
      ⟨s, H ++ [⟨Activity.frames s, .entered (.invoke k), w⟩] ++ t₃ ++
        [⟨Activity.frames s, .left (.invoke k) o, w'⟩], w'⟩ := .leaveInvoke
  have hleft := hsettled.tail hleave
  simpa using hleft

end Invocations

/-! ## Code from outside -/

section Code

variable {s : List (Activity L)} {H : List (Moment L)}

theorem path_answers (hS : S.Suits crew names thread aside)
    (hcall : Setting.Follows crew thread aside call)
    (hseat : Config.Seated crew thread ⟨s, H, w⟩) {request : Request L}
    (hrequest : request.CallsOn crew names ∧ Activity.MayCall s ∨
      request.IsPlain ∧ S.AnswersWithin thread aside request)
    {o : Outcome request.Reply}
    (h : S.answers thread call (Activity.frames s) request w o w' t) :
    Config.Path crew thread aside ⟨s, H, w⟩ ⟨s, H ++ t, w'⟩ := by
  rcases hrequest with ⟨hon, hmay⟩ | ⟨hplain, hwithin⟩
  · have hload : Activity.MayLoad s := by
      cases s with
      | nil => trivial
      | cons a rest => cases a <;> first | exact hmay | exact hmay.elim
    cases request with
    | loadModule j caller name => exact path_loads hS hcall hon.1 hload hseat hon.2 h
    | invoke j module function args => exact path_invokes hS hcall hon.1 hmay hseat hon.2 h
    | resolve j caller name =>
      have hscripted := (hseat.workers j hon.1).scripted
      obtain ⟨rfl, -⟩ := locate_cases hscripted h
      rw [List.append_nil]
      exact Config.path_aside (hS.located _ _ _ _ _ _ _ _ _ hon.1 hscripted hon.2 h)
    | _ => exact hon.elim
  · have hrun : S.runs call (Activity.frames s) (S.interpreter.answer thread request) w o w' t := by
      cases request with
      | loadModule j caller name => exact hplain.elim
      | invoke j module function args => exact hplain.elim
      | _ => exact h
    obtain ⟨hw, rfl⟩ := hwithin _ _ _ _ _ _ hrun
    rw [List.append_nil]
    exact Config.path_aside hw

theorem path_plays (hS : S.Suits crew names thread aside)
    (hcall : Setting.Follows crew thread aside call) {code : Code L α}
    (hcode : code.Only fun request => request.CallsOn crew names ∧ Activity.MayCall s ∨
      request.IsPlain ∧ S.AnswersWithin thread aside request)
    (hseat : Config.Seated crew thread ⟨s, H, w⟩) {o : Outcome α}
    (h : code.Plays (Edited S.edits) (S.answers thread call (Activity.frames s)) w o w' t) :
    Config.Path crew thread aside ⟨s, H, w⟩ ⟨s, H ++ t, w'⟩ := by
  induction code generalizing H w t with
  | ended outcome =>
    obtain ⟨hw, -, rfl⟩ := h
    rw [List.append_nil]
    exact Config.path_drifts hS.edited hw
  | ask request next ih =>
    obtain ⟨o₁, v, t₁, t₂, hanswer, hrest, rfl⟩ := h
    have hpath := path_answers hS hcall hseat hcode.1 hanswer
    have hnext := ih o₁ (hcode.2 o₁) (Config.Path.seated hS.beside hpath hseat) hrest
    rw [List.append_assoc] at hnext
    exact hpath.trans hnext

theorem Code.Only.mono {P Q : Request L → Prop} (hPQ : ∀ request, P request → Q request)
    {code : Code L α} (h : code.Only P) : code.Only Q := by
  induction code with
  | ended outcome => trivial
  | ask request next ih => exact ⟨hPQ request h.1, fun outcome => ih outcome (h.2 outcome)⟩

theorem Code.Only.bind {β : Type} {P : Request L → Prop} {code : Code L α} {f : α → Code L β}
    (h : code.Only P) (hf : ∀ a, (f a).Only P) : (code >>= f).Only P := by
  change (code.bind f).Only P
  induction code with
  | ended outcome =>
    cases outcome with
    | done a => exact hf a
    | panic payload => trivial
  | ask request next ih => exact ⟨h.1, fun outcome => ih outcome (h.2 outcome)⟩

theorem Code.only_request {P : Request L → Prop} {request : Request L} (h : P request) :
    (Code.request request).Only P := ⟨h, fun _ => trivial⟩

/-- Code from outside goes along steps, however deep its calls are nested. -/
theorem follows_calls (hS : S.Suits crew names thread aside) (depth : Nat) :
    Setting.Follows crew thread aside (S.calls thread depth) := by
  induction depth with
  | zero =>
    intro s H w callee o w' t _ _ h
    exact h.elim
  | succ depth ih =>
    intro s H w callee o w' t hcallee hseat h
    obtain ⟨t', hplays, rfl⟩ := h
    refine ⟨t', rfl, ?_⟩
    have hpushed : Config.Seated crew thread ⟨.call callee :: s,
        H ++ [⟨Activity.frames s, .entered (.call callee), w⟩], w⟩ :=
      hseat.push trivial (fun _ => Activity.depth_call) fun _ => rfl
    refine path_plays (s := .call callee :: s) hS ih ?_ hpushed hplays
    cases callee with
    | compile path source => exact (hS.compiling path source).mono fun _ h => .inr h
    | execute body k env =>
      exact (hS.executing body k env hcallee).mono fun _ h => h.imp_left fun hon => ⟨hon, trivial⟩
    | call closure k this args =>
      exact (hS.calling closure k this args hcallee).mono fun _ h => h.imp_left fun hon => ⟨hon, trivial⟩
    | _ => exact hcallee.elim

end Code

end Runs

end ScriptWorker
