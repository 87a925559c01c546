import ScriptWorker.Proofs.Loading.Paths

/-!
# Requests that leave workers alone

Most of what running code can ask for changes no worker. Such a request is answered in steps that all
are moves of one kind.
-/

namespace ScriptWorker

open Relation World

namespace Program

variable {ω κ ε : Type} {ρ : κ → Type} {α β : Type} {R : ω → ω → Prop}

/-- A program that calls no code from outside and whose steps are all of a kind. -/
def Moves (R : ω → ω → Prop) : Program ω κ ρ α → Prop
  | ended _ => True
  | step move next => ∀ w, (∀ w', move w = some w' → R w w') ∧ (next w).Moves R
  | .call _ _ => False

theorem Moves.thenOutcome {p : Program ω κ ρ β} {f : Outcome β → Program ω κ ρ α}
    (hp : p.Moves R) (hf : ∀ o, (f o).Moves R) : (p.thenOutcome f).Moves R := by
  induction p with
  | ended outcome => exact hf outcome
  | step move next ih => exact fun w => ⟨(hp w).1, ih w (hp w).2⟩
  | call callee next ih => exact hp.elim

theorem Moves.bind {p : Program ω κ ρ β} {f : β → Program ω κ ρ α} (hp : p.Moves R)
    (hf : ∀ b, (f b).Moves R) : (p >>= f).Moves R := by
  apply hp.thenOutcome
  intro o
  cases o with
  | done b => exact hf b
  | panic payload => trivial

theorem moves_read (hR : ∀ w, R w w) (f : ω → α) : (read f : Program ω κ ρ α).Moves R := by
  intro w
  refine ⟨fun w' hw => ?_, trivial⟩
  cases hw
  exact hR w

theorem moves_modify {f : ω → ω} (hf : ∀ w, R w (f w)) :
    (modify f : Program ω κ ρ Unit).Moves R := by
  intro w
  refine ⟨fun w' hw => ?_, trivial⟩
  cases hw
  exact hf w

theorem moves_transact {f : ω → α × ω} (hf : ∀ w, R w (f w).2) :
    (transact f : Program ω κ ρ α).Moves R := by
  intro w
  refine ⟨fun w' hw => ?_, trivial⟩
  cases hw
  exact hf w

theorem moves_await {f : ω → Option (α × ω)} (hf : ∀ w a w', f w = some (a, w') → R w w') :
    (await f : Program ω κ ρ α).Moves R := by
  intro w
  refine ⟨fun w' hw => ?_, ?_⟩
  · obtain ⟨⟨a, v⟩, hfound, rfl⟩ := Option.map_eq_some_iff.1 hw
    exact hf w a v hfound
  · dsimp only
    split <;> trivial

theorem Moves.runs {others : ω → ω → Prop}
    {call : (callee : κ) → ω → Outcome (ρ callee) → ω → List ε → Prop}
    (hothers : ∀ w w', others w w' → R w w') {p : Program ω κ ρ α} (hp : p.Moves R) {w w' : ω}
    {o : Outcome α} {t : List ε} (h : p.Runs others call w o w' t) :
    ReflTransGen R w w' ∧ t = [] := by
  induction p generalizing w t with
  | ended outcome => exact ⟨ReflTransGen.mono hothers _ _ h.1, h.2.2⟩
  | step move next ih =>
    obtain ⟨v, v', hv, hmove, hrest⟩ := h
    obtain ⟨hv', ht⟩ := ih v (hp v).2 hrest
    have hto := (ReflTransGen.mono hothers _ _ hv).tail ((hp v).1 v' hmove)
    exact ⟨hto.trans hv', ht⟩
  | call callee next ih => exact hp.elim

end Program

variable {L : Language} {R : World L → World L → Prop}

theorem moves_perform {σ ρ : Type} [Staged σ ρ] (hR : ∀ w s, R w (w.withScheduler s)) (x : σ) :
    (perform x : Run L ρ).Moves R := by
  rw [perform]
  intro w
  constructor
  · intro w' hmove
    dsimp only [World.afterStage] at hmove
    split at hmove <;> cases hmove <;> exact hR w _
  · dsimp only
    split
    · trivial
    · next hnext => exact moves_perform hR _
    · trivial
    · trivial
termination_by Staged.rank x
decreasing_by exact Staged.rank_lt _ _ _ _ ‹_›

namespace World

/-- What changes no worker, no unit, no stamp and no time of a source. -/
structure Apart (w w' : World L) : Prop where
  beside : w.Beside w'
  units : ∀ u unit, w.units.get? u = some unit → w'.units.get? u = some unit
  newcomers : ∀ u unit, w'.units.get? u = some unit → w.units.get? u = some unit ∨
    unit.dependencies = Dictionary.empty ∧ ∃ resource, unit.source = .script resource none
  known : ∀ k u key, w'.Holds k u key → w.Holds k u key ∨ w.units.size ≤ u
  stamps : ∀ env, env < w.environments.size →
    (w'.environment env).checksum = (w.environment env).checksum ∧
      (w'.environment env).kind = (w.environment env).kind
  modified : ∀ resource, w'.storage.modified resource = w.storage.modified resource

theorem beside_of_eq {w w' : World L} (hsize : w'.workers.size = w.workers.size)
    (hworkers : ∀ k, (w'.worker k).cache = (w.worker k).cache ∧
      (w'.worker k).serializer = (w.worker k).serializer ∧
      (w'.worker k).config = (w.worker k).config ∧
      (w'.worker k).resolver = (w.worker k).resolver)
    (hunits : w'.units = w.units) (hresolvers : w'.resolvers = w.resolvers)
    (henvironments : w.environments.size ≤ w'.environments.size) : w.Beside w' where
  size := hsize
  cache k := (hworkers k).1
  serializer k := (hworkers k).2.1
  config k := (hworkers k).2.2.1
  resolver k := (hworkers k).2.2.2
  script u key resource h := by
    obtain ⟨unit, c, hunit, hrest⟩ := h
    exact ⟨unit, c, hunits ▸ hunit, hrest⟩
  scripts k scripts h := by
    refine ⟨scripts, ?_, fun _ _ h => h, fun _ _ h => .inl h⟩
    unfold World.scripts scriptsOf workerResolver at h ⊢
    rw [hresolvers, (hworkers k).2.2.2]
    exact h
  environments := henvironments

/-- What moreover changes no unit and no resolver, and lets imports start from nowhere else. -/
structure Still (w w' : World L) : Prop where
  beside : w.Beside w'
  units : w'.units = w.units
  resolvers : w'.resolvers = w.resolvers
  stamps : ∀ env, env < w.environments.size →
    (w'.environment env).checksum = (w.environment env).checksum ∧
      (w'.environment env).kind = (w.environment env).kind
  scopes : ∀ env repository, (w'.environment env).repository = some repository →
    (w.environment env).repository = some repository
  stores : w'.storage.stores = w.storage.stores
  files : w'.storage.files = w.storage.files

theorem Still.apart {w w' : World L} (h : w.Still w') : w.Apart w' where
  beside := h.beside
  units u unit hunit := h.units ▸ hunit
  newcomers u unit hunit := .inl (h.units ▸ hunit)
  known k u key hu := by
    unfold Holds scripts scriptsOf at hu ⊢
    rw [h.resolvers, h.beside.resolver] at hu
    exact .inl hu
  stamps := h.stamps
  modified resource := by
    unfold Storage.modified Storage.storeModified
    rw [h.stores, h.files]

theorem Apart.units_size {w w' : World L} (h : w.Apart w') : w.units.size ≤ w'.units.size := by
  refine Nat.le_of_not_lt fun hlt => ?_
  have hunit : w.units.get? w'.units.size = some w.units.rows[w'.units.size] :=
    List.getElem?_eq_getElem hlt
  exact Nat.lt_irrefl _ (List.getElem?_eq_some_iff.1 (h.units _ _ hunit)).1

theorem Apart.trans {w v u : World L} (h : w.Apart v) (h' : v.Apart u) : w.Apart u where
  beside := h.beside.trans h'.beside
  units p unit hunit := h'.units p unit (h.units p unit hunit)
  newcomers p unit hunit := by
    rcases h'.newcomers p unit hunit with hbefore | hnew
    · exact h.newcomers p unit hbefore
    · exact .inr hnew
  known k p key hp := by
    rcases h'.known k p key hp with hbefore | hnew
    · exact h.known k p key hbefore
    · exact .inr (Nat.le_trans h.units_size hnew)
  stamps env henv := by
    have hafter := h'.stamps env (Nat.lt_of_lt_of_le henv h.beside.environments)
    have hbefore := h.stamps env henv
    exact ⟨hafter.1.trans hbefore.1, hafter.2.trans hbefore.2⟩
  modified resource := (h'.modified resource).trans (h.modified resource)

theorem still_of_same {w w' : World L} (hworkers : w'.workers = w.workers)
    (hunits : w'.units = w.units) (hresolvers : w'.resolvers = w.resolvers)
    (henvironments : w'.environments = w.environments)
    (hstores : w'.storage.stores = w.storage.stores) (hfiles : w'.storage.files = w.storage.files) :
    w.Still w' := by
  have hrow : ∀ k, w'.worker k = w.worker k := by
    intro k
    unfold worker
    rw [hworkers]
  have henvironment : ∀ env, w'.environment env = w.environment env := by
    intro env
    unfold environment
    rw [henvironments]
  refine ⟨beside_of_eq (by rw [hworkers]) (fun k => ?_) hunits hresolvers
    (Nat.le_of_eq (by rw [henvironments])), hunits, hresolvers, fun env _ => ?_,
    fun env repository h => ?_, hstores, hfiles⟩
  · rw [hrow]
    exact ⟨rfl, rfl, rfl, rfl⟩
  · rw [henvironment]
    exact ⟨rfl, rfl⟩
  · rw [henvironment] at h
    exact h

theorem still_refl (w : World L) : w.Still w := still_of_same rfl rfl rfl rfl rfl rfl

theorem apart_chain {w v : World L} (h : ReflTransGen Apart w v) : w.Apart v := by
  induction h with
  | refl => exact w.still_refl.apart
  | tail _ hstep ih => exact ih.trans hstep

theorem still_addEnvironment (w : World L) {e : Environment} (he : e.repository = none) :
    w.Still (w.addEnvironment e).2 := by
  refine ⟨w.beside_addEnvironment e, rfl, rfl, fun env henv => ?_, fun env repository h => ?_,
    rfl, rfl⟩
  · unfold environment addEnvironment
    rw [Table.get?_push, if_neg (Nat.ne_of_lt henv)]
    exact ⟨rfl, rfl⟩
  · unfold environment addEnvironment at h
    rw [Table.get?_push] at h
    split at h
    · change e.repository = some repository at h
      rw [he] at h
      cases h
    · exact h

theorem still_setProperty (w : World L) (env : EnvironmentId) (name : String) (value : Value) :
    w.Still (w.setProperty env name value) := by
  have hsame : ∀ env', (((w.setProperty env name value).environment env').checksum =
        (w.environment env').checksum ∧
      ((w.setProperty env name value).environment env').kind = (w.environment env').kind) ∧
      ((w.setProperty env name value).environment env').repository =
        (w.environment env').repository := by
    intro env'
    unfold environment setProperty
    rw [Table.get?_modify]
    split
    · cases w.environments.get? env' <;> exact ⟨⟨rfl, rfl⟩, rfl⟩
    · exact ⟨⟨rfl, rfl⟩, rfl⟩
  refine ⟨?_, rfl, rfl, fun env' _ => (hsame env').1, fun env' repository h => ?_, rfl, rfl⟩
  · exact beside_of_eq rfl (fun _ => ⟨rfl, rfl, rfl, rfl⟩) rfl rfl (by simp [setProperty])
  · rw [(hsame env').2] at h
    exact h

theorem still_reportError (w : World L) (k : WorkerId) (error : SyntaxError) :
    w.Still (w.reportError k error) := by
  refine ⟨beside_of_eq (by simp [reportError]) (fun j => ?_) rfl rfl (Nat.le_refl _), rfl, rfl,
    fun _ _ => ⟨rfl, rfl⟩, fun _ _ h => h, rfl, rfl⟩
  unfold reportError
  rw [worker_modifyWorker]
  split
  · next h =>
    rw [h.1]
    exact ⟨rfl, rfl, rfl, rfl⟩
  · exact ⟨rfl, rfl, rfl, rfl⟩

theorem still_setActive (w : World L) (thread : ThreadId) (k : Option WorkerId) :
    w.Still (w.setActive thread k) := by
  cases k <;> exact still_of_same rfl rfl rfl rfl rfl rfl

theorem still_existence (w : World L) (existence : Table (Option Bool)) :
    w.Still { w with storage := { w.storage with existence := existence } } :=
  still_of_same rfl rfl rfl rfl rfl rfl

end World

namespace Request

def LeavesModules : Request L → Prop
  | .stamp .. => False
  | .recordDependency .. => False
  | .edit .. => False
  | .loadModule .. => False
  | .invoke .. => False
  | .evaluate .. => False
  | .resolve .. => False
  | .markChecked .. => False
  | _ => True

/-- A request that touches no module, no unit and no source, and that need not wait for anyone. -/
def IsPrompt : Request L → Prop
  | .currentScript .. => False
  | .schedule .. => False
  | .cancel .. => False
  | .cancelOn .. => False
  | .sleep .. => False
  | .effect .. => False
  | request => request.LeavesModules

def LeavesWorkers : Request L → Prop
  | .loadModule .. => False
  | .invoke .. => False
  | .evaluate .. => False
  | .resolve .. => False
  | .markChecked .. => False
  | _ => True

end Request

section Answers

variable {interpreter : Interpreter L} {thread : ThreadId}

theorem moves_waitAtMost (hR : ∀ w alarms, R w { w with alarms := alarms }) (length : Duration)
    {α : Type} (test : World L → Option α) : (waitAtMost length test).Moves R := by
  refine Program.Moves.bind (Program.moves_transact fun w => hR w _) fun deadline =>
    Program.moves_await fun w a w' hfound => ?_
  split at hfound
  · cases hfound
    exact hR w _
  · split at hfound
    · cases hfound
      exact hR w _
    · cases hfound

theorem moves_schedule (hjobs : ∀ w jobs, R w { w with jobs := jobs })
    (hscheduler : ∀ w s, R w (w.withScheduler s)) (k : WorkerId) (module : ModuleRef)
    (function : FunctionRef) (args : List Value) (timing : Timing) :
    (Worker.schedule k module function args timing : Run L (Answer TaskId)).Moves R := by
  refine Program.Moves.bind (Program.moves_transact fun w => hjobs w _) fun job => ?_
  exact Program.Moves.bind (moves_perform hscheduler _) fun _ => trivial

theorem moves_answer {request : Request L} (h : request.LeavesModules) :
    (interpreter.answer thread request).Moves World.Still := by
  have hscheduler : ∀ (w : World L) s, w.Still (w.withScheduler s) :=
    fun w s => still_of_same rfl rfl rfl rfl rfl rfl
  cases request with
  | setProperty env name value => exact Program.moves_modify fun w => w.still_setProperty env name value
  | newModule name key => exact Program.moves_transact fun w => w.still_addEnvironment rfl
  | newFunction name closure =>
    exact Program.moves_transact fun w => still_of_same rfl rfl rfl rfl rfl rfl
  | newWrapper inner => exact Program.moves_transact fun w => still_of_same rfl rfl rfl rfl rfl rfl
  | newHostObject payload => exact Program.moves_transact fun w => still_of_same rfl rfl rfl rfl rfl rfl
  | report k error => exact Program.moves_modify fun w => w.still_reportError k error
  | currentScript k =>
    refine Program.moves_await fun w a w' hfound => ?_
    obtain ⟨script, -, hpair⟩ := Option.map_eq_some_iff.1 hfound
    cases hpair
    exact w.still_refl
  | schedule k module function args timing =>
    exact moves_schedule (fun w jobs => still_of_same rfl rfl rfl rfl rfl rfl) hscheduler k module
      function args timing
  | cancel k task =>
    exact Program.Moves.bind (Program.moves_read still_refl _) fun _ => moves_perform hscheduler _
  | cancelOn l task =>
    exact Program.Moves.bind (Program.moves_read still_refl _) fun _ => moves_perform hscheduler _
  | sleep length =>
    exact Program.Moves.bind
      (moves_waitAtMost (fun w alarms => still_of_same rfl rfl rfl rfl rfl rfl) length _) fun _ => trivial
  | effect effect =>
    refine Program.moves_await fun w a w' hfound => ?_
    obtain ⟨⟨notice, state⟩, -, hpair⟩ := Option.map_eq_some_iff.1 hfound
    cases hpair
    exact still_of_same rfl rfl rfl rfl rfl rfl
  | stamp env sum => exact h.elim
  | recordDependency u dependency => exact h.elim
  | edit repository change => exact h.elim
  | loadModule k caller name => exact h.elim
  | invoke k module function args => exact h.elim
  | evaluate k u env => exact h.elim
  | resolve k caller name => exact h.elim
  | markChecked k key env => exact h.elim
  | _ => exact Program.moves_read still_refl _

theorem Request.IsPlain.of_leavesWorkers {request : Request L} (h : request.LeavesWorkers) :
    request.IsPlain := by
  cases request <;> first | exact h.elim | trivial

theorem Request.LeavesModules.leavesWorkers {request : Request L} (h : request.LeavesModules) :
    request.LeavesWorkers := by
  cases request <;> first | exact h.elim | trivial

theorem Request.IsPrompt.leavesModules {request : Request L} (h : request.IsPrompt) :
    request.LeavesModules := by
  cases request <;> first | exact h.elim | exact h

theorem Program.Moves.mono {α : Type} {R R' : World L → World L → Prop}
    (hR : ∀ w w', R w w' → R' w w') {p : Run L α} (h : p.Moves R) : p.Moves R' := by
  induction p with
  | ended outcome => trivial
  | step move next ih => exact fun w => ⟨fun w' hw => hR _ _ ((h w).1 w' hw), ih w (h w).2⟩
  | call callee next ih => exact h.elim

theorem moves_edit (hstorage : ∀ w storage, R w { w with storage := storage })
    (repository : Repository) (change : StoreEdit) :
    (repository.edit change : Run L Bool).Moves R := by
  cases repository with
  | files directory => trivial
  | memory store name directory =>
    cases change with
    | insert path content =>
      exact Program.Moves.bind (Program.moves_modify fun w => hstorage w _) fun _ =>
        Program.Moves.bind (Program.moves_modify fun w => hstorage w _) fun _ => trivial
    | remove path =>
      refine Program.Moves.bind (Program.moves_transact fun w => hstorage w _) fun removed => ?_
      cases removed with
      | false => trivial
      | true => exact Program.Moves.bind (Program.moves_modify fun w => hstorage w _) fun _ => trivial
    | touch => exact Program.Moves.bind (Program.moves_modify fun w => hstorage w _) fun _ => trivial

theorem moves_answer_beside {request : Request L} (h : request.LeavesWorkers) :
    (interpreter.answer thread request).Moves World.Beside := by
  by_cases hmodules : request.LeavesModules
  · exact (moves_answer hmodules).mono fun w w' hw => hw.beside
  · cases request with
    | stamp env sum => exact Program.moves_modify fun w => w.beside_stamp env sum
    | recordDependency u dependency =>
      exact Program.moves_modify fun w => w.beside_recordDependency u dependency
    | edit repository change =>
      exact moves_edit
        (fun w storage => beside_of_eq rfl (fun _ => ⟨rfl, rfl, rfl, rfl⟩) rfl rfl (Nat.le_refl _))
        repository change
    | _ => first | exact h.elim | exact (hmodules trivial).elim

end Answers

/-- Scripts call on the workers of a crew only, compilers call on none, and what else they ask for is
of a kind. -/
structure Interpreter.Scripting (interpreter : Interpreter L) (crew : WorkerId → Prop)
    (names : String → Prop) (plain : Request L → Prop) : Prop where
  compiling : ∀ path source, (interpreter.code (.compile path source)).Only plain
  executing : ∀ body k env, crew k → (interpreter.code (.execute body k env)).Only
    fun request => request.CallsOn crew names ∨ plain request
  calling : ∀ closure k this args, crew k → (interpreter.code (.call closure k this args)).Only
    fun request => request.CallsOn crew names ∨ plain request

theorem Interpreter.Scripting.mono {interpreter : Interpreter L} {crew : WorkerId → Prop}
    {names : String → Prop} {plain plain' : Request L → Prop}
    (h : interpreter.Scripting crew names plain)
    (hplain : ∀ request, plain request → plain' request) :
    interpreter.Scripting crew names plain' where
  compiling path source := (h.compiling path source).mono hplain
  executing body k env hk := (h.executing body k env hk).mono fun r => Or.imp_right (hplain r)
  calling closure k this args hk :=
    (h.calling closure k this args hk).mono fun r => Or.imp_right (hplain r)

namespace Setting

variable {S : Setting L} {crew : WorkerId → Prop} {names : String → Prop} {thread : ThreadId}

theorem answersWithin_of_moves {R : World L → World L → Prop}
    (hedited : ∀ w w', Edited S.edits w w' → R w w') {request : Request L}
    (h : (S.interpreter.answer thread request).Moves R) : S.AnswersWithin thread R request := by
  intro call frames w o w' t hrun
  exact h.runs hedited hrun

/-- Asking whether a resource exists changes no more than what is remembered about it. -/
theorem resourceExists_eq (storage : Storage) (resource : Resource) :
    ∃ existence, (storage.resourceExists resource).2 = { storage with existence := existence } := by
  unfold Storage.resourceExists
  cases resource with
  | file file => exact ⟨storage.existence, rfl⟩
  | memory store storeName directory name place =>
    dsimp only
    split
    · exact ⟨storage.existence, rfl⟩
    · exact ⟨_, rfl⟩

theorem lookup_eq (storage : Storage) (root : Repository) (path : String) :
    ∃ existence, (storage.lookup root path).2 = { storage with existence := existence } := by
  unfold Storage.lookup
  split
  · exact ⟨storage.existence, rfl⟩
  · next found name _ =>
    cases found with
    | memory store storeName directory => exact ⟨_, rfl⟩
    | files directory => exact ⟨storage.existence, rfl⟩

theorem tryCandidate_eq (w : World L) (root : Repository) (candidate : String) :
    ∃ existence, (w.tryCandidate root candidate).2 =
      { w with storage := { w.storage with existence := existence } } := by
  obtain ⟨existence, hlookup⟩ := lookup_eq w.storage root candidate
  unfold World.tryCandidate
  split
  · next storage heq =>
    rw [heq] at hlookup
    exact ⟨existence, by rw [← hlookup]⟩
  · next resource storage heq =>
    rw [heq] at hlookup
    obtain ⟨existence', hasked⟩ := resourceExists_eq storage resource
    refine ⟨existence', ?_⟩
    dsimp only
    rw [hasked, show storage = _ from hlookup]

theorem suits_of_moves {R : World L → World L → Prop} {plain : Request L → Prop}
    (h : S.interpreter.Scripting crew names plain) (hnaming : Naming S R)
    (hstill : ∀ w w', w.Still w' → R w w')
    (hplain : ∀ request, plain request →
      request.LeavesWorkers ∧ (S.interpreter.answer thread request).Moves R) :
    S.Suits crew names thread R := by
  have hwithin request (hrequest : plain request) :
      request.IsPlain ∧ S.AnswersWithin thread R request :=
    ⟨.of_leavesWorkers (hplain request hrequest).1,
      answersWithin_of_moves hnaming.edited (hplain request hrequest).2⟩
  exact {
    beside := hnaming.beside
    edited := hnaming.edited
    located := fun _ _ _ _ _ _ _ _ _ _ hw _ h => (runs_locate hnaming hw h).1
    asked := fun w resource => by
      obtain ⟨existence, hasked⟩ := resourceExists_eq w.storage resource
      rw [hasked]
      exact hstill _ _ (w.still_existence existence)
    reported := fun w k error => hstill _ _ (w.still_reportError k error)
    activated := fun w k => hstill _ _ (w.still_setActive thread k)
    compiling := fun path source => (h.compiling path source).mono hwithin
    executing := fun body k env hk =>
      (h.executing body k env hk).mono fun request => Or.imp_right (hwithin request)
    calling := fun closure k this args hk =>
      (h.calling closure k this args hk).mono fun request => Or.imp_right (hwithin request) }

theorem suits_beside (h : S.interpreter.Scripting crew names Request.LeavesWorkers) :
    S.Suits crew names thread World.Beside :=
  suits_of_moves h (naming_beside S) (fun _ _ h => h.beside) fun _ hplain =>
    ⟨hplain, moves_answer_beside hplain⟩

theorem apart_scriptFor (w : World L) (r : ResolverId) (resource : Resource) (name : String) :
    w.Apart (w.scriptFor r resource name).2 := by
  rcases scriptFor_cases w r resource name with ⟨_, u, -, -, h⟩ | ⟨-, h⟩
  · rw [h]
    exact w.still_refl.apart
  · have hbeside := beside_scriptFor w r resource name
    rw [h] at hbeside ⊢
    refine ⟨hbeside, fun u unit hunit => ?_, fun u unit hunit => ?_, fun k u key hu => ?_,
      fun _ _ => ⟨rfl, rfl⟩, fun _ => rfl⟩
    · have hlt : u < w.units.size := (List.getElem?_eq_some_iff.1 hunit).1
      change (w.units.push _).get? u = some unit
      rw [Table.get?_push, if_neg (Nat.ne_of_lt hlt)]
      exact hunit
    · change (w.units.push _).get? u = some unit at hunit
      rw [Table.get?_push] at hunit
      split at hunit
      · cases hunit
        exact .inr ⟨rfl, resource, rfl⟩
      · exact .inl hunit
    · exact (holds_enrolled w r resource name hu).imp_right fun hnew => Nat.le_of_eq hnew.symm

theorem suits_of_naming {R : World L → World L → Prop}
    (h : S.interpreter.Scripting crew names Request.LeavesModules) (hnaming : Naming S R)
    (hstill : ∀ w w', w.Still w' → R w w') : S.Suits crew names thread R :=
  suits_of_moves h hnaming hstill fun _ hplain => ⟨hplain.leavesWorkers, (moves_answer hplain).mono hstill⟩

variable (S) in
/-- The scripts and the host of a setting, while no edit gives a source another time. -/
def steady : Setting L where
  interpreter := S.interpreter
  edits storage storage' := S.edits storage storage' ∧
    ∀ resource, storage'.modified resource = storage.modified resource

theorem naming_apart : Naming S.steady World.Apart where
  beside _ _ h := h.beside
  edited w _ h := by
    obtain ⟨storage, hedit, rfl⟩ := h
    exact ⟨w.beside_storage storage, fun _ _ hunit => hunit, fun _ _ hunit => .inl hunit,
      fun _ _ _ hu => .inl hu, fun _ _ => ⟨rfl, rfl⟩, hedit.2⟩
  tried w root candidate := by
    obtain ⟨existence, hw⟩ := tryCandidate_eq w root candidate
    rw [hw]
    exact (w.still_existence existence).apart
  scripted w r resource name := apart_scriptFor w r resource name

/-- Where no source gets another time, what happens besides loading leaves modules and units alone. -/
theorem suits_apart (h : S.interpreter.Scripting crew names Request.LeavesModules) :
    S.steady.Suits crew names thread World.Apart :=
  suits_of_naming h naming_apart fun _ _ hw => hw.apart

end Setting

end ScriptWorker
