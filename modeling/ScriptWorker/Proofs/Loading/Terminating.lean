import ScriptWorker.Proofs.Loading.Circular
import ScriptWorker.Proofs.Loading.Finite
import ScriptWorker.Proofs.Loading.Importing

/-!
# Imports come to an end

A load runs a body only if its key is not in progress, and then its key is in progress until the body
has come back. So bodies are nested no deeper than there are keys, whatever they import and however
often they import it again after a failure.
-/

namespace ScriptWorker

open Relation World

variable {L : Language}

/-- The bodies of a worker's scripts import modules, and need not wait for anyone. -/
def Interpreter.Imports (interpreter : Interpreter L) (k : WorkerId) (names : String → Prop) : Prop :=
  ∀ body env, (interpreter.code (.execute body k env)).Only fun request =>
    (∃ caller name, request = .loadModule k caller name ∧ names name) ∨ request.IsPrompt

section Programs

variable {call : (callee : Callee L) → World L → Option (Outcome callee.Result × World L × List (Moment L))}
  {thread : ThreadId} {k : WorkerId} {u : UnitId} {w : World L}

theorem completes_prompt {interpreter : Interpreter L} {request : Request L} (h : request.IsPrompt) :
    (interpreter.answer thread request).Completes call w := by
  cases request <;> first | exact h.elim | rfl

theorem completes_firstCandidate (tried : List (Repository × String)) :
    (firstCandidate tried : Run L (Option Resource)).Completes call w := by
  induction tried generalizing w with
  | nil => rfl
  | cons attempt rest ih =>
    obtain ⟨root, candidate⟩ := attempt
    rw [firstCandidate, Program.completes_transact_bind]
    cases (w.tryCandidate root candidate).1 with
    | some resource => rfl
    | none => exact ih

theorem completes_locate (hk : w.Scripted k) (caller : Option EnvironmentId) (name : String) :
    (Worker.locate k caller name).Completes call w := by
  obtain ⟨path, extension, scripts, hkind⟩ := Scripted.kind hk
  unfold Worker.locate resolve
  rw [Program.completes_read_bind, Program.completes_read_bind, Program.completes_read_bind, hkind]
  refine Program.completes_bind (completes_firstCandidate _) fun found w' t _ => ?_
  cases found with
  | none => rfl
  | some resource => rfl

theorem completes_reportAll (errors : List SyntaxError) :
    (Script.reportAll k errors : Run L Unit).Completes call w := by
  induction errors generalizing w with
  | nil => rfl
  | cons error rest ih =>
    rw [Script.reportAll, Program.completes_modify_bind]
    exact ih

theorem completes_body (hcompile : ∀ path source v, (call (.compile path source) v).isSome)
    (resource : Resource) : (Script.body k u resource).Completes call w := by
  unfold Script.body
  rw [Program.completes_read_bind, Program.completes_read_bind]
  split
  · rfl
  rw [Program.completes_transact_bind]
  obtain ⟨found, storage⟩ := w.storage.resourceExists resource
  cases found with
  | false => rfl
  | true =>
  dsimp only
  rw [if_neg (by decide), Program.completes_read_bind]
  split
  · rfl
  · refine Program.completes_invokeOutside_bind (hcompile _ _ _) fun result w' t _ => ?_
    cases result with
    | ok code => rfl
    | error errors =>
      exact Program.completes_bind (completes_reportAll errors) fun _ _ _ _ => rfl

theorem completes_build {resource : Resource} {code : L.Body} {time : UInt64}
    (hexecute : (call (.execute code k w.environments.size)
      ((w.addModule u resource).2.markChecked k ((w.addModule u resource).2.unitKey u)
        w.environments.size)).isSome) :
    (Script.build k u resource code time).Completes call w := by
  unfold Script.build
  rw [Program.completes_transact_bind, Program.completes_modify_bind]
  refine Program.completes_invokeOutside_bind hexecute fun result w' t _ => ?_
  cases result with
  | ok value => rfl
  | error cause => rfl

theorem completes_enter (hadmits : (w.worker k).serializer.admits thread) :
    (Worker.enter thread k).Completes call w := by
  unfold Worker.enter
  have henter : ∃ guard w', w.enter? thread k = some (guard, w') := by
    unfold World.enter? Serializer.enter?
    rw [if_pos hadmits]
    exact ⟨_, _, rfl⟩
  obtain ⟨guard, w', henter⟩ := henter
  rw [Program.completes_await_bind henter]
  split
  · rw [Program.completes_read_bind]
    split <;> rfl
  · rfl

theorem completes_checkOrLoad {key : String}
    (hload : (w.worker k).cache.peek key = none →
      (ExecutableUnit.load k u ((w.worker k).cache.get? key)).Completes call
        (w.modifyWorker k fun x => { x with
          cache := (x.cache.checked key).2
          serializer := { x.serializer with current := some u } })) (hk : k < w.workers.size) :
    (Worker.checkOrLoad k u key).Completes call w := by
  unfold Worker.checkOrLoad
  rw [Program.completes_transact_bind, lookupChecked_eq]
  cases hpeek : (w.worker k).cache.peek key with
  | some env => rfl
  | none =>
    dsimp only
    unfold Worker.withScript
    rw [Program.completes_read_bind, Program.completes_transact_bind, pushScript_eq,
      modifyWorker_modifyWorker, worker_modifyWorker_self hk]
    have hget : (((w.worker k).cache.checked key).2).get? key = (w.worker k).cache.get? key :=
      ModuleCache.get?_checked ..
    rw [hget]
    refine Program.completes_bind (Program.completes_thenOutcome (hload hpeek) fun _ _ _ _ => rfl)
      fun o w' t _ => ?_
    cases o with
    | done answer => rfl
    | panic payload => rfl

end Programs

namespace Config

/-- A configuration of a worker whose modules are covered. -/
structure Covered {names : String → Prop} (M : ModuleSet L names) (k : WorkerId) (thread : ThreadId)
    (c : Config L) : Prop where
  sound : c.Sound (· = k) thread
  covers : M.Covers k c.world

section Covered

variable {names : String → Prop} {M : ModuleSet L names} {k : WorkerId} {thread : ThreadId}
  {c c' : Config L} {s : List (Activity L)} {H : List (Moment L)} {w : World L} {u : UnitId}
  {key : String}

theorem Covered.step (hc : c.Covered M k thread) (h : Step (· = k) thread (M.Calm k) c c') :
    c'.Covered M k thread :=
  ⟨h.sound (fun _ _ hcalm => hcalm.1) hc.sound, h.covers hc.sound.seated hc.covers⟩

theorem Covered.path (hc : c.Covered M k thread) (h : Path (· = k) thread (M.Calm k) c c') :
    c'.Covered M k thread :=
  ⟨h.sound (fun _ _ hcalm => hcalm.1) hc.sound, h.covers hc.sound hc.covers⟩

theorem Covered.progress_le (hc : c.Covered M k thread) :
    (Activity.progress k c.stack).length ≤ M.keys.card := by
  have hlisted : ∀ key ∈ Activity.progress k c.stack, key ∈ M.keys := by
    intro key hkey
    obtain ⟨v, stage, hmem, -⟩ := Activity.exists_of_mem_progress hkey
    have hholds : c.world.Holds k v key := (hc.sound.seated.known _ hmem).2
    obtain ⟨resource, hscript⟩ := (hc.sound.seated.workers k rfl).scripted.script hholds
    exact (hc.covers.known v key resource hholds hscript).1
  rw [← List.toFinset_card_of_nodup (hc.sound.nested.distinct k)]
  exact Finset.card_le_card fun key hkey => hlisted key (List.mem_toFinset.1 hkey)

end Covered

end Config

namespace Setting

variable {S : Setting L} {names : String → Prop} {M : ModuleSet L names} {k : WorkerId}
  {thread : ThreadId} {s : List (Activity L)} {H : List (Moment L)} {w : World L} {u : UnitId}
  {key : String} {n : Nat}

def LoadsWithin (S : Setting L) (M : ModuleSet L names) (k : WorkerId) (thread : ThreadId)
    (n : Nat) : Prop :=
  ∀ (s : List (Activity L)) H w caller name, Config.Covered M k thread ⟨s, H, w⟩ →
    Activity.MayLoad s → names name → M.keys.card ≤ (Activity.progress k s).length + n →
    (playLoad thread (S.playCall thread n) (Activity.frames s) k caller name w).isSome

def ExecutesWithin (S : Setting L) (M : ModuleSet L names) (k : WorkerId) (thread : ThreadId)
    (n : Nat) : Prop :=
  ∀ (s : List (Activity L)) H w body env,
    Config.Covered M k thread ⟨.call (.execute body k env) :: s, H, w⟩ →
    M.keys.card < (Activity.progress k s).length + n →
    (S.playCall thread n (Activity.frames s) (.execute body k env) w).isSome

theorem isSome_compile (hS : S.interpreter.Scripting (· = k) names Request.IsPrompt)
    (frames : List (Frame L)) (path source : String) (w : World L) :
    (S.playCall thread (n + 1) frames (.compile path source) w).isSome := by
  apply Play.isSome_within
  have hcode := hS.compiling path source
  generalize S.interpreter.code (.compile path source) = code at hcode
  induction code generalizing w with
  | ended outcome => rfl
  | ask request next ih =>
    refine Play.isSome_thenOutcome ?_ fun o w' t _ => ih o w' (hcode.2 o)
    have hprompt := hcode.1
    cases request <;> first | exact hprompt.elim | exact completes_prompt hprompt

theorem executesWithin_succ (hS : S.Suits (· = k) names thread (M.Calm k))
    (hbodies : S.interpreter.Imports k names) (hloads : LoadsWithin S M k thread n) :
    ExecutesWithin S M k thread (n + 1) := by
  intro s H w body env hc hcard
  apply Play.isSome_within
  have hcode := hbodies body env
  generalize S.interpreter.code (.execute body k env) = code at hcode
  induction code generalizing H w with
  | ended outcome => rfl
  | ask request next ih =>
    have hrun : ∀ o w' t, S.playAnswer thread (S.playCall thread n)
        (.call (.execute body k env) :: Activity.frames s) request w = some (o, w', t) →
        ((next o).play (S.playAnswer thread (S.playCall thread n)
          (.call (.execute body k env) :: Activity.frames s)) w').isSome := by
      intro o w' t hplay
      have hanswer := follows_playAnswer (follows_playCall n) _ _ _ _ _ _ hplay
      have hpath := path_answers (s := .call (.execute body k env) :: s) hS (follows_calls hS n)
        hc.sound.seated (hcode.1.imp (fun hload => ?_) fun hprompt => ?_) hanswer
      · exact ih o _ w' (hc.path hpath) (hcode.2 o)
      · obtain ⟨caller, name, rfl, hname⟩ := hload
        exact ⟨⟨rfl, hname⟩, trivial⟩
      · exact ⟨.of_leavesWorkers hprompt.leavesModules.leavesWorkers,
          answersWithin_of_prompt hS.edited hprompt⟩
    refine Play.isSome_thenOutcome ?_ hrun
    rcases hcode.1 with ⟨caller, name, rfl, hname⟩ | hprompt
    · exact hloads (.call (.execute body k env) :: s) H w caller name hc trivial hname (by
        change M.keys.card ≤ (Activity.progress k s).length + n
        omega)
    · cases request <;> first | exact hprompt.elim | exact completes_prompt hprompt

theorem completes_script_build (hexecutes : ExecutesWithin S M k thread n)
    {resource : Resource} {code : L.Body} {time : UInt64}
    (hc : Config.Covered M k thread ⟨.load k u key (.ready code time) :: s, H, w⟩)
    (hscript : w.Script u key resource) (hcompiled : w.compiled u = some (code, time))
    (hcard : M.keys.card ≤ (Activity.progress k s).length + n) :
    (Script.build k u resource code time).Completes
      (S.playCall thread n (.load k u key :: Activity.frames s)) w := by
  apply completes_build
  have hscript' : (w.addModule u resource).2.Script u key resource :=
    (w.beside_addModule u resource).script u key resource hscript
  rw [Script.unitKey hscript', markChecked_eq]
  have hfilling := (hc.step (.fill hscript hcompiled)).step .execute
  refine hexecutes (.load k u key (.filling w.environments.size code time) :: s) _ _ _ _ hfilling ?_
  rw [Activity.progress_load_inside rfl, List.length_cons]
  omega

theorem completes_script_load (hS : S.Suits (· = k) names thread (M.Calm k))
    (hscripting : S.interpreter.Scripting (· = k) names Request.IsPrompt)
    (hexecutes : ExecutesWithin S M k thread n) {resource : Resource}
    {existing : Option EnvironmentId}
    (hc : Config.Covered M k thread ⟨.load k u key .opened :: s, H, w⟩)
    (hscript : w.Script u key resource) (hexisting : (w.worker k).cache.get? key = existing)
    (hcard : M.keys.card ≤ (Activity.progress k s).length + n) :
    (Script.load k u resource existing).Completes
      (S.playCall thread n (.load k u key :: Activity.frames s)) w := by
  unfold Script.load
  rw [Program.completes_read_bind]
  cases hfresh : existing.filter fun env => w.isFresh u env with
  | some env => rfl
  | none =>
    have hstale : ∀ env, (w.worker k).cache.get? key = some env → ¬ w.isFresh u env := by
      intro env henv hisFresh
      rw [hexisting] at henv
      rw [henv] at hfresh
      simp [hisFresh] at hfresh
    have hprogress := hc.progress_le
    rw [Activity.progress_load_inside rfl, List.length_cons] at hprogress
    obtain ⟨m, rfl⟩ : ∃ m, n = m + 1 := ⟨n - 1, by omega⟩
    have hstaled := hc.step (.distrust hstale)
    refine Program.completes_bind
      (completes_body (isSome_compile hscripting _) resource) fun found w' t hfound => ?_
    have hrun : S.runs (S.calls thread (m + 1)) (.load k u key :: Activity.frames s)
        (Script.body k u resource) w (.done found) w' t :=
      Program.runs_of_evaluate (follows_playCall (m + 1) _) hfound
    obtain ⟨stage, hpath, hsearched⟩ := path_body hS (follows_calls hS (m + 1))
      hstaled.sound.seated hscript hrun
    cases found with
    | error cause => rfl
    | ok result =>
      obtain ⟨code, time⟩ := result
      obtain ⟨rfl, hcompiled⟩ := hsearched
      exact completes_script_build hexecutes (hstaled.path hpath)
        (hpath.script hS.beside hscript) hcompiled hcard

theorem completes_loadUnit (hS : S.Suits (· = k) names thread (M.Calm k))
    (hscripting : S.interpreter.Scripting (· = k) names Request.IsPrompt)
    (hexecutes : ExecutesWithin S M k thread n)
    (hc : Config.Covered M k thread ⟨.load k u key .arriving :: s, H, w⟩)
    (hcard : M.keys.card ≤ (Activity.progress k s).length + n)
    (hnobody : ∀ storage storage', ¬ S.edits storage storage') :
    (Worker.loadUnit thread k u).Completes
      (S.playCall thread n (.load k u key :: Activity.frames s)) w := by
  have hseat := hc.sound.seated.workers k rfl
  have hholds : w.Holds k u key := (hc.sound.seated.known _ List.mem_cons_self).2
  obtain ⟨resource, hscript⟩ := hseat.scripted.script hholds
  have hadmits : (w.worker k).serializer.admits thread := by
    rw [hseat.serializer]
    exact Serializer.heldBy_admits ..
  have hserial : (Worker.serialized thread k (Worker.checkOrLoad k u key)).Completes
      (S.playCall thread n (.load k u key :: Activity.frames s)) w := by
    refine Program.completes_bind (completes_enter hadmits) fun guard w' t henter => ?_
    have hrun : S.runs (S.calls thread n) (.load k u key :: Activity.frames s)
        (Worker.enter thread k) w (.done guard) w' t :=
      Program.runs_of_evaluate (follows_playCall n _) henter
    obtain ⟨v, guard', hv, -, -, rfl, -⟩ := Worker.runs_enter hseat.row hrun
    obtain rfl := eq_of_drifts hnobody hv
    refine Program.completes_thenOutcome (completes_checkOrLoad (fun hpeek => ?_) ?_)
      fun _ _ _ _ => rfl
    · unfold World.entered at hpeek ⊢
      rw [worker_modifyWorker_self hseat.row] at hpeek ⊢
      rw [modifyWorker_modifyWorker]
      have hopened := hc.step (.miss hpeek)
      have hscript' : (v.modifyWorker k (Worker.opened thread u key)).Script u key resource :=
        hscript
      have hget : ((v.modifyWorker k (Worker.opened thread u key)).worker k).cache.get? key =
          ((v.worker k).entered thread).cache.get? key := get?_opened hseat.row
      obtain ⟨unit, compiled, hunit, hsource, -⟩ := id hscript'
      unfold ExecutableUnit.load
      refine (Program.completes_read_bind (w := v.modifyWorker k (Worker.opened thread u key))).2 ?_
      simp only [hunit, Option.map_some, hsource]
      exact completes_script_load hS hscripting hexecutes hopened hscript' hget hcard
    · unfold World.entered
      rw [size_modifyWorker]
      exact hseat.row
  unfold Worker.loadUnit
  rw [Program.completes_read_bind, Script.unitKey hscript]
  refine Program.completes_bind hserial fun found w' t hfound => ?_
  obtain ⟨answer, parent⟩ := found
  have hrun : S.runs (S.calls thread n) (.load k u key :: Activity.frames s)
      (Worker.serialized thread k (Worker.checkOrLoad k u key)) w (.done (answer, parent)) w' t :=
    Program.runs_of_evaluate (follows_playCall n _) hfound
  obtain ⟨rfl, hpath⟩ := path_serialLoad hS (follows_calls hS n) hc.sound.seated hrun
  cases hparent : Activity.script k s with
  | none => rfl
  | some p =>
    have hsettled := hc.path (hpath w' .refl)
    have hp : Activity.script k (.load k u key (.settled (.done answer)) :: s) = some p := by
      rw [Activity.script_load_outside rfl]
      exact hparent
    have hseated := fun hk => script_of_seated hk hsettled.sound.seated hp
    obtain ⟨_, resource', hrecorded⟩ := hseated rfl
    obtain ⟨unit, known, compiled, hunit, hsource⟩ := script_of_recorded hrecorded
    unfold Worker.recordImport ExecutableUnit.addDependency
    refine Program.completes_bind ?_ fun _ _ _ _ => rfl
    rw [Program.completes_read_bind]
    simp only [hunit, Option.map_some, hsource]
    rfl

theorem loadsWithin_of_executes (hS : S.Suits (· = k) names thread (M.Calm k))
    (hscripting : S.interpreter.Scripting (· = k) names Request.IsPrompt)
    (hexecutes : ExecutesWithin S M k thread n)
    (hnobody : ∀ storage storage', ¬ S.edits storage storage') : LoadsWithin S M k thread n := by
  intro s H w caller name hc hmay hname hcard
  have hscripted := (hc.sound.seated.workers k rfl).scripted
  refine Play.isSome_bind (completes_locate hscripted caller name) fun answer v t hlocate => ?_
  have hrun : S.runs (S.calls thread n) (Activity.frames s) (Worker.locate k caller name) w
      (.done answer) v t := Program.runs_of_evaluate (follows_playCall n _) hlocate
  obtain ⟨-, found, hfound, hholds⟩ := locate_cases hscripted hrun
  cases hfound
  cases answer with
  | error cause => rfl
  | ok u =>
    obtain ⟨key, hu⟩ := hholds u rfl
    have hlocated : Config.Covered M k thread ⟨s, H, v⟩ :=
      hc.path (Config.path_aside (hS.located _ _ _ _ _ _ _ _ _ rfl hscripted hname hrun))
    obtain ⟨resource, hscript⟩ := (hlocated.sound.seated.workers k rfl).scripted.script hu
    dsimp only
    rw [Script.unitKey hscript]
    apply Play.isSome_within
    exact completes_loadUnit hS hscripting hexecutes (hlocated.step (.arrive rfl hmay hu)) hcard
      hnobody

/-- Nesting calls as deep as there are keys is enough. -/
theorem loadsWithin (hS : S.Suits (· = k) names thread (M.Calm k))
    (hscripting : S.interpreter.Scripting (· = k) names Request.IsPrompt)
    (hbodies : S.interpreter.Imports k names)
    (hnobody : ∀ storage storage', ¬ S.edits storage storage') (n : Nat) :
    LoadsWithin S M k thread n := by
  induction n with
  | zero =>
    refine loadsWithin_of_executes hS hscripting (fun s H w body env hc hcard => ?_) hnobody
    have hprogress := hc.progress_le
    change (Activity.progress k s).length ≤ M.keys.card at hprogress
    omega
  | succ n ih =>
    exact loadsWithin_of_executes hS hscripting (executesWithin_succ hS hbodies ih) hnobody

/-- Whatever operations and edits there were before: with finitely many modules a load comes to an
end, the keys whose loads are in progress are distinct, and an import of one of them is answered with
the module that its load fills. -/
theorem Serves.circular_imports {start : World L} {caller : Option EnvironmentId} {name : String}
    (hscripting : S.interpreter.Scripting (· = k) names Request.IsPrompt)
    (hbodies : S.interpreter.Imports k names)
    (hnobody : ∀ storage storage', ¬ S.edits storage storage') (hstart : start.Rests (· = k))
    (h : S.Serves World.Beside (Request.CallsOn (· = k) names) start w)
    (hcovers : M.Covers k w) (hname : names name) :
    (∀ depth, M.keys.card ≤ depth → (S.playAnswer thread (S.playCall thread depth) []
      (.loadModule k caller name) w).isSome ∧
      ∃ o w', S.Replies thread depth (.loadModule k caller name) w o w') ∧
    ∀ depth o w', S.Replies thread depth (.loadModule k caller name) w o w' →
      (∃ t, S.answers thread (S.calls thread depth) [] (.loadModule k caller name) w o w' t) ∧
      ∀ t, S.answers thread (S.calls thread depth) [] (.loadModule k caller name) w o w' t →
        SharesPartial k t := by
  obtain ⟨operations, hshown⟩ := exists_operates_iff.2 h
  have hrests : w.Rests (· = k) := hshown.rests
    (fun _ => suits_beside (hscripting.mono fun _ h => h.leavesModules.leavesWorkers))
    (fun _ _ hbeside => hbeside) hstart
  have hS : S.Suits (· = k) names thread (M.Calm k) := suits_calm hscripting hnobody
  constructor
  · intro depth hdepth
    have hsome : (S.playAnswer thread (S.playCall thread depth) [] (.loadModule k caller name) w).isSome :=
      loadsWithin hS hscripting hbodies hnobody depth [] [] w caller name
        ⟨hrests.sound, hcovers⟩ trivial hname ((Nat.zero_add depth).symm ▸ hdepth)
    obtain ⟨⟨o, w', t⟩, hplay⟩ := Option.isSome_iff_exists.1 hsome
    exact ⟨hsome, o, w', exists_answers_iff.1 ⟨t, answers_of_play hplay⟩⟩
  · refine fun depth o w' hreplies => ⟨exists_answers_iff.2 hreplies, fun t hrun => ?_⟩
    have hrequest : (Request.loadModule k caller name : Request L).CallsOn (· = k) names :=
      ⟨rfl, hname⟩
    exact sharesPartial_operation hS hrests hrequest hrun

end Setting

namespace Importing

theorem imports {N : Type} (named : N → String) (compile : String → List (Line N)) (k : WorkerId) {names : String → Prop}
    (hnames : ∀ name, names (named name)) : (interpreter named compile).Imports k names :=
  fun lines env => only_body named (fun name => .inl ⟨some env, named name, rfl, hnames name⟩)
    (fun _ _ => .inr trivial) lines

theorem eq_of_tryCandidate {L : Language} {w : World L} {root : Repository} {store : StoreId}
    {storeName directory name candidate : String} {resource : Resource}
    (hfollow : root.follow w.storage.files candidate =
      some (.memory store storeName directory, name))
    (h : (w.tryCandidate root candidate).1 = some resource) :
    ∃ place, resource = .memory store storeName directory name place := by
  unfold World.tryCandidate Storage.lookup at h
  rw [hfollow] at h
  dsimp only [Storage.resource] at h
  split at h
  · cases h
    exact ⟨_, rfl⟩
  · cases h

def crossed : List (String × ByteArray) := [("a.yx", ByteArray.empty), ("b.yx", ⟨#[98]⟩)]

def named : Bool → String
  | false => "a.yx"
  | true => "b.yx"

def compile (source : String) : List (Line Bool) :=
  if source.isEmpty then [.imports true] else [.tries false]

def pair (reloading : Bool) :
    ModuleSet (language Bool) fun name => name = "a.yx" ∨ name = "b.yx" where
  stores := (world Bool reloading crossed).storage.stores
  files := Files.Tree.empty
  modulePath := [.memory 0 "app" ""]
  extension := "yx"
  keys := {"memory:app/a.yx", "memory:app/b.yx"}
  homes root := root = .memory 0 "app" ""
  roots := by simp
  found := by
    rintro w _ name candidate resource - - rfl hname hcandidate hfound
    have hown : candidate = name := by
      rcases hname with rfl | rfl
      · have hcandidates : ModuleName.candidates "yx" "a.yx" = ["a.yx"] := by decide +kernel
        rw [hcandidates] at hcandidate
        exact List.mem_singleton.1 hcandidate
      · have hcandidates : ModuleName.candidates "yx" "b.yx" = ["b.yx"] := by decide +kernel
        rw [hcandidates] at hcandidate
        exact List.mem_singleton.1 hcandidate
    have hfollow : (Repository.memory 0 "app" "").follow w.storage.files candidate =
        some (.memory 0 "app" "", name) := by
      rw [hown]
      rcases hname with rfl | rfl <;> rfl
    obtain ⟨place, rfl⟩ := eq_of_tryCandidate hfollow hfound
    refine ⟨?_, rfl⟩
    rcases hname with rfl | rfl
    · exact Finset.mem_insert_self _ _
    · exact Finset.mem_insert_of_mem (Finset.mem_singleton_self _)

theorem covers_world (reloading : Bool) :
    (pair reloading).Covers 0 (world Bool reloading crossed) where
  stores := rfl
  files := rfl
  resolver := ⟨Dictionary.empty, rfl⟩
  known u key resource hu := by
    obtain ⟨scripts, hs, hget⟩ := hu
    cases hs
    cases hget
  scopes env repository he := by
    unfold World.environment at he
    cases env with
    | zero => cases he
    | succ env => cases he

/-- Two modules that import each other are loaded. -/
theorem crossed_imports_end :
    (∀ depth, 2 ≤ depth → ((setting named compile).playAnswer (.caller 0)
      ((setting named compile).playCall (.caller 0) depth) [] (.loadModule 0 none "a.yx")
      (world Bool true crossed)).isSome ∧
      ∃ o w', (setting named compile).Replies (.caller 0) depth (.loadModule 0 none "a.yx")
        (world Bool true crossed) o w') ∧
    ∀ depth o w', (setting named compile).Replies (.caller 0) depth (.loadModule 0 none "a.yx")
        (world Bool true crossed) o w' →
      (∃ t, (setting named compile).answers (.caller 0) ((setting named compile).calls (.caller 0) depth)
        [] (.loadModule 0 none "a.yx") (world Bool true crossed) o w' t) ∧
      ∀ t, (setting named compile).answers (.caller 0) ((setting named compile).calls (.caller 0) depth)
        [] (.loadModule 0 none "a.yx") (world Bool true crossed) o w' t → SharesPartial 0 t := by
  have hnames : ∀ name, named name = "a.yx" ∨ named name = "b.yx" := by decide
  exact Setting.Serves.circular_imports (M := pair true) (scripting named compile _ hnames)
    (imports named compile 0 hnames) (fun _ _ h => h) (rests_world true crossed) .start
    (covers_world true) (.inl rfl)

end Importing

end ScriptWorker
