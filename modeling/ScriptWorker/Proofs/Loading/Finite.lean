import Mathlib.Data.Finset.Card
import ScriptWorker.Proofs.Loading.Operations

/-!
# Finitely many modules

Where the sources stay as they are and only certain names are imported, a worker comes to know
certain modules only. They are listed by their keys, with the repositories that are searched for
them, and no step of a load leads out of the list.
-/

namespace ScriptWorker

open Relation World

variable {L : Language}

/-- The modules that imports may come to, by their keys, and the repositories in which the candidates
for their names are looked up. -/
structure ModuleSet (L : Language) (names : String → Prop) where
  stores : Table Store
  files : Files.Tree
  modulePath : List Repository
  extension : String
  keys : Finset String
  homes : Repository → Prop
  roots : ∀ root ∈ modulePath, homes root
  found : ∀ (w : World L) root name candidate resource, w.storage.stores = stores →
    w.storage.files = files → homes root → names name →
    candidate ∈ ModuleName.candidates extension name →
    (w.tryCandidate root candidate).1 = some resource →
    resource.key ∈ keys ∧ homes (resource.repository files)

/-- A worker knows no other modules, and its imports look nowhere else. -/
structure ModuleSet.Covers {names : String → Prop} (M : ModuleSet L names) (k : WorkerId)
    (w : World L) : Prop where
  stores : w.storage.stores = M.stores
  files : w.storage.files = M.files
  resolver : ∃ scripts, (w.resolvers.get? (w.workerResolver k)).map NameResolver.kind =
    some (.repositories M.modulePath M.extension scripts)
  known : ∀ u key resource, w.Holds k u key → w.Script u key resource →
    key ∈ M.keys ∧ M.homes (resource.repository M.files)
  scopes : ∀ env repository, (w.environment env).repository = some repository → M.homes repository

theorem World.Script.resource_eq {w : World L} {u : UnitId} {key key' : String}
    {resource resource' : Resource} (h : w.Script u key resource) (h' : w.Script u key' resource') :
    resource = resource' := by
  obtain ⟨unit, c, hunit, hsource, -⟩ := h
  obtain ⟨unit', c', hunit', hsource', -⟩ := h'
  rw [hunit] at hunit'
  cases hunit'
  rw [hsource] at hsource'
  cases hsource'
  rfl

/-- What leaves the names that a worker can resolve, and the sources, as they are. -/
structure World.Steady (k : WorkerId) (w w' : World L) : Prop where
  resolver : w'.workerResolver k = w.workerResolver k
  resolvers : w'.resolvers = w.resolvers
  script : ∀ u key resource, w.Script u key resource → w'.Script u key resource
  scopes : ∀ env repository, (w'.environment env).repository = some repository →
    (w.environment env).repository = some repository
  stores : w'.storage.stores = w.storage.stores
  files : w'.storage.files = w.storage.files

namespace World

variable {w w' v : World L} {k j : WorkerId}

theorem Still.steady (h : w.Still w') : w.Steady k w' :=
  ⟨h.beside.resolver k, h.resolvers, h.beside.script, h.scopes, h.stores, h.files⟩

theorem Steady.trans (h : w.Steady k v) (h' : v.Steady k w') : w.Steady k w' where
  resolver := h'.resolver.trans h.resolver
  resolvers := h'.resolvers.trans h.resolvers
  script u key resource hu := h'.script u key resource (h.script u key resource hu)
  scopes env repository he := h.scopes env repository (h'.scopes env repository he)
  stores := h'.stores.trans h.stores
  files := h'.files.trans h.files

theorem steady_refl (w : World L) : w.Steady k w := w.still_refl.steady

theorem steady_modifyWorker {f : Worker → Worker} (hf : ∀ x, (f x).resolver = x.resolver) :
    w.Steady k (w.modifyWorker j f) := by
  refine ⟨?_, rfl, fun _ _ _ h => h, fun _ _ h => h, rfl, rfl⟩
  unfold workerResolver
  rw [worker_modifyWorker]
  split
  · next h => rw [hf, h.1]
  · rfl

theorem steady_recorded (parent : Option UnitId) (u : UnitId) :
    w.Steady k (w.recorded parent u) := by
  have hbeside := w.beside_recorded parent u
  cases parent with
  | none => exact w.steady_refl
  | some p => exact ⟨hbeside.resolver k, rfl, hbeside.script, fun _ _ h => h, rfl, rfl⟩

theorem steady_answered {thread : ThreadId} {u : UnitId} {key : String} {parent : Option UnitId} :
    w.Steady k (w.answered thread j u key parent) :=
  (steady_modifyWorker (f := Worker.answered thread key) fun _ => rfl).trans (steady_recorded _ _)

theorem steady_closed {u : UnitId} {key : String} {parent : Option UnitId}
    {answer : Answer EnvironmentId} : w.Steady k (w.closed j u key parent answer) :=
  (steady_modifyWorker (f := Worker.closed key parent answer) fun _ => rfl).trans
    (steady_recorded _ _)

theorem steady_setCompiled (u : UnitId) (body : L.Body) (time : UInt64) :
    w.Steady k (w.setCompiled u body time) :=
  ⟨rfl, rfl, (w.beside_setCompiled u body time).script, fun _ _ h => h, rfl, rfl⟩

theorem steady_stamp (env : EnvironmentId) (sum : UInt64) : w.Steady k (w.stamp env sum) := by
  refine ⟨rfl, rfl, fun _ _ _ h => h, fun env' repository h => ?_, rfl, rfl⟩
  unfold environment stamp at h
  rw [Table.get?_modify] at h
  unfold environment
  split at h
  · cases hrow : w.environments.get? env' with
    | none =>
      rw [hrow] at h
      exact h
    | some e =>
      rw [hrow] at h
      change (e.stamp sum).repository = some repository at h
      unfold Environment.stamp at h
      split at h <;> exact h
  · exact h

end World

namespace ModuleSet

variable {names : String → Prop} {M : ModuleSet L names} {k : WorkerId} {w w' : World L}

theorem Covers.steady (h : M.Covers k w) (hk : w.Scripted k) (hw : w.Steady k w') :
    M.Covers k w' where
  stores := hw.stores.trans h.stores
  files := hw.files.trans h.files
  resolver := by
    rw [hw.resolver, hw.resolvers]
    exact h.resolver
  known u key resource hu hscript := by
    have hbefore : w.Holds k u key := by
      obtain ⟨scripts, hs, hget⟩ := hu
      refine ⟨scripts, ?_, hget⟩
      unfold World.scripts scriptsOf at hs ⊢
      rw [hw.resolver, hw.resolvers] at hs
      exact hs
    obtain ⟨resource', hscript'⟩ := hk.script hbefore
    have heq := (hw.script u key resource' hscript').resource_eq hscript
    exact h.known u key resource hbefore (heq ▸ hscript')
  scopes env repository he := h.scopes env repository (hw.scopes env repository he)

theorem Covers.scriptFor (h : M.Covers k w) (hk : w.Scripted k) {resource : Resource} (name : String)
    (hkey : resource.key ∈ M.keys) (hhome : M.homes (resource.repository M.files)) :
    M.Covers k (w.scriptFor (w.workerResolver k) resource name).2 := by
  rcases scriptFor_cases w (w.workerResolver k) resource name with ⟨_, u, -, -, hmade⟩ | ⟨-, hmade⟩
  · rw [hmade]
    exact h
  rw [hmade]
  refine ⟨h.stores, h.files, ?_, fun u key resource' hu hscript => ?_, h.scopes⟩
  · obtain ⟨scripts, hkind⟩ := h.resolver
    refine ⟨scripts.insert resource.key w.units.size, ?_⟩
    obtain ⟨resolver, hrow, hresolver⟩ := Option.map_eq_some_iff.1 hkind
    change ((w.resolvers.modify (w.workerResolver k) _).get? (w.workerResolver k)).map
      NameResolver.kind = _
    rw [Table.get?_modify, if_pos rfl, hrow]
    simp [withScripts, hresolver]
  · obtain ⟨scripts, hs, -⟩ := id hk
    have hscripts : (w.enrolled (w.workerResolver k) resource name).scripts k = _ :=
      scriptsOf_enrolled w (w.workerResolver k) resource name (w.workerResolver k)
    have hs' : w.scriptsOf (w.workerResolver k) = some scripts := hs
    rw [if_pos rfl, hs'] at hscripts
    obtain ⟨scripts', hafter, hget⟩ := hu
    rw [hscripts] at hafter
    cases hafter
    rw [Dictionary.get?_insert] at hget
    split at hget
    · next heq =>
      cases hget
      rw [← (script_enrolled_new w (w.workerResolver k) resource name).resource_eq hscript, ← heq]
      exact ⟨hkey, hhome⟩
    · have hbefore : w.Holds k u key := ⟨scripts, hs, hget⟩
      obtain ⟨known, hknown⟩ := hk.script hbefore
      have hsame := (script_enrolled w (w.workerResolver k) resource name hknown).resource_eq hscript
      exact h.known u key resource' hbefore (hsame ▸ hknown)

theorem Covers.addModule (h : M.Covers k w) {u : UnitId} {resource : Resource}
    (hhome : M.homes (resource.repository M.files)) : M.Covers k (w.addModule u resource).2 := by
  refine ⟨h.stores, h.files, h.resolver, h.known, fun env repository he => ?_⟩
  unfold World.addModule addEnvironment environment at he
  rw [Table.get?_push] at he
  split at he
  · cases he
    rw [h.files]
    exact hhome
  · exact h.scopes env repository he

end ModuleSet

namespace Setting

variable {S : Setting L} {names : String → Prop} {M : ModuleSet L names} {k : WorkerId}
  {thread : ThreadId} {w w' : World L} {frames : List (Frame L)} {t : List (Moment L)}
  {call : List (Frame L) → (callee : Callee L) → Behaviour L callee.Result}

theorem eq_of_drifts {edits : Storage → Storage → Prop}
    (hedits : ∀ storage storage', ¬ edits storage storage') {v v' : World L}
    (h : Drifts edits v v') : v' = v := by
  rcases ReflTransGen.cases_head h with heq | ⟨_, ⟨_, hedit, -⟩, -⟩
  · exact heq.symm
  · exact (hedits _ _ hedit).elim

theorem covers_firstCandidate (hedits : ∀ storage storage', ¬ S.edits storage storage')
    {tried : List (Repository × String)} {name : String} (hname : names name)
    (htried : ∀ attempt ∈ tried, M.homes attempt.1 ∧
      attempt.2 ∈ ModuleName.candidates M.extension name)
    (hw : M.Covers k w) (hscripted : w.Scripted k) {o : Outcome (Option Resource)}
    (h : S.runs call frames (firstCandidate tried) w o w' t) :
    M.Covers k w' ∧ w'.Scripted k ∧ w'.workerResolver k = w.workerResolver k ∧
      ∀ resource, o = .done (some resource) →
        resource.key ∈ M.keys ∧ M.homes (resource.repository M.files) := by
  have hnobody : ∀ {v v' : World L}, Drifts S.edits v v' → v' = v := eq_of_drifts hedits
  induction tried generalizing w t with
  | nil =>
    obtain ⟨hv, rfl, rfl⟩ := Program.runs_pure.1 h
    obtain rfl := hnobody hv
    exact ⟨hw, hscripted, rfl, fun _ h => nomatch h⟩
  | cons attempt rest ih =>
    obtain ⟨root, candidate⟩ := attempt
    obtain ⟨v, hv, hnext⟩ := Program.runs_transact_bind.1 h
    obtain rfl := hnobody hv
    obtain ⟨existence, htry⟩ := tryCandidate_eq v root candidate
    have hstill : v.Still (v.tryCandidate root candidate).2 := htry ▸ v.still_existence existence
    have hw₁ := hw.steady hscripted hstill.steady
    have hscripted₁ := hstill.beside.scripted hscripted
    cases hfound : (v.tryCandidate root candidate).1 with
    | some resource =>
      simp only [hfound] at hnext
      obtain ⟨hv', rfl, rfl⟩ := Program.runs_pure.1 hnext
      obtain rfl := hnobody hv'
      refine ⟨hw₁, hscripted₁, hstill.beside.resolver k, fun found ho => ?_⟩
      cases ho
      obtain ⟨hhome, hcandidate⟩ := htried _ List.mem_cons_self
      exact M.found v root name candidate resource hw.stores hw.files hhome hname hcandidate hfound
    | none =>
      simp only [hfound] at hnext
      obtain ⟨hcovers, hscripted', hresolver, hresource⟩ :=
        ih (fun a ha => htried a (List.mem_cons_of_mem _ ha)) hw₁ hscripted₁ hnext
      exact ⟨hcovers, hscripted', hresolver.trans (hstill.beside.resolver k), hresource⟩

theorem mem_attempts {near : Option Repository} {name : String} {attempt : Repository × String}
    (hnear : ∀ repository, near = some repository → M.homes repository)
    (h : attempt ∈ ModuleName.attempts M.modulePath M.extension near name) :
    M.homes attempt.1 ∧ attempt.2 ∈ ModuleName.candidates M.extension name := by
  obtain ⟨root, hroot, hmem⟩ := List.mem_flatMap.1 h
  obtain ⟨candidate, hcandidate, rfl⟩ := List.mem_map.1 hmem
  refine ⟨?_, hcandidate⟩
  unfold ModuleName.roots at hroot
  split at hroot
  · next repository =>
    split at hroot
    · obtain rfl := List.mem_singleton.1 hroot
      exact hnear _ rfl
    · exact M.roots root hroot
  · exact M.roots root hroot

theorem covers_locate (hedits : ∀ storage storage', ¬ S.edits storage storage') {name : String}
    (hname : names name) (hw : M.Covers k w) (hscripted : w.Scripted k)
    {caller : Option EnvironmentId} {o : Outcome (Answer UnitId)}
    (h : S.runs call frames (Worker.locate k caller name) w o w' t) : M.Covers k w' := by
  have hnobody : ∀ {v v' : World L}, Drifts S.edits v v' → v' = v := eq_of_drifts hedits
  obtain ⟨v₁, hv₁, hfrom⟩ := Program.runs_read_bind.1 h
  obtain ⟨v₂, hv₂, hresolve⟩ := Program.runs_read_bind.1 hfrom
  obtain ⟨v₃, hv₃, hsearch⟩ := Program.runs_read_bind.1 hresolve
  obtain rfl := hnobody hv₁
  obtain rfl := hnobody hv₂
  obtain rfl := hnobody hv₃
  obtain ⟨scripts, hkind⟩ := hw.resolver
  rw [hkind] at hsearch
  have hnear : ∀ repository, v₃.searchScope caller = some repository → M.homes repository := by
    intro repository hscope
    obtain ⟨env, -, hrepository⟩ := Option.bind_eq_some_iff.1 hscope
    exact hw.scopes env repository hrepository
  obtain ⟨found, v₄, t₁, t₂, hfirst, hrest, -⟩ | ⟨payload, v₄, hfirst, hv₄, -⟩ :=
    Program.runs_bind.1 hsearch
  · obtain ⟨hcovers, hscripted₄, hresolver, hresource⟩ := covers_firstCandidate hedits hname
      (fun _ => mem_attempts hnear) hw hscripted hfirst
    cases found with
    | none =>
      obtain ⟨hv, -, -⟩ := Program.runs_pure.1 hrest
      obtain rfl := hnobody hv
      exact hcovers
    | some resource =>
      obtain ⟨v₅, hv₅, hmade⟩ := Program.runs_transact_bind.1 hrest
      obtain rfl := hnobody hv₅
      obtain ⟨hv, -, -⟩ := Program.runs_pure.1 hmade
      obtain rfl := hnobody hv
      obtain ⟨hkey, hhome⟩ := hresource resource rfl
      rw [← hresolver]
      exact hcovers.scriptFor hscripted₄ name hkey hhome
  · obtain rfl := hnobody hv₄
    exact (covers_firstCandidate hedits hname (fun _ => mem_attempts hnear) hw hscripted hfirst).1

end Setting

def ModuleSet.Calm {names : String → Prop} (M : ModuleSet L names) (k : WorkerId) (w w' : World L) :
    Prop :=
  w.Beside w' ∧ (w.Scripted k → M.Covers k w → M.Covers k w')

theorem ModuleSet.calm_of_still {names : String → Prop} {M : ModuleSet L names} {k : WorkerId}
    {w w' : World L} (h : w.Still w') : M.Calm k w w' :=
  ⟨h.beside, fun hk hw => hw.steady hk h.steady⟩

namespace Setting

variable {S : Setting L} {names : String → Prop} {M : ModuleSet L names} {k : WorkerId}
  {thread : ThreadId}

theorem answersWithin_of_prompt (hedited : ∀ w w', Edited S.edits w w' → M.Calm k w w')
    {request : Request L} (h : request.IsPrompt) : S.AnswersWithin thread (M.Calm k) request :=
  answersWithin_of_moves hedited
    ((moves_answer h.leavesModules).mono fun _ _ hw => ModuleSet.calm_of_still hw)

/-- Where nobody edits, and scripts ask for nothing but modules that touches one, the modules that a
worker knows stay covered whatever happens besides loading. -/
theorem suits_calm (h : S.interpreter.Scripting (· = k) names Request.IsPrompt)
    (hedits : ∀ storage storage', ¬ S.edits storage storage') :
    S.Suits (· = k) names thread (M.Calm k) := by
  have hedited : ∀ w w', Edited S.edits w w' → M.Calm k w w' := by
    rintro w w' ⟨_, hedit, -⟩
    exact (hedits _ _ hedit).elim
  have hplain : ∀ request : Request L, request.IsPrompt →
      request.IsPlain ∧ S.AnswersWithin thread (M.Calm k) request :=
    fun _ hprompt => ⟨.of_leavesWorkers hprompt.leavesModules.leavesWorkers,
      answersWithin_of_prompt hedited hprompt⟩
  refine ⟨fun _ _ hw => hw.1, hedited, ?_, fun w resource => ?_, fun w j error => ?_,
    fun w j => ?_, fun path source => ?_, fun body j env hj => ?_, fun closure j this args hj => ?_⟩
  · rintro call frames w j caller name o w' t rfl hw hname hrun
    exact .single ⟨beside_located hw hrun, fun hk hcovers =>
      covers_locate hedits hname hcovers hk hrun⟩
  · obtain ⟨existence, hasked⟩ := resourceExists_eq w.storage resource
    rw [hasked]
    exact ModuleSet.calm_of_still (w.still_existence existence)
  · exact ModuleSet.calm_of_still (w.still_reportError j error)
  · exact ModuleSet.calm_of_still (w.still_setActive thread j)
  · exact (h.compiling path source).mono hplain
  · exact (h.executing body j env hj).mono fun request hr => hr.imp_right (hplain request)
  · exact (h.calling closure j this args hj).mono fun request hr => hr.imp_right (hplain request)

end Setting

namespace Config

variable {crew : WorkerId → Prop} {thread : ThreadId} {names : String → Prop}
  {M : ModuleSet L names} {k : WorkerId} {c c' : Config L}

theorem Step.steady {aside : World L → World L → Prop} (h : Step crew thread aside c c') :
    aside c.world c'.world ∨ c.world.Steady k c'.world ∨
      ∃ s j u key resource code time, c.stack = .load j u key (.ready code time) :: s ∧
        c.world.Script u key resource ∧ (c.world.addModule u resource).2.Steady k c'.world := by
  cases h with
  | aside h => exact .inl h
  | hit hpeek => exact .inr (.inl steady_answered)
  | miss hpeek => exact .inr (.inl (steady_modifyWorker fun _ => rfl))
  | @reuse s H w j u key env hget hfresh =>
    have hmarked : w.Steady k (w.modifyWorker j (Worker.marked key env)) :=
      steady_modifyWorker fun _ => rfl
    exact .inr (.inl (hmarked.trans steady_closed))
  | compiled hscript hreturned => exact .inr (.inl (steady_setCompiled _ _ _))
  | refuse hstage => exact .inr (.inl steady_closed)
  | @fill s H w j u key resource code time hscript hcompiled =>
    exact .inr (.inr ⟨s, j, u, key, resource, code, time, rfl, hscript,
      steady_modifyWorker fun _ => rfl⟩)
  | finish hreturned => exact .inr (.inl ((steady_stamp _ _).trans steady_closed))
  | fail hreturned => exact .inr (.inl steady_closed)
  | crash hstage hreturned => exact .inr (.inl (steady_modifyWorker fun _ => rfl))
  | enterInvoke => exact .inr (.inl (steady_modifyWorker fun _ => rfl))
  | settleInvoke => exact .inr (.inl (steady_modifyWorker fun _ => rfl))
  | _ => exact .inr (.inl (steady_refl _))

/-- A step keeps the modules that a worker knows covered. -/
theorem Step.covers (h : Step (· = k) thread (M.Calm k) c c') (hseat : c.Seated (· = k) thread)
    (hw : M.Covers k c.world) : M.Covers k c'.world := by
  have hscripted : c.world.Scripted k := (hseat.workers k rfl).scripted
  rcases h.steady (k := k) with hcalm | hsteady |
    ⟨s, j, u, key, resource, code, time, hs, hscript, hsteady⟩
  · exact hcalm.2 hscripted hw
  · exact hw.steady hscripted hsteady
  · obtain ⟨rfl, hholds⟩ : j = k ∧ c.world.Holds j u key :=
      hseat.known (.load j u key (.ready code time)) (hs ▸ List.mem_cons_self)
    have hhome := (hw.known u key resource hholds hscript).2
    exact (hw.addModule hhome).steady ((beside_addModule ..).scripted hscripted) hsteady

theorem Path.covers (h : Path (· = k) thread (M.Calm k) c c') (hc : c.Sound (· = k) thread)
    (hw : M.Covers k c.world) : M.Covers k c'.world := by
  induction h with
  | refl => exact hw
  | tail hpath hstep ih =>
    exact hstep.covers (Path.sound (fun _ _ hcalm => hcalm.1) hpath hc).seated ih

end Config

end ScriptWorker
