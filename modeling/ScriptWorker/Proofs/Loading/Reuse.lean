import ScriptWorker.Proofs.Loading.Freshness
import ScriptWorker.Proofs.Loading.Terminating

/-!
# Nothing changed, nothing reloaded

A worker that reloads looks at each module anew in each outermost call. A load that finds the module
of the last load fresh answers with it and does nothing else, and one that does not builds another
module.
-/

namespace ScriptWorker

open Relation World

variable {L : Language}

namespace World

/-- The modules that a worker has stored, their stamps and what their units lead to are as before. -/
structure Keeps (k : WorkerId) (w w' : World L) : Prop where
  grows : w.Grows k w'
  dependencies : ∀ u, w'.dependencies u = w.dependencies u
  scripted : w.Scripted k → w'.Scripted k
  linked : w.Linked k → w'.Linked k
  stamps : ∀ env, env < w.environments.size →
    (w'.environment env).checksum = (w.environment env).checksum
  environments : w.environments.size ≤ w'.environments.size
  stored : ∀ key, (w'.worker k).cache.get? key = (w.worker k).cache.get? key
  config : (w'.worker k).config = (w.worker k).config

section Keeps

variable {k : WorkerId} {w w' w'' : World L} {u : UnitId} {key : String} {env : EnvironmentId}

theorem Keeps.refl (k : WorkerId) (w : World L) : w.Keeps k w :=
  ⟨.refl k w, fun _ => rfl, id, id, fun _ _ => rfl, Nat.le_refl _, fun _ => rfl, rfl⟩

theorem Keeps.trans (h : w.Keeps k w') (h' : w'.Keeps k w'') : w.Keeps k w'' where
  grows := h.grows.trans h'.grows
  dependencies u := (h'.dependencies u).trans (h.dependencies u)
  scripted hw := h'.scripted (h.scripted hw)
  linked hw := h'.linked (h.linked hw)
  stamps env henv := (h'.stamps env (Nat.lt_of_lt_of_le henv h.environments)).trans (h.stamps env henv)
  environments := Nat.le_trans h.environments h'.environments
  stored key := (h'.stored key).trans (h.stored key)
  config := h'.config.trans h.config

theorem Apart.keeps (h : w.Apart w') (hscripted : w.Scripted k) : w.Keeps k w' where
  grows := ⟨fun _ _ hu => h.beside.holds hu, fun u key hu => by
    obtain ⟨_, hscript⟩ := hscripted.script hu
    exact (eq_of_graph (h.graph hscript.lt)).2.1, fun u => h.dependencies u ▸ List.Subset.refl _⟩
  dependencies := h.dependencies
  scripted := h.beside.scripted
  linked := h.linked
  stamps env henv := (h.stamps env henv).1
  environments := h.beside.environments
  stored key := by rw [h.beside.cache]
  config := h.beside.config k

theorem Keeps.isFresh (h : w.Keeps k w') (hscripted : w.Scripted k) (hlinked : w.Linked k)
    (hu : w.Holds k u key) (henv : env < w.environments.size) : w'.isFresh u env = w.isFresh u env := by
  have hreach : w'.LeadsTo u = w.LeadsTo u := by
    unfold LeadsTo
    simp only [h.dependencies]
  unfold World.isFresh
  rw [h.stamps env henv, h.grows.unitChecksum_eq hscripted hlinked (h.scripted hscripted)
    (h.linked hlinked) hu fun p hlead => hreach ▸ hlead]

theorem keeps_modifyWorker {f : Worker → Worker} (hk : k < w.workers.size)
    (hresolver : ∀ x, (f x).resolver = x.resolver)
    (hstored : ∀ key, (f (w.worker k)).cache.get? key = (w.worker k).cache.get? key)
    (hconfig : (f (w.worker k)).config = (w.worker k).config) : w.Keeps k (w.modifyWorker k f) where
  grows := ⟨fun _ _ hu => hu.modifyWorker hresolver, fun _ _ _ => rfl, fun _ => List.Subset.refl _⟩
  dependencies _ := rfl
  scripted hw := by
    obtain ⟨scripts, hs, hscripts⟩ := hw
    exact ⟨scripts, (scripts_modifyWorker hresolver).trans hs, hscripts⟩
  linked hw u key v hu hv := by
    unfold Holds at hu ⊢
    rw [scripts_modifyWorker hresolver] at hu ⊢
    exact hw u key v hu hv
  stamps _ _ := rfl
  environments := Nat.le_refl _
  stored key := by
    rw [worker_modifyWorker_self hk]
    exact hstored key
  config := by
    rw [worker_modifyWorker_self hk]
    exact hconfig

end Keeps

end World

/-- How a load stands that looks at a module again, while it has shown nothing yet: either it is about to
look, or the module was fresh and is the answer, or it was not. -/
def Stage.Rechecks (k : WorkerId) (u : UnitId) (env : EnvironmentId) (start w : World L) :
    Stage L → Prop
  | arriving => start.Keeps k w
  | opened => start.Keeps k w
  | settled (.done (.ok found)) => start.isFresh u env ∧ found = env ∧ start.Keeps k w
  | _ => ¬ start.isFresh u env

theorem Stage.Rechecks.trans {k : WorkerId} {u : UnitId} {env : EnvironmentId} {start w w' : World L}
    {stage : Stage L} (h : stage.Rechecks k u env start w) (hw : w.Keeps k w') :
    stage.Rechecks k u env start w' := by
  cases stage with
  | arriving => exact Keeps.trans h hw
  | opened => exact Keeps.trans h hw
  | settled outcome =>
    cases outcome with
    | panic payload => exact h
    | done answer =>
      cases answer with
      | error cause => exact h
      | ok found => exact ⟨h.1, h.2.1, h.2.2.trans hw⟩
  | _ => exact h

namespace Config

section Rechecks

variable {thread : ThreadId} {aside : World L → World L → Prop} {k : WorkerId} {u : UnitId}
  {key : String} {env : EnvironmentId} {stage : Stage L} {start w : World L} {m : Moment L}
  {c c' : Config L}

theorem not_returned {frames : List (Frame L)} {f : Frame L} {callee : Callee L}
    {o : Outcome callee.Result} : ¬ Returned [⟨frames, .entered f, w⟩] callee o := by
  rintro ⟨before, frames', v, heq⟩
  have hlast := congrArg List.getLast? heq
  simp at hlast

/-- A load that looks at a module again goes on looking, or answers with it because it is fresh, or finds
that it is not. -/
theorem Step.rechecks (haside : ∀ w w', aside w w' → w.Apart w')
    (h : Step (· = k) thread aside c c') (hseat : c.Seated (· = k) thread)
    (hscripted : start.Scripted k) (hlinked : start.Linked k) (hu : start.Holds k u key)
    (henv : env < start.environments.size)
    (hget : (start.worker k).cache.get? key = some env)
    (hreload : (start.worker k).config.reloading = true) {v : World L}
    (hhistory : c.history = [⟨[], .entered (.load k u key), v⟩]) (hsame : c'.history = c.history)
    (hstack : c.stack = [.load k u key stage]) (hstage : stage.Rechecks k u env start c.world) :
    ∃ stage', c'.stack = [.load k u key stage'] ∧ stage'.Rechecks k u env start c'.world := by
  have hrow := (hseat.workers k rfl).row
  obtain ⟨stack, H, w⟩ := c
  obtain rfl : _ = _ := hstack
  obtain rfl : _ = _ := hhistory
  cases h with
  | aside h =>
    exact ⟨stage, rfl, hstage.trans ((haside _ _ h).keeps (hseat.workers k rfl).scripted)⟩
  | hit hpeek =>
    have hkeeps : start.Keeps k w := hstage
    obtain ⟨-, hdepth⟩ := hseat.of_peek_entered rfl (hkeeps.config ▸ hreload) hpeek
    rw [Activity.depth_load_outside rfl] at hdepth
    cases hdepth
  | miss hnone =>
    have hkeeps : start.Keeps k w := hstage
    have hconfig : ((w.worker k).opened thread u key).config = (w.worker k).config := rfl
    exact ⟨_, rfl, hkeeps.trans (keeps_modifyWorker hrow (fun _ => rfl)
      (fun _ => (ModuleCache.get?_checked ..).trans Worker.get?_entered) hconfig)⟩
  | @reuse _ _ _ _ _ _ found hstored hfresh =>
    have hkeeps : start.Keeps k w := hstage
    obtain rfl : found = env := Option.some.inj (hstored.symm.trans ((hkeeps.stored key).trans hget))
    refine ⟨_, rfl, ?_, rfl, hkeeps.trans ?_⟩
    · rw [← hkeeps.isFresh hscripted hlinked hu henv]
      exact hfresh
    · unfold World.closed
      rw [modifyWorker_modifyWorker]
      refine keeps_modifyWorker hrow (fun _ => rfl) (fun key' => ?_) rfl
      change (((w.worker k).cache.mark key found).put key found).get? key' = _
      by_cases hkey : key = key'
      · subst hkey
        rw [ModuleCache.get?_put, if_pos rfl]
        exact hstored.symm
      · rw [ModuleCache.get?_put, if_neg hkey, ModuleCache.get?_mark, if_neg fun h => hkey h.2]
  | distrust hstale =>
    have hkeeps : start.Keeps k w := hstage
    refine ⟨_, rfl, fun hfresh => hstale env ((hkeeps.stored key).trans hget) ?_⟩
    rw [hkeeps.isFresh hscripted hlinked hu henv]
    exact hfresh
  | compiled hscript hreturned => exact (not_returned hreturned).elim
  | finish hreturned => exact (not_returned hreturned).elim
  | fail hreturned => exact (not_returned hreturned).elim
  | crash hstage hreturned => exact (not_returned hreturned).elim
  | refuse hreading =>
    refine ⟨_, rfl, ?_⟩
    cases stage <;> first | exact hstage | cases hreading
  | _ => first | exact ⟨_, rfl, hstage⟩ | simp at hsame

theorem Path.rechecks (haside : ∀ w w', aside w w' → w.Apart w') {v : World L}
    (h : Path (· = k) thread aside
      ⟨[.load k u key .arriving], [⟨[], .entered (.load k u key), v⟩], start⟩ c)
    (hc : Sound (· = k) thread
      ⟨[.load k u key .arriving], [⟨[], .entered (.load k u key), v⟩], start⟩)
    (hlinked : start.Linked k) (hget : (start.worker k).cache.get? key = some env)
    (hreload : (start.worker k).config.reloading = true)
    (hhistory : c.history = [⟨[], .entered (.load k u key), v⟩]) :
    ∃ stage, c.stack = [.load k u key stage] ∧ stage.Rechecks k u env start c.world := by
  have hbeside : ∀ w w', aside w w' → w.Beside w' := fun _ _ h => (haside _ _ h).beside
  induction h with
  | refl => exact ⟨_, rfl, Keeps.refl k start⟩
  | @tail b c hpath hstep ih =>
    have hbefore : b.history = [⟨[], .entered (.load k u key), v⟩] := by
      obtain ⟨after, hafter⟩ := Path.history hpath
      rcases hstep.history with hsame | ⟨m, hadded⟩
      · exact hsame.symm.trans hhistory
      · have hlength := congrArg List.length (hadded.symm.trans hhistory)
        rw [hafter] at hlength
        simp at hlength
    obtain ⟨stage, hstack, hstage⟩ := ih hbefore
    have hload : k = k ∧ start.Holds k u key :=
      hc.seated.known (.load k u key .arriving) List.mem_cons_self
    exact hstep.rechecks haside (Path.sound hbeside hpath hc).seated
      (hc.seated.workers k rfl).scripted hlinked hload.2 (hc.bounded k key env rfl (.inl hget)) hget hreload hbefore
      (hhistory.trans hbefore.symm) hstack hstage

theorem Step.frames_of_rechecks (h : Step (· = k) thread aside c c')
    (hstack : c.stack = [.load k u key stage]) (hstage : stage.Rechecks k u env start c.world)
    (hfresh : start.isFresh u env) (hadded : c'.history = c.history ++ [m]) : m.frames = [] := by
  obtain ⟨stack, H, w⟩ := c
  obtain rfl : _ = _ := hstack
  cases h <;> simp at hadded
  case arrive hk hload hholds => exact hload.elim
  case compile hscript => exact (hstage hfresh).elim
  case execute => exact (hstage hfresh).elim
  case leave => exact hadded ▸ rfl
  case arriveInvoke hk hcall => exact hcall.elim

end Rechecks

end Config

def Request.LoadsOn (k : WorkerId) (names : String → Prop) : Request L → Prop
  | .loadModule j _ name => j = k ∧ names name
  | _ => False

theorem Request.LoadsOn.callsOn {k : WorkerId} {names : String → Prop} {request : Request L}
    (h : request.LoadsOn k names) : request.CallsOn (· = k) names := by
  cases request <;> first | exact h | exact h.elim

def Asked (t : List (Moment L)) (k : WorkerId) (u : UnitId) (key : String) : Prop :=
  ∃ v, ⟨[], .entered (.load k u key), v⟩ ∈ t

/-- A load is answered with a module, and nothing else shows. -/
def Reused (t : List (Moment L)) (k : WorkerId) (u : UnitId) (key : String) (env : EnvironmentId) :
    Prop :=
  ∃ v v', t = [⟨[], .entered (.load k u key), v⟩, ⟨[], .left (.load k u key) (.done (.ok env)), v'⟩]

namespace Setting

variable {S : Setting L} {names : String → Prop} {thread : ThreadId} {k : WorkerId} {u : UnitId}
  {key : String} {env : EnvironmentId} {w w' : World L} {t : List (Moment L)} {depth : Nat}

/-- A load that the host asks for, from the moment at which it begins. -/
structure Begins (thread : ThreadId) (k : WorkerId) (u : UnitId) (key : String)
    (w : World L) (o : Outcome (Answer EnvironmentId)) (w' : World L) (t : List (Moment L))
    (v : World L) (inner : List (Moment L)) : Prop where
  located : w.Apart v
  moments : t = ⟨[], .entered (.load k u key), v⟩ :: inner ++ [⟨[], .left (.load k u key) o, w'⟩]
  path : Config.Path (· = k) thread World.Apart
    ⟨[.load k u key .arriving], [⟨[], .entered (.load k u key), v⟩], v⟩
    ⟨[.load k u key (.settled o)], ⟨[], .entered (.load k u key), v⟩ :: inner, w'⟩
  sound : Config.Sound (· = k) thread
    ⟨[.load k u key .arriving], [⟨[], .entered (.load k u key), v⟩], v⟩
  inside : ∀ m ∈ inner, [.load k u key] <:+ m.frames

theorem begins_of_loads (hS : S.interpreter.Scripting (· = k) names Request.LeavesModules)
    (hw : w.Rests (· = k)) {caller : Option EnvironmentId} {name : String} (hname : names name)
    {o : Outcome (Answer EnvironmentId)}
    (h : S.steady.answers thread (S.steady.calls thread depth) [] (.loadModule k caller name) w o w' t) :
    t = [] ∧ w.Apart w' ∧ (∃ cause, o = .done (.error cause)) ∨
      ∃ u key v inner, Begins thread k u key w o w' t v inner := by
  have hsuits : S.steady.Suits (· = k) names thread World.Apart := suits_apart hS
  have hscripted := hw.scripted k rfl
  rcases loads_cases hscripted h with ⟨cause, hlocate, rfl⟩ | ⟨u, key, v, inner, hlocate, hu, hload, rfl⟩
  · have hlocated : w.Apart w' := apart_chain (hsuits.located _ _ _ _ _ _ _ _ _ rfl hscripted hname hlocate)
    exact .inl ⟨(locate_cases hscripted hlocate).1, hlocated, cause, rfl⟩
  · have hlocated : w.Apart v := apart_chain (hsuits.located _ _ _ _ _ _ _ _ _ rfl hscripted hname hlocate)
    have hrests := hw.beside hlocated.beside
    have harrive : Config.Step (· = k) thread World.Apart ⟨[], [], v⟩
        ⟨[.load k u key .arriving], [] ++ [⟨[], .entered (.load k u key), v⟩], v⟩ :=
      .arrive rfl trivial hu
    have hsound := harrive.sound hsuits.beside hrests.sound
    have hpath := path_loadUnit (s := []) hsuits (follows_calls hsuits depth) hsound.seated hload
    refine .inr ⟨u, key, v, inner, hlocated, rfl, hpath, hsound, fun m hm => ?_⟩
    exact inside_runs (inside_calls depth [.load k u key]) _ v o w' inner hload m hm

section Begins

variable {o : Outcome (Answer EnvironmentId)} {v : World L} {inner : List (Moment L)}
  (h : Begins thread k u key w o w' t v inner) (hscripted : w.Scripted k) (hlinked : w.Linked k)
  (hu : w.Holds k u key) (henv : env < w.environments.size) (hget : (w.worker k).cache.get? key = some env)
  (hreload : (w.worker k).config.reloading = true)
include h hscripted hlinked hu henv hget hreload

/-- A load that shows nothing inside answers with the module if this is fresh, and else not. -/
theorem Begins.answer (hinner : inner = []) :
    (w.isFresh u env → o = .done (.ok env) ∧ w.Keeps k w') ∧ (o = .done (.ok env) → w.isFresh u env) := by
  have hkeeps : w.Keeps k v := h.located.keeps hscripted
  have hsame : v.isFresh u env = w.isFresh u env := hkeeps.isFresh hscripted hlinked hu henv
  have hpath := h.path
  rw [hinner] at hpath
  obtain ⟨stage, hstack, hstage⟩ := Config.Path.rechecks (fun _ _ h => h) hpath h.sound
    (hkeeps.linked hlinked) ((hkeeps.stored key).trans hget) (hkeeps.config ▸ hreload) rfl
  cases hstack
  rw [← hsame]
  cases o with
  | panic payload => exact ⟨fun hfresh => (hstage hfresh).elim, fun h => nomatch h⟩
  | done answer =>
    cases answer with
    | error cause => exact ⟨fun hfresh => (hstage hfresh).elim, fun h => nomatch h⟩
    | ok found =>
      obtain ⟨hfresh, rfl, hkept⟩ := hstage
      exact ⟨fun _ => ⟨rfl, hkeeps.trans hkept⟩, fun _ => hfresh⟩

theorem Begins.inner_eq_nil (hfresh : w.isFresh u env) : inner = [] := by
  have hkeeps : w.Keeps k v := h.located.keeps hscripted
  cases inner with
  | nil => rfl
  | cons m after =>
    have hsplit : [⟨[], .entered (.load k u key), v⟩] ++ m :: after =
        [⟨[], .entered (.load k u key), v⟩] ++ m :: after := rfl
    rcases h.path.split hsplit with hlt | ⟨c₁, c₂, h₁, hstep, hbefore, hadded, -⟩
    · exact (Nat.lt_irrefl _ hlt).elim
    · obtain ⟨stage, hstack, hstage⟩ := Config.Path.rechecks (fun _ _ h => h) h₁ h.sound
        (hkeeps.linked hlinked) ((hkeeps.stored key).trans hget) (hkeeps.config ▸ hreload) hbefore
      have hframes := hstep.frames_of_rechecks hstack hstage
        ((hkeeps.isFresh hscripted hlinked hu henv).trans hfresh) (hadded.trans (by rw [hbefore]))
      have hinside := h.inside m List.mem_cons_self
      rw [hframes] at hinside
      cases List.suffix_nil.1 hinside

/-- A load reuses the module of the last load exactly if this is fresh. -/
theorem Begins.reused_iff : Reused t k u key env ↔ w.isFresh u env := by
  constructor
  · rintro ⟨x, x', ht⟩
    have hinner : inner = [] := by
      have hlength := congrArg List.length (h.moments.symm.trans ht)
      simpa using hlength
    have hmoments := h.moments.symm.trans ht
    rw [hinner] at hmoments
    have ho : o = .done (.ok env) := by
      simp only [List.cons_append, List.nil_append, List.cons.injEq, Moment.mk.injEq, Event.left.injEq,
        heq_eq_eq] at hmoments
      exact hmoments.2.1.2.1.2
    exact (h.answer hscripted hlinked hu henv hget hreload hinner).2 ho
  · intro hfresh
    have hinner := h.inner_eq_nil hscripted hlinked hu henv hget hreload hfresh
    obtain ⟨ho, -⟩ := (h.answer hscripted hlinked hu henv hget hreload hinner).1 hfresh
    refine ⟨v, w', ?_⟩
    rw [h.moments, hinner, ho]
    rfl

theorem Begins.keeps (hfresh : w.isFresh u env) : w.Keeps k w' :=
  ((h.answer hscripted hlinked hu henv hget hreload
    (h.inner_eq_nil hscripted hlinked hu henv hget hreload hfresh)).1 hfresh).2

end Begins

theorem Begins.opens {o : Outcome (Answer EnvironmentId)} {v : World L} {inner : List (Moment L)}
    (h : Begins thread k u key w o w' t v inner) : ∀ m ∈ t.tail, m.opens k = false := by
  intro m hm
  rw [h.moments] at hm
  rcases List.mem_append.1 hm with hm | hm
  · have hinside := h.inside m hm
    unfold Moment.opens
    split
    · have hany : m.frames.any (Frame.isOn k) = true :=
        List.any_eq_true.2 ⟨_, hinside.subset List.mem_cons_self, by simp [Frame.isOn]⟩
      simp [hany]
    · rfl
  · rw [List.mem_singleton.1 hm]
    rfl

theorem Begins.arrives {o : Outcome (Answer EnvironmentId)} {v : World L} {inner : List (Moment L)}
    (h : Begins thread k u key w o w' t v inner) : Config.Path (· = k) thread World.Apart
      ⟨[.load k u key .arriving], [⟨[], .entered (.load k u key), v⟩], v⟩ ⟨[], t, w'⟩ := by
  have hleave := h.path.tail .leave
  rw [h.moments]
  exact hleave

theorem not_given {k' : WorkerId} {u' : UnitId} {key' : String} :
    ¬ (⟨[.load k u key .arriving], [⟨[], .entered (.load k u key), w⟩], w⟩ : Config L).Given
      k' u' key' env := by
  rintro (⟨_, _, hmem⟩ | ⟨_, hstack⟩)
  · cases List.mem_singleton.1 hmem
  · cases hstack

theorem delivers_begin {v : World L} : (⟨[.load k u key .arriving],
    [⟨[], .entered (.load k u key), v⟩], v⟩ : Config L).Delivers k where
  answered _ _ _ _ _ hstack := by cases hstack
  holds _ _ _ hgiven := (not_given hgiven).elim
  kept _ _ _ hgiven := (not_given hgiven).elim
  viewed _ _ _ hpos := by
    rw [Activity.depth_load_outside rfl] at hpos
    cases hpos
  stored _ _ _ hgiven := (not_given hgiven).elim

theorem steady_begin {v : World L} (hlinked : v.Linked k) : (⟨[.load k u key .arriving],
    [⟨[], .entered (.load k u key), v⟩], v⟩ : Config L).Steady k where
  linked := hlinked
  dated _ _ _ _ _ hmem htime := by
    cases List.mem_singleton.1 hmem
    cases htime
  alone _ _ _ _ hmem hmodule := by
    cases List.mem_singleton.1 hmem
    cases hmodule
  certified _ _ _ hgiven := (not_given hgiven).elim

section Course

variable {o : Outcome (Answer EnvironmentId)} {v : World L} {inner : List (Moment L)}
  (h : Begins thread k u key w o w' t v inner) (hscripted : w.Scripted k)
  (hreload : (w.worker k).config.reloading = true) (hall : AllLoaded t k)
include h hscripted hreload hall

theorem Begins.delivers : (⟨[], t, w'⟩ : Config L).Delivers k :=
  Config.Path.delivers (fun _ _ hw => hw.beside) h.arrives h.sound
    ((h.located.keeps hscripted).config ▸ hreload) delivers_begin
    fun _ _ h₁ hstep h₂ => h₁.smooth hstep h₂ (List.cons_ne_nil _ _) h.opens hall

theorem Begins.steady (hlinked : w.Linked k) : (⟨[], t, w'⟩ : Config L).Steady k :=
  Config.Path.steady (fun _ _ hw => hw) h.arrives h.sound
    ((h.located.keeps hscripted).config ▸ hreload) delivers_begin
    (steady_begin (h.located.linked hlinked))
    fun _ _ h₁ hstep h₂ => h₁.smooth hstep h₂ (List.cons_ne_nil _ _) h.opens hall

end Course

theorem Begins.config {o : Outcome (Answer EnvironmentId)} {v : World L} {inner : List (Moment L)}
    (h : Begins thread k u key w o w' t v inner) : (w'.worker k).config = (w.worker k).config :=
  (h.arrives.config (fun _ _ hw => hw.beside) k).trans (h.located.beside.config k)

theorem Begins.eq_of_asked {o : Outcome (Answer EnvironmentId)} {v : World L} {inner : List (Moment L)}
    {u' : UnitId} {key' : String} (h : Begins thread k u key w o w' t v inner)
    (hasked : Asked t k u' key') : u' = u ∧ key' = key := by
  obtain ⟨x, hmem⟩ := hasked
  rw [h.moments] at hmem
  rcases List.mem_append.1 hmem with hmem | hmem
  · rcases List.mem_cons.1 hmem with heq | hmem
    · cases heq
      exact ⟨rfl, rfl⟩
    · cases List.suffix_nil.1 (h.inside _ hmem)
  · cases List.mem_singleton.1 hmem

section Answers

theorem completes_loadUnit_of_fresh {n : Nat} {v : World L}
    (hS : S.Suits (· = k) names thread World.Apart)
    (hc : Config.Sound (· = k) thread ⟨[.load k u key .arriving], [⟨[], .entered (.load k u key), v⟩], v⟩)
    (hget : (v.worker k).cache.get? key = some env) (hfresh : v.isFresh u env) :
    (Worker.loadUnit thread k u).Completes (S.playCall thread n [.load k u key]) v := by
  have hseat := hc.seated.workers k rfl
  have hload : k = k ∧ v.Holds k u key := hc.seated.known (.load k u key .arriving) List.mem_cons_self
  obtain ⟨resource, hscript⟩ := hseat.scripted.script hload.2
  have hadmits : (v.worker k).serializer.admits thread := by
    rw [hseat.serializer]
    exact Serializer.heldBy_admits ..
  have hserial : (Worker.serialized thread k (Worker.checkOrLoad k u key)).Completes
      (S.playCall thread n [.load k u key]) v := by
    refine Program.completes_bind (completes_enter hadmits) fun guard w' t henter => ?_
    -- nobody edits anything while a program is evaluated
    have hrun : (Worker.enter thread k).Runs (Edited fun _ _ => False)
        (fun callee w o w' t => S.playCall thread n [.load k u key] callee w = some (o, w', t))
        v (.done guard) w' t := Program.runs_of_evaluate (fun _ _ _ _ _ h => h) henter
    obtain ⟨v', -, hv, -, -, rfl, -⟩ := Worker.runs_enter hseat.row hrun
    obtain rfl := eq_of_drifts (fun _ _ => id) hv
    refine Program.completes_thenOutcome (completes_checkOrLoad (fun _ => ?_) ?_) fun _ _ _ _ => rfl
    · unfold World.entered
      rw [worker_modifyWorker_self hseat.row, modifyWorker_modifyWorker, Worker.get?_entered, hget]
      have hopened : (v'.modifyWorker k (Worker.opened thread u key)).Script u key resource := hscript
      have hfresh' : (v'.modifyWorker k (Worker.opened thread u key)).isFresh u env := hfresh
      obtain ⟨unit, compiled, hunit, hsource, -⟩ := hopened
      unfold ExecutableUnit.load Script.load
      refine (Program.completes_read_bind (w := v'.modifyWorker k (Worker.opened thread u key))).2 ?_
      simp only [hunit, Option.map_some, hsource]
      refine (Program.completes_read_bind (w := v'.modifyWorker k (Worker.opened thread u key))).2 ?_
      rw [Option.filter_some, if_pos hfresh']
      rfl
    · unfold World.entered
      rw [size_modifyWorker]
      exact hseat.row
  unfold Worker.loadUnit
  rw [Program.completes_read_bind, Script.unitKey hscript]
  refine Program.completes_bind hserial fun found w' t hfound => ?_
  obtain ⟨answer, parent⟩ := found
  have hrun : S.runs (S.calls thread n) [.load k u key]
      (Worker.serialized thread k (Worker.checkOrLoad k u key)) v (.done (answer, parent)) w' t :=
    Program.runs_of_evaluate (follows_playCall n _) hfound
  obtain ⟨rfl, -⟩ := path_serialLoad (s := []) hS (follows_calls hS n) hc.seated hrun
  rfl

theorem answers_of_fresh {caller : Option EnvironmentId} {name : String} {v : World L}
    (hS : S.interpreter.Scripting (· = k) names Request.LeavesModules) (hrests : w.Rests (· = k))
    (hlinked : w.Linked k) (hreload : (w.worker k).config.reloading = true) (hname : names name)
    (hu : w.Holds k u key) (hget : (w.worker k).cache.get? key = some env) (hfresh : w.isFresh u env)
    (hlocate : S.steady.runs (S.steady.calls thread depth) [] (Worker.locate k caller name) w
      (.done (.ok u)) v []) :
    ∃ w' t, S.steady.answers thread (S.steady.calls thread depth) [] (.loadModule k caller name) w
      (.done (.ok env)) w' t ∧ Reused t k u key env := by
  have hsuits : S.steady.Suits (· = k) names thread World.Apart := suits_apart hS
  have hscripted := hrests.scripted k rfl
  have henv := hrests.stored k key env rfl hget
  have hlocated : w.Apart v := apart_chain (hsuits.located _ _ _ _ _ _ _ _ _ rfl hscripted hname hlocate)
  have hkeeps : w.Keeps k v := hlocated.keeps hscripted
  have hheld := hkeeps.grows.holds u key hu
  have harrive : Config.Step (· = k) thread World.Apart ⟨[], [], v⟩
      ⟨[.load k u key .arriving], [] ++ [⟨[], .entered (.load k u key), v⟩], v⟩ :=
    .arrive rfl trivial hheld
  have hsound := harrive.sound hsuits.beside (hrests.beside hlocated.beside).sound
  obtain ⟨⟨o, w', t⟩, hplayed⟩ := Option.isSome_iff_exists.1 (completes_loadUnit_of_fresh (n := depth)
    hsuits hsound ((hkeeps.stored key).trans hget)
    ((hkeeps.isFresh hscripted hlinked hu henv).trans hfresh))
  have hrun : S.steady.runs (S.steady.calls thread depth) [.load k u key] (Worker.loadUnit thread k u)
      v o w' t := Program.runs_of_evaluate (follows_playCall depth _) hplayed
  have hanswers : S.steady.answers thread (S.steady.calls thread depth) [] (.loadModule k caller name)
      w o w' (⟨[], .entered (.load k u key), v⟩ :: t ++ [⟨[], .left (.load k u key) o, w'⟩]) := by
    refine ⟨.done (.ok u), v, [], _, hlocate, ?_, rfl⟩
    dsimp only
    rw [hheld.unitKey (hkeeps.scripted hscripted)]
    exact ⟨t, hrun, rfl⟩
  rcases begins_of_loads hS hrests hname hanswers with ⟨hnone, -⟩ | ⟨u', key', x, inner, hbegins⟩
  · cases hnone
  · obtain ⟨rfl, rfl⟩ := hbegins.eq_of_asked ⟨v, List.mem_cons_self⟩
    have hinner := hbegins.inner_eq_nil hscripted hlinked hu henv hget hreload hfresh
    obtain ⟨rfl, -⟩ := (hbegins.answer hscripted hlinked hu henv hget hreload hinner).1 hfresh
    exact ⟨w', _, hanswers, (hbegins.reused_iff hscripted hlinked hu henv hget hreload).2 hfresh⟩

end Answers

section Sequences

variable {start : World L} {later : List (List (Moment L))}
  {given : UnitId → String → EnvironmentId → Prop}

/-- Operations that ask for modules again are all answered with these, and show nothing else, exactly if
each module that is asked for was fresh at the start. -/
theorem Operates.reuses (hS : S.interpreter.Scripting (· = k) names Request.LeavesModules)
    (hrests : start.Rests (· = k)) (hlinked : start.Linked k)
    (hreload : (start.worker k).config.reloading = true)
    (hgiven : ∀ u key env, given u key env →
      start.Holds k u key ∧ (start.worker k).cache.get? key = some env)
    (h : S.steady.Operates World.Apart (Request.LoadsOn k names) start later w)
    (hasked : ∀ t ∈ later, ∃ u key env, given u key env ∧ Asked t k u key) :
    w.Rests (· = k) ∧
    ((∀ t ∈ later, ∀ u key env, given u key env → Asked t k u key → start.isFresh u env) →
      start.Keeps k w) ∧
    ((∀ t ∈ later, ∀ u key env, given u key env → Asked t k u key → Reused t k u key env) ↔
      ∀ t ∈ later, ∀ u key env, given u key env → Asked t k u key → start.isFresh u env) := by
  have hscripted := hrests.scripted k rfl
  induction h with
  | start =>
    have hnone {P : List (Moment L) → Prop} : ∀ t ∈ ([] : List (List (Moment L))), P t := by simp
    exact ⟨hrests, fun _ => Keeps.refl k start, fun _ => hnone, fun _ => hnone⟩
  | between hbefore hmove ih =>
    obtain ⟨hrests, hkeeps, hiff⟩ := ih hasked
    exact ⟨hrests.beside hmove.beside, fun hfresh => (hkeeps hfresh).trans (hmove.keeps (hrests.scripted k rfl)), hiff⟩
  | @operation operations v w' thread depth request o t hbefore hasks hrun ih =>
    obtain ⟨hrests', hkeeps, hiff⟩ := ih fun t ht => hasked t (List.mem_append_left _ ht)
    have hsuits : S.steady.Suits (· = k) names thread World.Apart := suits_apart hS
    refine ⟨rests_operation hsuits hrests' hasks.callsOn hrun, ?_⟩
    obtain ⟨u, key, env, hu, hask⟩ := hasked t (List.mem_append_right _ (List.mem_singleton_self t))
    cases request with
    | loadModule j caller name =>
      obtain ⟨rfl, hname⟩ := hasks
      rcases begins_of_loads hS hrests' hname hrun with ⟨rfl, -⟩ | ⟨u', key', x, inner, hbegins⟩
      · obtain ⟨_, hmem⟩ := hask
        cases hmem
      -- one operation more, on a world that keeps the modules of the start
      have hstep {u key env} (hu : given u key env) (hask : Asked t j u key)
          (hkept : start.Keeps j v) :
          (Reused t j u key env ↔ start.isFresh u env) ∧
            (start.isFresh u env → start.Keeps j w') := by
        obtain ⟨rfl, rfl⟩ := hbegins.eq_of_asked hask
        obtain ⟨hunit, hget⟩ := hgiven u key env hu
        have henv := hrests.stored j key env rfl hget
        have hfresh := hkept.isFresh hscripted hlinked hunit henv
        have hunit' := hkept.grows.holds u key hunit
        have hscripted' := hkept.scripted hscripted
        have hlinked' := hkept.linked hlinked
        have henv' := Nat.lt_of_lt_of_le henv hkept.environments
        have hget' := (hkept.stored key).trans hget
        have hreload' : (v.worker j).config.reloading = true := hkept.config ▸ hreload
        rw [← hfresh]
        exact ⟨hbegins.reused_iff hscripted' hlinked' hunit' henv' hget' hreload',
          fun h => hkept.trans (hbegins.keeps hscripted' hlinked' hunit' henv' hget' hreload' h)⟩
      simp only [List.forall_mem_append, List.forall_mem_singleton]
      refine ⟨fun hfresh => ?_, fun hreused => ?_, fun hfresh => ?_⟩
      · exact (hstep hu hask (hkeeps hfresh.1)).2 (hfresh.2 u key env hu hask)
      · have hall := hiff.1 hreused.1
        exact ⟨hall, fun u key env hu hask =>
          (hstep hu hask (hkeeps hall)).1.1 (hreused.2 u key env hu hask)⟩
      · exact ⟨hiff.2 hfresh.1, fun u key env hu hask =>
          (hstep hu hask (hkeeps hfresh.1)).1.2 (hfresh.2 u key env hu hask)⟩
    | _ => exact hasks.elim

/-- What becomes of the modules that a call has loaded, after the call and after later operations. -/
structure ReusedIfFresh (S : Setting L) (depth : Nat) (k : WorkerId) (names : String → Prop)
    (w₁ w₂ : World L) (t : List (Moment L)) (later : List (List (Moment L))) : Prop where
  /-- Whatever was loaded was fresh when its load ended, and is so after the call if its unit leads to
  nothing more by then. -/
  lasting : ∀ u key env, Loaded t k u key env → ∃ x, Config.Ended t k u key env x ∧
    (w₁.isFresh u env ↔ w₁.unitChecksum u = x.unitChecksum u) ∧
    ((∀ p, w₁.LeadsTo u p → x.LeadsTo u p) → w₁.isFresh u env)
  /-- Later loads of these modules answer with them and do nothing else exactly if they are fresh. -/
  reused : (∀ t' ∈ later, ∀ u key env, Loaded t k u key env → Asked t' k u key → Reused t' k u key env) ↔
    ∀ t' ∈ later, ∀ u key env, Loaded t k u key env → Asked t' k u key → w₁.isFresh u env
  /-- If they are, then a load of one of them does answer. -/
  answered : (∀ t' ∈ later, ∀ u key env, Loaded t k u key env → Asked t' k u key → w₁.isFresh u env) →
    ∀ u key env thread' caller' name' v, Loaded t k u key env → w₁.isFresh u env → names name' →
      S.steady.runs (S.steady.calls thread' depth) [] (Worker.locate k caller' name') w₂
        (.done (.ok u)) v [] →
      ∃ w₃ t', S.steady.answers thread' (S.steady.calls thread' depth) []
        (.loadModule k caller' name') w₂ (.done (.ok env)) w₃ t' ∧ Reused t' k u key env

theorem Operates.reusedIfFresh {start₀ w₀ w₁ w₂ : World L} {before : List (List (Moment L))}
    {t : List (Moment L)} {caller : Option EnvironmentId} {name : String} {env₀ : EnvironmentId}
    (hS : S.interpreter.Scripting (· = k) names Request.LeavesModules) (hrests : start₀.Rests (· = k))
    (hlinked : start₀.Linked k)
    (hbefore : S.Operates (World.Linking k) (Request.CallsOn (· = k) names) start₀ before w₀)
    (hreload : (w₀.worker k).config.reloading = true) (hname : names name)
    (hcall : S.steady.answers thread (S.steady.calls thread depth) [] (.loadModule k caller name) w₀
      (.done (.ok env₀)) w₁ t)
    (hall : AllLoaded t k)
    (hlater : S.steady.Operates World.Apart (Request.LoadsOn k names) w₁ later w₂)
    (hasked : ∀ t' ∈ later, ∃ u key env, Loaded t k u key env ∧ Asked t' k u key) :
    S.ReusedIfFresh depth k names w₁ w₂ t later := by
  obtain ⟨hrests₀, hlinked₀⟩ := hbefore.linked hS hrests hlinked
  have hscripted₀ := hrests₀.scripted k rfl
  obtain ⟨u, key, v, inner, hbegins⟩ : ∃ u key v inner, Begins thread k u key w₀ _ w₁ t v inner := by
    rcases begins_of_loads hS hrests₀ hname hcall with ⟨-, -, cause, heq⟩ | hbegins
    · cases heq
    · exact hbegins
  have hasks : (Request.loadModule k caller name : Request L).CallsOn (· = k) names := ⟨rfl, hname⟩
  have hrests₁ : w₁.Rests (· = k) := rests_operation (suits_apart hS) hrests₀ hasks hcall
  have hdelivers := hbegins.delivers hscripted₀ hreload hall
  have hsteady := hbegins.steady hscripted₀ hreload hall hlinked₀
  have hreload₁ : (w₁.worker k).config.reloading = true := hbegins.config ▸ hreload
  have hgiven u key env (hloaded : Loaded t k u key env) :
      w₁.Holds k u key ∧ (w₁.worker k).cache.get? key = some env := by
    refine ⟨hdelivers.holds u key env (.inl hloaded), ?_⟩
    rcases hdelivers.stored u key env (.inl hloaded) with hget | ⟨_, _, hmem⟩
    · exact hget
    · cases hmem
  obtain ⟨hrests₂, hkeeps, hiff⟩ :=
    hlater.reuses hS hrests₁ hsteady.linked hreload₁ hgiven hasked
  refine ⟨fun u key env hloaded => ?_, hiff, fun hfresh u key env thread' caller' name' v hloaded hisFresh
    hname' hlocate => ?_⟩
  · rcases hsteady.certified u key env (.inl hloaded) List.not_mem_nil with ⟨-, _, hstack⟩ | ⟨x, hended, hx⟩
    · cases hstack
    · exact ⟨x, hended, hx.isFresh_iff, hx.isFresh (hrests₁.scripted k rfl) hsteady.linked⟩
  · have hkept := hkeeps hfresh
    obtain ⟨hu, hget⟩ := hgiven u key env hloaded
    exact answers_of_fresh hS hrests₂ (hkept.linked hsteady.linked) (hkept.config ▸ hreload₁) hname'
      (hkept.grows.holds u key hu) ((hkept.stored key).trans hget)
      ((hkept.isFresh (hrests₁.scripted k rfl) hsteady.linked hu
        (hrests₁.stored k key env rfl hget)).trans hisFresh) hlocate

/-- While no source gets another time, later loads of the modules that a call without failures has loaded
answer with these modules exactly if they are fresh. -/
theorem Serves.reused_iff_fresh {start₀ w₀ w₁ w₂ : World L} {caller : Option EnvironmentId}
    {name : String} {env₀ : EnvironmentId}
    (hS : S.interpreter.Scripting (· = k) names Request.LeavesModules) (hrests : start₀.Rests (· = k))
    (hlinked : start₀.Linked k)
    (hbefore : S.Serves (World.Linking k) (Request.CallsOn (· = k) names) start₀ w₀)
    (hreload : (w₀.worker k).config.reloading = true) (hname : names name)
    (hcall : S.steady.Replies thread depth (.loadModule k caller name) w₀ (.done (.ok env₀)) w₁)
    (hlater : S.steady.Serves World.Apart (Request.LoadsOn k names) w₁ w₂) :
    (∃ t, S.steady.answers thread (S.steady.calls thread depth) [] (.loadModule k caller name) w₀
      (.done (.ok env₀)) w₁ t) ∧
    S.steady.Shows World.Apart (Request.LoadsOn k names) w₁ w₂ fun later =>
      ∀ t, S.steady.answers thread (S.steady.calls thread depth) [] (.loadModule k caller name) w₀
          (.done (.ok env₀)) w₁ t → AllLoaded t k →
        (∀ t' ∈ later, ∃ u key env, Loaded t k u key env ∧ Asked t' k u key) →
        S.ReusedIfFresh depth k names w₁ w₂ t later := by
  obtain ⟨before, hbefore⟩ := exists_operates_iff.2 hbefore
  exact ⟨exists_answers_iff.2 hcall, hlater.shows fun later hlater t hcall hall hasked =>
    hbefore.reusedIfFresh hS hrests hlinked hreload hname hcall hall hlater hasked⟩

end Sequences

end Setting

namespace Importing

def importOneMore (source : String) : List (Line String) :=
  if source.isEmpty then [.imports "b.yx", .imports "c.yx"]
  else if source = "b" then [.imports "a.yx"] else []

def importEachOther (source : String) : List (Line String) :=
  if source.isEmpty then [.imports "b.yx"] else [.imports "a.yx"]

def ended? (k : WorkerId) : Moment (language String) → Option (UnitId × String × Option EnvironmentId)
  | ⟨_, .left (.load j u key) (.done (.ok env)), _⟩ => if j = k then some (u, key, some env) else none
  | ⟨_, .left (.load j u key) _, _⟩ => if j = k then some (u, key, none) else none
  | _ => none

def edges (w : World (language String)) : List (List UnitId) :=
  (List.range w.units.size).map w.dependencies

section Checks

variable {k : WorkerId} {u : UnitId} {key : String} {env : EnvironmentId} {w w' : World (language String)}
  {t : List (Moment (language String))}

theorem loaded_of_mem (h : (u, key, some env) ∈ t.filterMap (ended? k)) : Loaded t k u key env := by
  obtain ⟨m, hmem, hm⟩ := List.mem_filterMap.1 h
  unfold ended? at hm
  split at hm
  · split at hm
    · next hj =>
      cases hm
      exact ⟨_, _, hj ▸ hmem⟩
    · cases hm
  · split at hm <;> cases hm
  · cases hm

theorem allLoaded_of_check (h : ((t.filterMap (ended? k)).all fun x => x.2.2.isSome) = true) :
    AllLoaded t k := by
  intro frames u key o v hmem
  have hall (found : Option EnvironmentId)
      (hfound : ended? k ⟨frames, .left (.load k u key) o, v⟩ = some (u, key, found)) :
      found.isSome :=
    List.all_eq_true.1 h (u, key, found) (List.mem_filterMap.2 ⟨_, hmem, hfound⟩)
  cases o with
  | panic payload => cases hall none (if_pos rfl)
  | done answer =>
    cases answer with
    | error cause => cases hall none (if_pos rfl)
    | ok env => exact ⟨env, rfl⟩

theorem leadsTo_of_edges (h : edges w' = edges w) {p : UnitId} (hlead : w.LeadsTo u p) :
    w'.LeadsTo u p := by
  have hsize : w'.units.size = w.units.size := by simpa [edges] using congrArg List.length h
  refine ReflTransGen.mono (fun p v hv => ?_) _ _ hlead
  have hp := lt_of_mem_dependencies hv
  have hrow : (edges w')[p]? = (edges w)[p]? := by rw [h]
  simp only [edges, List.getElem?_map, List.getElem?_range, hsize, hp, Option.map_some,
    Option.some.injEq] at hrow
  exact hrow ▸ hv

end Checks

def pairWorld : World (language String) :=
  world String true [("a.yx", ByteArray.empty), ("b.yx", ⟨#[98]⟩)]

def pairHost : Setting (language String) := (setting id importEachOther).steady

def located? (w : World (language String)) (name : String) : Option UnitId :=
  match (Worker.locate 0 none name).evaluate (pairHost.playCall (.caller 0) 3 []) w with
  | some (.done (.ok u), _, []) => some u
  | _ => none

/-- A load has come to the first module, and both modules led to both by when their loads ended. -/
def loadsBoth : Outcome (Answer EnvironmentId) × World (language String) ×
    List (Moment (language String)) → Bool
  | (.done (.ok env), w₁, t) => env = 1 && located? w₁ "b" = some 1 &&
    t.filterMap (ended? 0) =
      [(0, "memory:app/a.yx", some 1), (1, "memory:app/b.yx", some 2), (0, "memory:app/a.yx", some 1)] &&
    t.all fun m => (ended? 0 m).all fun x => x.2.1 ∈ Frame.keys 0 m.frames || edges m.world = edges w₁
  | _ => false

theorem runs_of_located {w : World (language String)} {name : String} {u : UnitId}
    (h : located? w name = some u) : ∃ v, pairHost.runs (pairHost.calls (.caller 0) 3) []
      (Worker.locate 0 none name) w (.done (.ok u)) v [] := by
  unfold located? at h
  split at h
  · next v heval =>
    cases h
    exact ⟨v, Program.runs_of_evaluate (Setting.follows_playCall 3 []) heval⟩
  · cases h

theorem linked_world (reloading : Bool) (sources : List (String × ByteArray)) :
    (world String reloading sources).Linked 0 := by
  rintro u key v ⟨scripts, hs, hu⟩ -
  cases hs
  cases hu

/-- After a load of one of two modules that import each other, the other one is answered with its module
and not run again. -/
theorem each_other_reused : ∃ w₁ t w₂ t',
    pairHost.answers (.caller 0) (pairHost.calls (.caller 0) 3) [] (.loadModule 0 none "a") pairWorld
      (.done (.ok 1)) w₁ t ∧
    AllLoaded t 0 ∧ Loaded t 0 1 "memory:app/b.yx" 2 ∧
    pairHost.Operates World.Apart (Request.LoadsOn 0 fun _ => True) w₁ [t'] w₂ ∧
    Reused t' 0 1 "memory:app/b.yx" 2 := by
  have heval : ((pairHost.playAnswer (.caller 0) (pairHost.playCall (.caller 0) 3) []
      (.loadModule 0 none "a") pairWorld).any loadsBoth) = true := by decide +kernel
  obtain ⟨⟨o, w₁, t⟩, hplay, hshown⟩ := (Option.any_eq_true _ _).1 heval
  unfold loadsBoth at hshown
  split at hshown
  case h_2 => cases hshown
  case h_1 env w₁ t heq =>
  cases heq
  simp only [Bool.and_eq_true, decide_eq_true_eq] at hshown
  obtain ⟨⟨⟨rfl, hlocated⟩, hended⟩, hedges⟩ := hshown
  have hall : AllLoaded t 0 := allLoaded_of_check (by rw [hended]; rfl)
  have hloaded : Loaded t 0 1 "memory:app/b.yx" 2 := loaded_of_mem (by rw [hended]; decide)
  have hcall := Setting.answers_of_play hplay
  have hscripting : (interpreter id importEachOther).Scripting (· = 0) (fun _ => True)
      Request.LeavesModules :=
    (scripting id importEachOther _ fun _ => trivial).mono fun _ h => h.leavesModules
  have hrests := rests_world (N := String) true [("a.yx", ByteArray.empty), ("b.yx", ⟨#[98]⟩)]
  have hlinked := linked_world true [("a.yx", ByteArray.empty), ("b.yx", ⟨#[98]⟩)]
  have hreplies : pairHost.Replies (.caller 0) 3 (.loadModule 0 none "a") pairWorld (.done (.ok 1)) w₁ :=
    Setting.exists_answers_iff.1 ⟨t, hcall⟩
  obtain ⟨-, -, hnow⟩ := Setting.Serves.reused_iff_fresh (S := setting id importEachOther)
    hscripting hrests hlinked .start rfl trivial hreplies .start
  obtain ⟨hlasting, -, hanswers⟩ := hnow [] .start t hcall hall (by simp)
  have hfresh u key env (h : Loaded t 0 u key env) : w₁.isFresh u env := by
    obtain ⟨x, ⟨frames, hmem, hkey⟩, -, hlast⟩ := hlasting u key env h
    have hsame := List.all_eq_true.1 hedges _ hmem
    simp [ended?, hkey] at hsame
    exact hlast fun p => leadsTo_of_edges hsame
  obtain ⟨v, hlocate⟩ := runs_of_located hlocated
  obtain ⟨w₂, t', hanswered, hreused⟩ :=
    hanswers (by simp) 1 _ 2 (.caller 0) none "b" v hloaded (hfresh _ _ _ hloaded)
      trivial hlocate
  -- the same run as a later operation
  have hasks : (Request.loadModule 0 none "b" : Request (language String)).LoadsOn 0 fun _ => True :=
    ⟨rfl, trivial⟩
  have hlater : pairHost.Operates World.Apart (Request.LoadsOn 0 fun _ => True) w₁ [t'] w₂ :=
    Setting.Operates.operation .start hasks hanswered
  have hasked : Asked t' 0 1 "memory:app/b.yx" := by
    obtain ⟨x, _, rfl⟩ := hreused
    exact ⟨x, List.mem_cons_self⟩
  obtain ⟨-, -, hthen⟩ := Setting.Serves.reused_iff_fresh (S := setting id importEachOther)
    hscripting hrests hlinked .start rfl trivial hreplies hlater.serves
  have hiff := (hthen [t'] hlater t hcall hall fun t'' hmem => by
    rw [List.mem_singleton.1 hmem]
    exact ⟨1, _, 2, hloaded, hasked⟩).reused
  exact ⟨w₁, t, w₂, t', hcall, hall, hloaded, hlater,
    hiff.2 (fun _ _ u key env h _ => hfresh u key env h) t' (List.mem_singleton_self t') 1 _ 2 hloaded hasked⟩

def edgesAtEnds (t : List (Moment (language String))) : List (String × List (List UnitId)) :=
  t.filterMap fun m => (ended? 0 m).map fun x => (x.2.1, edges m.world)

-- the second module is stamped while its importer depends on it alone
example : ((((setting id importOneMore).steady.playOperations (.caller 0) 3 [.loadModule 0 none "a"]
      (world String true [("a.yx", ByteArray.empty), ("b.yx", ⟨#[98]⟩), ("c.yx", ⟨#[99]⟩)])).any
      fun run => run.1.map edgesAtEnds = [[("memory:app/a.yx", [[], [0]]),
        ("memory:app/b.yx", [[1], [0]]), ("memory:app/c.yx", [[1, 2], [0], []]),
        ("memory:app/a.yx", [[1, 2], [0], []])]])) = true := by decide +kernel

end Importing

end ScriptWorker
