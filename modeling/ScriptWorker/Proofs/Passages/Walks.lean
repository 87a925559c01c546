import ScriptWorker.Proofs.Passages.Asides
import ScriptWorker.Proofs.Passages.Logs

/-!
# What a run passes

A run with a log leaves the context of its thread as it found it, so does every operation that it
passes, and the scripts gain the edges of the imports among those operations. The latter takes that
no code records dependencies behind the library's back and that the current scripts exist; where it is
not asked for, anything may be recorded. An operation shifts the context, runs what is inside, and
shifts it back.
-/

namespace ScriptWorker

open Relation World

variable {L : Language} {α β : Type}

namespace Passage

/-- The operation was left with the context in which it was entered. -/
def Restores (p : Passage L) (thread : ThreadId) : Prop :=
  p.after.context thread = p.before.context thread

/-- The import that an operation was: it came back, and a script was current when it was called. -/
def import? (thread : ThreadId) (p : Passage L) : Option Import :=
  if p.returned then
    match p.errand.unit?, (p.before.context thread).script p.worker with
    | some u, some importer => some (importer, p.after.unitKey u)
    | _, _ => none
  else none

def imports (thread : ThreadId) (passages : List (Passage L)) : List Import :=
  passages.filterMap (import? thread)

end Passage

theorem Passage.import?_of_unit?_eq_none {thread : ThreadId} {p : Passage L}
    (h : p.errand.unit? = none) : p.import? thread = none := by
  unfold Passage.import?
  rw [h]
  split <;> rfl

namespace World

def Grounded (w : World L) (thread : ThreadId) : Prop :=
  ∀ k u, (w.context thread).script k = some u → u < w.units.size

/-- The current scripts are there, and if the code that runs belongs to a unit, it is one of the
host. -/
def Ready (w : World L) (thread : ThreadId) (own : Option UnitId) : Prop :=
  w.Grounded thread ∧ ∀ u, own = some u → w.Custom u

theorem Grounded.ready {w : World L} {thread : ThreadId} (h : w.Grounded thread) : w.Ready thread none :=
  ⟨h, nofun⟩

theorem Ready.of_gains {w w' : World L} {thread : ThreadId} {own : Option UnitId}
    {imports : List Import} (h : w.Ready thread own) (hgains : w.Gains w' imports)
    (hscript : (w'.context thread).script = (w.context thread).script) : w'.Ready thread own := by
  refine ⟨fun k u hu => ?_, fun u hu => hgains.custom u (h.2 u hu)⟩
  rw [hscript] at hu
  exact Nat.lt_of_lt_of_le (h.1 k u hu) hgains.size

end World

/-- What lies between two points of a run. The edges are accounted for under a premise, and up to
imports that are still to be noted. -/
structure Passed (thread : ThreadId) (premise : Prop) (pending : List Import) (a b : Logged L) :
    Prop where
  orderly : b.1.Orderly
  size : b.1.workers.size = a.1.workers.size
  context : b.1.context thread = a.1.context thread
  passages : ∃ new, b.2 = a.2 ++ new ∧ (∀ p ∈ new, p.Restores thread) ∧
    (premise → a.1.Gains b.1 (Passage.imports thread new ++ pending))

/-- Moves of other threads: they leave a thread the context that it has, and make no workers while it
runs. -/
structure Respects (thread : ThreadId) (others : World L → World L → Prop) : Prop where
  orderly : ∀ w w', others w w' → w.Orderly → w'.Orderly
  size : ∀ w w', others w w' → w'.workers.size = w.workers.size
  context : ∀ w w', others w w' → w.Orderly → w'.context thread = w.context thread

/-- Where edges are accounted for, others moreover load nothing. -/
structure Company (thread : ThreadId) (strict : Prop) (others : World L → World L → Prop) : Prop
    extends Respects thread others where
  units : strict → ∀ w w', others w w' → w'.units = w.units

section Passed

variable {thread : ThreadId} {premise premise' : Prop} {pending : List Import} {a b c : Logged L}

theorem Passed.mono (h : Passed thread premise pending a b) (hpremise : premise' → premise) :
    Passed thread premise' pending a b :=
  ⟨h.orderly, h.size, h.context,
    h.passages.imp fun _ hnew => ⟨hnew.1, hnew.2.1, fun hp => hnew.2.2 (hpremise hp)⟩⟩

theorem Passed.gains (h : Passed thread premise pending a b) (hpremise : premise) :
    ∃ imports, a.1.Gains b.1 imports := by
  obtain ⟨new, -, -, hgains⟩ := h.passages
  exact ⟨_, hgains hpremise⟩

theorem Passed.ready {own : Option UnitId} (h : Passed thread premise pending a b)
    (hpremise : premise) (ha : a.1.Ready thread own) : b.1.Ready thread own := by
  obtain ⟨imports, hgains⟩ := h.gains hpremise
  exact ha.of_gains hgains (by rw [h.context])

theorem Passed.trans (h : Passed thread premise [] a b) (h' : Passed thread premise' pending b c)
    (hpremise : premise → premise') : Passed thread premise pending a c := by
  obtain ⟨new, hlog, hrestores, hgains⟩ := h.passages
  obtain ⟨new', hlog', hrestores', hgains'⟩ := h'.passages
  refine ⟨h'.orderly, h'.size.trans h.size, h'.context.trans h.context, new ++ new', ?_,
    fun p hp => ?_, fun hp => ?_⟩
  · rw [hlog', hlog, List.append_assoc]
  · rcases List.mem_append.1 hp with hp | hp
    · exact hrestores p hp
    · exact hrestores' p hp
  · have hboth := (hgains hp).trans (hgains' (hpremise hp))
    simpa [Passage.imports] using hboth

structure Unnoted (thread : ThreadId) (premise : Prop) (a b : Logged L) : Prop where
  orderly : b.1.Orderly
  size : b.1.workers.size = a.1.workers.size
  context : b.1.context thread = a.1.context thread
  log : b.2 = a.2
  gains : premise → a.1.Gains b.1 []

theorem Unnoted.passed (h : Unnoted thread premise a b) : Passed thread premise [] a b :=
  ⟨h.orderly, h.size, h.context, [], by rw [h.log, List.append_nil], nofun, h.gains⟩

theorem Unnoted.trans (h : Unnoted thread premise a b) (h' : Unnoted thread premise b c) :
    Unnoted thread premise a c :=
  ⟨h'.orderly, h'.size.trans h.size, h'.context.trans h.context, h'.log.trans h.log,
    fun hp => (h.gains hp).trans (h'.gains hp)⟩

theorem Unnoted.mono (h : Unnoted thread premise a b) (hpremise : premise' → premise) :
    Unnoted thread premise' a b :=
  ⟨h.orderly, h.size, h.context, h.log, fun hp => h.gains (hpremise hp)⟩

theorem unnoted_of_aside {w w' : World L} {log : List (Passage L)} (hw : w.Orderly)
    (h : w.Aside w') : Unnoted thread premise (w, log) (w', log) :=
  ⟨h.orderly hw, h.size, h.context thread, rfl, fun _ => h.gains⟩

theorem Unnoted.refl (ha : a.1.Orderly) : Unnoted thread premise a a :=
  unnoted_of_aside ha a.1.aside_refl

theorem Passed.around {d : Logged L} (h : Passed thread premise pending b c) (horderly : d.1.Orderly)
    (hsize : d.1.workers.size = a.1.workers.size)
    (hcontext : d.1.context thread = a.1.context thread) (hbefore : b.2 = a.2) (hafter : d.2 = c.2)
    (hgains : premise → a.1.Gains b.1 []) (hgains' : premise → c.1.Gains d.1 []) :
    Passed thread premise pending a d := by
  obtain ⟨new, hlog, hrestores, hinside⟩ := h.passages
  refine ⟨horderly, hsize, hcontext, new, by rw [hafter, hlog, hbefore], hrestores, fun hp => ?_⟩
  have hall := ((hgains hp).trans (hinside hp)).trans (hgains' hp)
  simpa using hall

theorem Passed.unnoted (h : Passed thread premise pending a b) (h' : Unnoted thread premise b c) :
    Passed thread premise pending a c :=
  h.around h'.orderly (h'.size.trans h.size) (h'.context.trans h.context) rfl h'.log
    (fun _ => .refl _) h'.gains

theorem Passed.congr {pending' : List Import} (h : Passed thread premise pending a b)
    (hpending : premise → pending = pending') : Passed thread premise pending' a b :=
  ⟨h.orderly, h.size, h.context, h.passages.imp fun _ hnew =>
    ⟨hnew.1, hnew.2.1, fun hp => hpending hp ▸ hnew.2.2 hp⟩⟩

theorem Passed.noted {p : Passage L}
    (h : Passed thread premise (p.import? thread).toList a b) (hp : p.Restores thread) :
    Passed thread premise [] a (b.1, b.2 ++ [p]) := by
  obtain ⟨new, hlog, hrestores, hgains⟩ := h.passages
  refine ⟨h.orderly, h.size, h.context, new ++ [p], by rw [hlog, List.append_assoc], fun q hq => ?_,
    fun hpremise => ?_⟩
  · rcases List.mem_append.1 hq with hq | hq
    · exact hrestores q hq
    · obtain rfl := List.mem_singleton.1 hq
      exact hp
  · have hall := hgains hpremise
    rw [List.append_nil, Passage.imports, List.filterMap_append]
    cases himport : p.import? thread <;> simpa [himport, Passage.imports] using hall

theorem Passed.imported {i : Import} (h : Passed thread premise [] a b)
    (hcustom : premise → b.1.Custom i.1) (returned : Bool) :
    Passed thread premise (if returned then [i] else []) a b := by
  cases returned with
  | false => exact h
  | true =>
    refine h.trans (b := b) ⟨h.orderly, rfl, rfl, [], by simp, nofun, fun hp => ?_⟩ id
    exact (Gains.refl b.1).of_custom (hcustom hp) i.2

end Passed

/-! ## Programs -/

section Programs

variable (others : World L → World L → Prop)
  (call : (callee : Callee L) → Logged L → Outcome callee.Result → Logged L → List Empty → Prop)
  (thread : ThreadId) (strict : Prop)

/-- A program that keeps to this, running code of a unit of the host or code of no unit. -/
def LoggedRun.Keeps (own : Option UnitId) (q : LoggedRun L α) : Prop :=
  ∀ a o b t, q.Runs (Logged.Moves others) call a o b t → a.1.Orderly →
    Passed thread (strict ∧ a.1.Ready thread own) [] a b

def CallsKeep : Prop :=
  ∀ callee a o b t, call callee a o b t → a.1.Orderly →
    Passed thread (strict ∧ a.1.Ready thread callee.unit?) [] a b

variable {others call thread strict}

theorem unnoted_moves (hothers : Company thread strict others) {a b : Logged L}
    (h : ReflTransGen (Logged.Moves others) a b) (ha : a.1.Orderly) :
    Unnoted thread strict a b := by
  induction h with
  | refl => exact .refl ha
  | tail _ hstep ih =>
    refine ih.trans ⟨?_, ?_, ?_, hstep.2, fun hs => ?_⟩
    · exact hothers.orderly _ _ hstep.1 ih.orderly
    · exact hothers.size _ _ hstep.1
    · exact hothers.context _ _ hstep.1 ih.orderly
    · exact gains_of_units (hothers.units hs _ _ hstep.1)

theorem units_moves (hothers : Company thread strict others) (hs : strict) {a b : Logged L}
    (h : ReflTransGen (Logged.Moves others) a b) : b.1.units = a.1.units := by
  induction h with
  | refl => rfl
  | tail _ hstep ih => exact (hothers.units hs _ _ hstep.1).trans ih

namespace LoggedRun

variable {own : Option UnitId}

theorem keeps_ended (hothers : Company thread strict others) (o : Outcome α) :
    Keeps others call thread strict own (.ended o) := by
  rintro a o' b t ⟨hmoves, -, -⟩ ha
  exact ((unnoted_moves hothers hmoves ha).mono And.left).passed

theorem Keeps.thenOutcome {q : LoggedRun L β} {f : Outcome β → LoggedRun L α}
    (hq : Keeps others call thread strict own q)
    (hf : ∀ o, Keeps others call thread strict own (f o)) :
    Keeps others call thread strict own (q.thenOutcome f) := by
  intro a o b t h ha
  obtain ⟨o₁, v, t₁, t₂, hfirst, hrest, -⟩ := Program.runs_thenOutcome.1 h
  have hfirst := hq a o₁ v t₁ hfirst ha
  exact hfirst.trans (hf o₁ v o b t₂ hrest hfirst.orderly) fun hp => ⟨hp.1, hfirst.ready hp hp.2⟩

theorem Keeps.bind (hothers : Company thread strict others) {q : LoggedRun L β}
    {f : β → LoggedRun L α} (hq : Keeps others call thread strict own q)
    (hf : ∀ b, Keeps others call thread strict own (f b)) :
    Keeps others call thread strict own (q >>= f) := by
  apply hq.thenOutcome
  intro o
  cases o with
  | done b => exact hf b
  | panic payload => exact keeps_ended hothers _

theorem keeps_plain (hothers : Company thread strict others)
    (hcall : CallsKeep call thread strict) {p : Run L α} (hp : p.Quiet) :
    Keeps others call thread strict own (plain p) := by
  induction p with
  | ended outcome => exact keeps_ended hothers outcome
  | step move next ih =>
    rintro a o b t ⟨⟨v, log⟩, ⟨v', log'⟩, hmoves, hmove, hrest⟩ ha
    obtain ⟨v'', hmoved, hpair⟩ := Option.map_eq_some_iff.1 hmove
    cases hpair
    have hbefore := unnoted_moves hothers hmoves ha
    have hstep := (hbefore.trans (unnoted_of_aside hbefore.orderly ((hp v).1 v' hmoved))).passed
    exact (hstep.mono And.left).trans
      (ih v (hp v).2 _ o b t hrest hstep.orderly) fun h => ⟨h.1, hstep.ready h.1 h.2⟩
  | call callee next ih =>
    rintro a o b t ⟨v, o₁, v', t₁, t₂, hmoves, hfirst, hrest, -⟩ ha
    have hbefore := (unnoted_moves hothers hmoves ha).passed
    have hthere := (hbefore.mono And.left).trans
      (hcall callee v o₁ v' t₁ hfirst hbefore.orderly) fun h : strict ∧ a.1.Ready thread own =>
        ⟨h.1, (hbefore.ready h.1 h.2).1, fun u hu => by rw [hp.1] at hu; cases hu⟩
    exact hthere.trans (ih o₁ (hp.2 o₁) v' o b t₂ hrest hthere.orderly) fun h =>
      ⟨h.1, hthere.ready h h.2⟩

theorem keeps_outside (hothers : Company thread strict others)
    (hcall : CallsKeep call thread strict) (callee : Callee L) :
    Keeps others call thread strict callee.unit? (plain (outside callee)) := by
  rintro a o b t ⟨v, o₁, v', t₁, t₂, hmoves, hfirst, ⟨hmoves', -, -⟩, -⟩ ha
  have hbefore := (unnoted_moves hothers hmoves ha).passed
  have hthere := (hbefore.mono And.left).trans
    (hcall callee v o₁ v' t₁ hfirst hbefore.orderly) fun h => ⟨h.1, hbefore.ready h.1 h.2⟩
  exact hthere.unnoted ((unnoted_moves hothers hmoves' hthere.orderly).mono And.left)

/-! ### Cutting runs -/

section Runs

variable {a b : Logged L} {o : Outcome α} {t : List Empty}

theorem runs_plain_bind {p : Run L β} {f : β → Run L α} :
    (plain (p >>= f)).Runs (Logged.Moves others) call a o b t ↔
      (plain p >>= fun x => plain (f x)).Runs (Logged.Moves others) call a o b t := by
  unfold plain
  rw [Program.beside_bind]

theorem runs_plain_transact_bind {f : World L → β × World L} {g : β → Run L α} :
    (plain (Program.transact f >>= g)).Runs (Logged.Moves others) call a o b t ↔
      ∃ v : Logged L, ReflTransGen (Logged.Moves others) a v ∧
        (plain (g (f v.1).1)).Runs (Logged.Moves others) call ((f v.1).2, v.2) o b t := by
  change (∃ v v' : Logged L, _ ∧ some ((f v.1).2, v.2) = some v' ∧ _) ↔ _
  constructor
  · rintro ⟨v, v', hv, hv', hrest⟩
    cases hv'
    exact ⟨v, hv, hrest⟩
  · rintro ⟨v, hv, hrest⟩
    exact ⟨v, _, hv, rfl, hrest⟩

theorem runs_plain_await_bind {f : World L → Option (β × World L)} {g : β → Run L α} :
    (plain (Program.await f >>= g)).Runs (Logged.Moves others) call a o b t ↔
      ∃ (v : Logged L) (x : β) (w : World L), ReflTransGen (Logged.Moves others) a v ∧
        f v.1 = some (x, w) ∧ (plain (g x)).Runs (Logged.Moves others) call (w, v.2) o b t := by
  rw [runs_plain_bind]
  constructor
  · intro h
    obtain ⟨v, v', hv, hmove, hrest⟩ := h
    cases hf : f v.1 with
    | none => simp [hf] at hmove
    | some found =>
      obtain ⟨x, w⟩ := found
      simp only [hf, Option.map_some, Option.some.injEq] at hmove hrest
      subst hmove
      exact ⟨v, x, w, hv, hf, hrest⟩
  · rintro ⟨v, x, w, hv, hf, hrest⟩
    refine ⟨v, (w, v.2), hv, by simp [hf], ?_⟩
    simp only [hf]
    exact hrest

theorem runs_plain_modify_bind {f : World L → World L} {g : Unit → Run L α} :
    (plain (Program.modify f >>= g)).Runs (Logged.Moves others) call a o b t ↔
      ∃ v, ReflTransGen (Logged.Moves others) a v ∧
        (plain (g ())).Runs (Logged.Moves others) call (f v.1, v.2) o b t :=
  runs_plain_transact_bind (f := fun w => ((), f w)) (g := g)

theorem runs_plain_read_bind {f : World L → β} {g : β → Run L α} :
    (plain (Program.read f >>= g)).Runs (Logged.Moves others) call a o b t ↔
      ∃ v, ReflTransGen (Logged.Moves others) a v ∧
        (plain (g (f v.1))).Runs (Logged.Moves others) call v o b t :=
  runs_plain_transact_bind (f := fun w => (f w, w)) (g := g)

end Runs

/-! ### Entering and leaving a serializer -/

section Serial

variable (hothers : Company thread strict others) {k : WorkerId} {a b : Logged L} {t : List Empty}
include hothers

theorem unnoted_step {v : Logged L} {w' : World L} (ha : a.1.Orderly)
    (hmoves : ReflTransGen (Logged.Moves others) a v) (hstep : v.1.Aside w') :
    Unnoted thread strict a (w', v.2) := by
  have hbefore := unnoted_moves hothers hmoves ha
  exact hbefore.trans (unnoted_of_aside hbefore.orderly hstep)

theorem runs_plain_enter {o : Outcome SerialGuard}
    (h : (plain (Worker.enter thread k)).Runs (Logged.Moves others) call a o b t)
    (ha : a.1.Orderly) :
    ∃ v guard w', ReflTransGen (Logged.Moves others) a v ∧
      v.1.enter? thread k = some (guard, w') ∧ (∃ guard', o = .done guard') ∧
      Unnoted thread strict (w', v.2) b := by
  obtain ⟨v, guard, w', hv, henter, h⟩ := runs_plain_await_bind.1 h
  have hw' : w'.Orderly := (context_enter? (unnoted_moves hothers hv ha).orderly henter).1
  refine ⟨v, guard, w', hv, henter, ?_⟩
  cases houter : guard.isOutermost with
  | false =>
    rw [houter] at h
    obtain ⟨hb, rfl, -⟩ := h
    exact ⟨⟨guard, rfl⟩, unnoted_moves hothers hb hw'⟩
  | true =>
    rw [houter] at h
    obtain ⟨v₁, hv₁, h⟩ := runs_plain_read_bind.1 h
    have hread := unnoted_moves hothers hv₁ hw'
    cases hreloading : (v₁.1.worker k).config.reloading with
    | false =>
      rw [hreloading] at h
      obtain ⟨v₂, hv₂, h⟩ := runs_plain_modify_bind.1 h
      obtain ⟨hb, rfl, -⟩ := h
      have hcleared := hread.trans
        (unnoted_step hothers hread.orderly hv₂ (aside_clearErrors v₂.1 k))
      exact ⟨⟨guard, rfl⟩, hcleared.trans (unnoted_moves hothers hb hcleared.orderly)⟩
    | true =>
      rw [hreloading] at h
      obtain ⟨v₂, hv₂, h⟩ := runs_plain_modify_bind.1 h
      obtain ⟨v₃, hv₃, h⟩ := runs_plain_modify_bind.1 h
      obtain ⟨hb, rfl, -⟩ := h
      have hforgot := hread.trans
        (unnoted_step hothers hread.orderly hv₂ (aside_modifyCache v₂.1 k ModuleCache.clear))
      have hcleared := hforgot.trans
        (unnoted_step hothers hforgot.orderly hv₃ (aside_clearErrors v₃.1 k))
      exact ⟨⟨guard, rfl⟩, hcleared.trans (unnoted_moves hothers hb hcleared.orderly)⟩

theorem runs_entered {inside : LoggedRun L α} {o : Outcome α}
    (h : (plain (Worker.enter thread k) >>= fun _ =>
        inside.thenAlways (plain (Program.modify fun w => w.leave k))).Runs
      (Logged.Moves others) call a o b t) (ha : a.1.Orderly) :
    ∃ v c t', inside.Runs (Logged.Moves others) call v o c t' ∧ v.1.Orderly ∧
      v.1.Inside thread k ∧ (v.1.context thread).script = (a.1.context thread).script ∧
      (strict → a.1.Gains v.1 []) ∧
      ∀ (premise : Prop) pending, (premise → strict) → Passed thread premise pending v c →
        Passed thread premise pending a b := by
  obtain ⟨g, v, t₁, t₂, henter, h, -⟩ | ⟨payload, v, henter, -⟩ := Program.runs_bind.1 h
  case inr =>
    obtain ⟨-, -, -, -, -, ⟨guard, ho⟩, -⟩ := runs_plain_enter hothers henter ha
    cases ho
  obtain ⟨u, guard, w', hu, henter, -, hentered⟩ := runs_plain_enter hothers henter ha
  obtain ⟨o₁, c, t₃, t₄, hinside, h, -⟩ := Program.runs_thenOutcome.1 h
  obtain ⟨d, hd, hb, ho, -⟩ :=
    (Program.runs_modify_bind (f := fun e : Logged L => (e.1.leave k, e.2))).1 h
  obtain rfl : o = o₁ := ho
  have hbefore := unnoted_moves hothers hu ha
  obtain ⟨-, hsize, -, hscript, hdepth⟩ := context_enter? hbefore.orderly henter
  have hlog : v.2 = a.2 := hentered.log.trans hbefore.log
  have hgains : strict → a.1.Gains v.1 [] := fun hs => by
    have hunits : w'.units = u.1.units := by
      obtain ⟨_, -, hpair⟩ := Option.map_eq_some_iff.1 henter
      cases hpair
      rfl
    exact ((hbefore.gains hs).trans (gains_of_units hunits)).trans (hentered.gains hs)
  refine ⟨v, c, t₃, hinside, hentered.orderly,
    Inside.congr (w := w') (fun hk => hdepth (hsize ▸ hk)) hentered.size hentered.context, ?_, hgains,
    fun premise pending hpremise hvc => ?_⟩
  · rw [hentered.context, hscript, hbefore.context]
  · have hcd := unnoted_moves hothers hd hvc.orderly
    have hvd : d.1.workers.size = v.1.workers.size := hcd.size.trans hvc.size
    obtain ⟨hleft, hleftContext⟩ := leave_of_enter? hbefore.orderly henter hcd.orderly
      (hvd.trans hentered.size) (hcd.context.trans (hvc.context.trans hentered.context))
    have hdb := unnoted_moves hothers hb hleft
    refine hvc.around hdb.orderly ?_ ?_ hlog (hdb.log.trans hcd.log) (fun hp => hgains (hpremise hp))
      fun hp => ?_
    · rw [hdb.size, leave_eq, size_modifyWorker, hvd, hentered.size, hsize, hbefore.size]
    · rw [hdb.context, hleftContext, hbefore.context]
    · have hleave : d.1.Gains (d.1.leave k) [] := gains_of_units rfl
      exact ((hcd.gains (hpremise hp)).trans hleave).trans (hdb.gains (hpremise hp))

theorem runs_withScript {u : UnitId} {inside : Run L α} {settle : α → World L → World L}
    (hsettle : ∀ x (w : World L), w.Aside (settle x w)) {o : Outcome (α × Option UnitId)}
    (h : (plain (Worker.withScript k u inside settle)).Runs (Logged.Moves others) call a o b t)
    (ha : a.1.Orderly) (hinside : a.1.Inside thread k) :
    ∃ v c o₁ t₁, (plain inside).Runs (Logged.Moves others) call v o₁ c t₁ ∧ v.1.Orderly ∧
      (∀ j p, (v.1.context thread).script j = some p →
        p = u ∨ (a.1.context thread).script j = some p) ∧
      (strict → a.1.Gains v.1 []) ∧
      (∀ x parent, o = .done (x, parent) → parent = (a.1.context thread).script k) ∧
      ∀ (premise : Prop) pending, (premise → strict) → Passed thread premise pending v c →
        Passed thread premise pending a b := by
  obtain ⟨v, hv, h⟩ := runs_plain_transact_bind.1 h
  have hbefore := unnoted_moves hothers hv ha
  have hinside' := Inside.congr hinside hbefore.size hbefore.context
  obtain ⟨hpushed, hsize, hscripts⟩ := context_pushScript hbefore.orderly hinside'
  have hgains : strict → a.1.Gains (v.1.pushScript k u).2 [] := fun hs =>
    (hbefore.gains hs).trans (gains_of_units rfl)
  -- the stretch ends in `c`, and in `e` the previous script is put back
  obtain ⟨o₁, c, t₁, e, hrun, hce, hrest⟩ : ∃ o₁ c t₁ e,
      (plain inside).Runs (Logged.Moves others) call ((v.1.pushScript k u).2, v.2) o₁ c t₁ ∧
      (c.1.Orderly → Unnoted thread strict c e) ∧
      ReflTransGen (Logged.Moves others)
        ((e.1.restoreScript k (v.1.pushScript k u).1).2, e.2) b ∧
      ∀ x parent, o = .done (x, parent) →
        parent = (e.1.restoreScript k (v.1.pushScript k u).1).1 := by
    obtain ⟨caught, c, t₁, t₂, hcaught, h, -⟩ | ⟨payload, c, hcaught, -⟩ :=
      Program.runs_bind.1 (runs_plain_bind.1 h)
    case inr =>
      rw [plain, Program.caught, Program.beside_thenOutcome] at hcaught
      obtain ⟨_, _, _, _, -, ⟨-, ho, -⟩, -⟩ := Program.runs_thenOutcome.1 hcaught
      cases ho
    rw [plain, Program.caught, Program.beside_thenOutcome] at hcaught
    obtain ⟨o₁, c₀, t₃, t₄, hrun, ⟨hc, ho, -⟩, -⟩ := Program.runs_thenOutcome.1 hcaught
    cases ho
    cases caught with
    | panic payload =>
      obtain ⟨e, he, hb, ho, -⟩ := runs_plain_transact_bind.1 h
      refine ⟨_, c₀, t₃, e, hrun, fun hc₀ => unnoted_moves hothers (hc.trans he) hc₀, hb, ?_⟩
      intro x parent hdone
      rw [ho] at hdone
      cases hdone
    | done x =>
      obtain ⟨d, hd, h⟩ := runs_plain_modify_bind.1 h
      obtain ⟨e, he, hb, ho, -⟩ := runs_plain_transact_bind.1 h
      refine ⟨_, c₀, t₃, e, hrun, fun hc₀ => ?_, hb, fun y parent hdone => ?_⟩
      · have hsettled := unnoted_step hothers hc₀ (hc.trans hd) (hsettle x d.1)
        exact hsettled.trans (unnoted_moves hothers he hsettled.orderly)
      · rw [ho] at hdone
        cases hdone
        rfl
  obtain ⟨hb, hparent⟩ := hrest
  refine ⟨_, c, o₁, t₁, hrun, hpushed, fun j p hp => ?_, hgains, fun x parent hdone => ?_,
    fun premise pending hpremise hvc => ?_⟩
  · rw [← hbefore.context]
    exact hscripts j p hp
  · rw [hparent x parent hdone, saved_of_pushScript hinside', hbefore.context]
  · have hce := hce hvc.orderly
    have hvsize : e.1.workers.size = v.1.workers.size := hce.size.trans (hvc.size.trans hsize)
    obtain ⟨hrestored, hcontext⟩ := restoreScript_of_pushScript hinside' hce.orderly
      hvsize (hce.context.trans hvc.context)
    have heb := unnoted_moves hothers hb hrestored
    refine hvc.around heb.orderly ?_ ?_ hbefore.log (heb.log.trans hce.log)
      (fun hp => hgains (hpremise hp)) fun hp => ?_
    · have hrow : (e.1.restoreScript k (v.1.pushScript k u).1).2.workers.size = e.1.workers.size := by
        rw [pushScript_eq, restoreScript_eq]
        exact size_modifyWorker ..
      rw [heb.size, hrow, hvsize, hbefore.size]
    · rw [heb.context, hcontext, hbefore.context]
    · have hrestore : e.1.Gains (e.1.restoreScript k (v.1.pushScript k u).1).2 [] :=
        gains_of_units rfl
      exact ((hce.gains (hpremise hp)).trans hrestore).trans (heb.gains (hpremise hp))

end Serial

/-! ### Operations -/

section Operations

variable (hothers : Company thread strict others) (hcall : CallsKeep call thread strict)
  {k : WorkerId} {u : UnitId} {a b : Logged L} {t : List Empty}
include hothers hcall

/-- What a unit does is up to the library if it is a script, and to its own code if it is one of the
host. A unit that is not there runs no code. -/
theorem runs_sourced {inside : Option (UnitSource L) → Run L α} {o : Outcome α}
    (hscript : ∀ resource compiled, (inside (some (.script resource compiled))).Quiet)
    (hcustom : ∀ spec version, Keeps others call thread strict (some u)
      (plain (inside (some (.custom spec version)))))
    (hnone : ∃ o, inside none = .ended o)
    (h : (plain (Program.read (fun w => (w.units.get? u).map ExecutableUnit.source) >>= inside)).Runs
      (Logged.Moves others) call a o b t) (ha : a.1.Orderly) :
    Passed thread (strict ∧ (u < a.1.units.size → a.1.Grounded thread)) [] a b := by
  obtain ⟨v, hv, h⟩ := runs_plain_read_bind.1 h
  have hbefore := unnoted_moves hothers hv ha
  have hpassed := hbefore.passed.mono
    fun hp : strict ∧ (u < a.1.units.size → a.1.Grounded thread) => hp.1
  cases hrow : v.1.units.get? u with
  | none =>
    obtain ⟨o', ho'⟩ := hnone
    rw [hrow, Option.map_none, ho'] at h
    exact hpassed.unnoted ((unnoted_moves hothers h.1 hbefore.orderly).mono And.left)
  | some unit =>
    have hready : strict ∧ (u < a.1.units.size → a.1.Grounded thread) → v.1.Ready thread none := by
      rintro ⟨hs, hgrounded⟩
      have hlt : u < a.1.units.size := by
        rw [← units_moves hothers hs hv]
        exact (List.getElem?_eq_some_iff.1 hrow).1
      exact hbefore.passed.ready hs ⟨hgrounded hlt, nofun⟩
    cases hsource : unit.source with
    | script resource compiled =>
      rw [hrow, Option.map_some, hsource] at h
      have hrest : Passed thread (strict ∧ v.1.Ready thread none) [] v b :=
        keeps_plain hothers hcall (hscript resource compiled) _ _ _ _ h hbefore.orderly
      exact hpassed.trans hrest fun hp => ⟨hp.1, hready hp⟩
    | custom spec version =>
      rw [hrow, Option.map_some, hsource] at h
      refine hpassed.trans (hcustom spec version _ _ _ _ h hbefore.orderly) fun hp =>
        ⟨hp.1, (hready hp).1, fun p hown => ?_⟩
      cases hown
      exact ⟨unit, spec, version, hrow, hsource⟩

theorem runs_unitLoad {existing : Option EnvironmentId} {o : Outcome (Answer EnvironmentId)}
    (h : (plain (ExecutableUnit.load k u existing)).Runs (Logged.Moves others) call a o b t)
    (ha : a.1.Orderly) :
    Passed thread (strict ∧ (u < a.1.units.size → a.1.Grounded thread)) [] a b := by
  refine runs_sourced hothers hcall (fun resource _ => ?_) (fun spec _ => ?_) ⟨_, rfl⟩ h ha
  · exact quiet_scriptLoad resource existing
  · exact keeps_outside hothers hcall (.load spec u k existing)

theorem runs_unitEvaluate {env : EnvironmentId} {o : Outcome (Answer Value)}
    (h : (plain (ExecutableUnit.evaluate k u env)).Runs (Logged.Moves others) call a o b t)
    (ha : a.1.Orderly) :
    Passed thread (strict ∧ (u < a.1.units.size → a.1.Grounded thread)) [] a b := by
  refine runs_sourced hothers hcall (fun resource _ => ?_) (fun spec _ => ?_) ⟨_, rfl⟩ h ha
  · exact quiet_scriptEvaluate resource env
  · exact keeps_outside hothers hcall (.evaluate spec u k env)

omit hcall in
theorem runs_asScript {inside : Run L α} {settle : α → World L → World L}
    (hunit : ∀ a o b t, (plain inside).Runs (Logged.Moves others) call a o b t → a.1.Orderly →
      Passed thread (strict ∧ (u < a.1.units.size → a.1.Grounded thread)) [] a b)
    (hsettle : ∀ x (w : World L), w.Aside (settle x w)) {o : Outcome (α × Option UnitId)}
    (h : (plain (Worker.withScript k u inside settle)).Runs (Logged.Moves others) call a o b t)
    (ha : a.1.Orderly) (hinside : a.1.Inside thread k) :
    Passed thread (strict ∧ a.1.Grounded thread) [] a b ∧
      ∀ x parent, o = .done (x, parent) → parent = (a.1.context thread).script k := by
  obtain ⟨v, c, o₁, t₁, hrun, hv, hscripts, hgains, hparent, haround⟩ :=
    runs_withScript hothers hsettle h ha hinside
  refine ⟨haround _ _ And.left ((hunit v o₁ c t₁ hrun hv).mono fun hp => ?_), hparent⟩
  refine ⟨hp.1, fun hlt j p hj => ?_⟩
  rcases hscripts j p hj with rfl | hj
  · exact hlt
  · exact Nat.lt_of_lt_of_le (hp.2 j p hj) (hgains hp.1).size

theorem runs_checkOrLoad {key : String} {o : Outcome (Answer EnvironmentId × Option UnitId)}
    (h : (plain (Worker.checkOrLoad k u key)).Runs (Logged.Moves others) call a o b t)
    (ha : a.1.Orderly) (hinside : a.1.Inside thread k) :
    Passed thread (strict ∧ a.1.Grounded thread) [] a b ∧
      ∀ x parent, o = .done (x, parent) → parent = (a.1.context thread).script k := by
  obtain ⟨v, hv, h⟩ := runs_plain_transact_bind.1 h
  have hlooked := unnoted_step hothers ha hv (aside_modifyCache v.1 k fun _ =>
    ((v.1.worker k).cache.checked key).2)
  cases hfound : (v.1.lookupChecked k key).1 with
  | some env =>
    rw [hfound] at h
    obtain ⟨c, hc, hb, rfl, -⟩ := runs_plain_read_bind.1 h
    have hcurrent := hlooked.trans (unnoted_moves hothers hc hlooked.orderly)
    refine ⟨(hcurrent.trans (unnoted_moves hothers hb hcurrent.orderly)).passed.mono And.left,
      fun x parent hdone => ?_⟩
    cases hdone
    rw [current_of_inside (Inside.congr hinside hcurrent.size hcurrent.context), hcurrent.context]
  | none =>
    rw [hfound] at h
    obtain ⟨c, hc, h⟩ := runs_plain_read_bind.1 h
    have hbefore := hlooked.trans (unnoted_moves hothers hc hlooked.orderly)
    obtain ⟨hpassed, hparent⟩ := runs_asScript hothers
      (fun _ _ _ _ hrun hstart => runs_unitLoad hothers hcall hrun hstart)
      (fun _ w => aside_modifyCache w k _) h hbefore.orderly
      (Inside.congr hinside hbefore.size hbefore.context)
    refine ⟨(hbefore.passed.mono And.left).trans hpassed fun hp =>
      ⟨hp.1, (hbefore.passed.ready hp.1 hp.2.ready).1⟩, fun x parent hdone => ?_⟩
    rw [hparent x parent hdone, hbefore.context]

theorem runs_addDependency {p : UnitId} {o : Outcome Unit}
    (h : (plain (ExecutableUnit.addDependency p u)).Runs (Logged.Moves others) call a o b t)
    (ha : a.1.Orderly) :
    Passed thread (strict ∧ a.1.Grounded thread ∧ p < a.1.units.size)
      (if o.returned then [(p, b.1.unitKey u)] else []) a b := by
  obtain ⟨v, hv, h⟩ := runs_plain_read_bind.1 h
  have hbefore := unnoted_moves hothers hv ha
  have hrecorded : ∀ {b : Logged L}, (plain (Program.modify fun w => w.recordDependency p u)).Runs
      (Logged.Moves others) call v o b t →
      Passed thread (strict ∧ a.1.Grounded thread ∧ p < a.1.units.size)
        (if o.returned then [(p, b.1.unitKey u)] else []) a b := by
    rintro b ⟨c, c', hc, hc', hb, rfl, -⟩
    cases hc'
    have hac := hbefore.trans (unnoted_moves hothers hc hbefore.orderly)
    have hlevel : c.1.Level (c.1.recordDependency p u) := level_of_same rfl rfl
    have hcb := unnoted_moves hothers hb (hlevel.orderly hac.orderly)
    refine (hac.passed.mono And.left).trans (show Passed thread (strict ∧ p < c.1.units.size) _ c b from
      ⟨hcb.orderly, hcb.size.trans hlevel.size, hcb.context.trans (hlevel.context thread), [], ?_, nofun,
        fun hp => ?_⟩) fun hp => ⟨hp.1, Nat.lt_of_lt_of_le hp.2.2 (hac.gains hp.1).size⟩
    · rw [hcb.log, List.append_nil]
    · have hgains := (gains_recordDependency c.1 p u hp.2).trans (hcb.gains hp.1)
      have hkey : b.1.unitKey u = c.1.unitKey u := by
        rw [unitKey, units_moves hothers hp.1 hb]
        exact unitKey_recordDependency c.1 p u u
      change c.1.Gains b.1 [(p, b.1.unitKey u)]
      rw [hkey]
      exact hgains
  cases hrow : v.1.units.get? p with
  | none =>
    rw [hrow] at h
    exact hrecorded h
  | some unit =>
    cases hsource : unit.source with
    | script resource compiled =>
      rw [hrow, Option.map_some, hsource] at h
      exact hrecorded h
    | custom spec version =>
      rw [hrow, Option.map_some, hsource] at h
      have hcustom : v.1.Custom p := ⟨unit, spec, version, hrow, hsource⟩
      have htold := keeps_outside hothers hcall (.depend spec p u) _ _ _ _ h hbefore.orderly
      have hready : strict ∧ a.1.Grounded thread ∧ p < a.1.units.size →
          strict ∧ v.1.Ready thread (some p) := fun hp =>
        ⟨hp.1, (hbefore.passed.ready hp.1 hp.2.1.ready).1, fun q hq => by
          cases hq
          exact hcustom⟩
      refine ((hbefore.passed.mono And.left).trans htold hready).imported (fun hp => ?_) o.returned
      obtain ⟨imports, hgains⟩ := htold.gains (hready hp)
      exact hgains.custom p hcustom

theorem runs_recordImport {parent : Option UnitId} {x : β} {o : Outcome β} {errand : Errand}
    {before : World L} (herrand : errand.unit? = some u)
    (hparent : (before.context thread).script k = parent)
    (h : (plain (Worker.recordImport parent u >>= fun _ => pure x)).Runs (Logged.Moves others) call
      a o b t) (ha : a.1.Orderly) (hcontext : a.1.context thread = before.context thread) :
    Passed thread (strict ∧ a.1.Grounded thread)
      (Passage.import? thread ⟨k, errand, before, b.1, o.returned⟩).toList a b := by
  have himport : (Passage.import? thread ⟨k, errand, before, b.1, o.returned⟩).toList =
      if o.returned then (parent.map fun p => (p, b.1.unitKey u)).toList else [] := by
    unfold Passage.import?
    rw [herrand, hparent]
    cases o.returned <;> cases parent <;> rfl
  rw [himport]
  cases parent with
  | none =>
    obtain ⟨hb, rfl, -⟩ := h
    exact (unnoted_moves hothers hb ha).passed.mono And.left
  | some p =>
    have hpremise : strict ∧ a.1.Grounded thread →
        strict ∧ a.1.Grounded thread ∧ p < a.1.units.size := fun hp =>
      ⟨hp.1, hp.2, hp.2 k p (by rw [hcontext, hparent])⟩
    obtain ⟨y, c, t₁, t₂, hfirst, ⟨hb, rfl, -⟩, -⟩ | ⟨payload, c, hfirst, hb, rfl⟩ :=
      Program.runs_bind.1 (runs_plain_bind.1 h)
    · have hadded := (runs_addDependency hothers hcall hfirst ha).mono hpremise
      have hmoved := unnoted_moves hothers hb hadded.orderly
      refine (hadded.unnoted (hmoved.mono And.left)).congr fun hp => ?_
      change [(p, c.1.unitKey u)] = [(p, b.1.unitKey u)]
      rw [unitKey, unitKey, units_moves hothers hp.1 hb]
    · have hadded := (runs_addDependency hothers hcall hfirst ha).mono hpremise
      exact hadded.unnoted ((unnoted_moves hothers hb hadded.orderly).mono And.left)

omit hothers hcall in
theorem plain_serialized (inside : Run L α) :
    plain (Worker.serialized thread k inside) = plain (Worker.enter thread k) >>= fun _ =>
      (plain inside).thenAlways (plain (Program.modify fun w => w.leave k)) := by
  unfold Worker.serialized plain
  rw [Program.beside_bind]
  simp only [Program.beside_thenAlways]

/-- An import runs inside the serializer, and what it leaves is noted with its passage. -/
theorem runs_importing {inside : Run L (β × Option UnitId)} {o : Outcome β} {errand : Errand}
    {before : World L} (herrand : errand.unit? = some u)
    (hinside : ∀ a o b t, (plain inside).Runs (Logged.Moves others) call a o b t → a.1.Orderly →
      a.1.Inside thread k → Passed thread (strict ∧ a.1.Grounded thread) [] a b ∧
        ∀ x parent, o = .done (x, parent) → parent = (a.1.context thread).script k)
    (h : (plain (Worker.serialized thread k inside >>= fun x =>
        Worker.recordImport x.2 u >>= fun _ => pure x.1)).Runs (Logged.Moves others) call a o b t)
    (ha : a.1.Orderly) (hcontext : a.1.context thread = before.context thread) :
    Passed thread (strict ∧ a.1.Grounded thread)
      (Passage.import? thread ⟨k, errand, before, b.1, o.returned⟩).toList a b := by
  have hserial : ∀ {o' c t'}, (plain (Worker.serialized thread k inside)).Runs (Logged.Moves others)
      call a o' c t' → Passed thread (strict ∧ a.1.Grounded thread) [] a c ∧
        ∀ x parent, o' = .done (x, parent) → parent = (a.1.context thread).script k := by
    intro o' c t' h
    rw [plain_serialized] at h
    obtain ⟨v, d, t₁, hrun, hv, hthere, hscript, hgains, haround⟩ := runs_entered hothers h ha
    obtain ⟨hpassed, hparent⟩ := hinside v o' d t₁ hrun hv hthere
    refine ⟨haround _ _ And.left (hpassed.mono fun hp => ⟨hp.1, ?_⟩), fun x parent hdone => ?_⟩
    · exact (Ready.of_gains hp.2.ready (hgains hp.1) hscript).1
    · rw [hparent x parent hdone, hscript]
  obtain ⟨x, c, t₁, t₂, hfirst, hrest, -⟩ | ⟨payload, c, hfirst, hb, rfl⟩ :=
    Program.runs_bind.1 (runs_plain_bind.1 h)
  · obtain ⟨hpassed, hparent⟩ := hserial hfirst
    refine hpassed.trans (runs_recordImport hothers hcall herrand ?_ hrest hpassed.orderly
      (hpassed.context.trans hcontext)) fun hp =>
        ⟨hp.1, (hpassed.ready hp hp.2.ready).1⟩
    rw [hparent x.1 x.2 rfl, hcontext]
  · obtain ⟨hpassed, -⟩ := hserial hfirst
    exact hpassed.unnoted ((unnoted_moves hothers hb hpassed.orderly).mono And.left)

omit hothers hcall in
theorem aside_keepEvaluation (env : EnvironmentId) (answer : Answer Value) (w : World L) :
    w.Aside (Worker.keepEvaluation k u env answer w) := by
  unfold Worker.keepEvaluation
  cases answer with
  | error cause => exact w.aside_refl
  | ok value =>
    dsimp only
    split
    · exact aside_modifyCache w k _
    · exact w.aside_refl

end Operations

section Noting

variable (hothers : Company thread strict others) {k : WorkerId} {a b : Logged L} {t : List Empty}
  {own : Option UnitId} {errand : Errand} {before : World L} {o : Outcome α}
include hothers

theorem runs_noting {q : LoggedRun L α}
    (hq : ∀ o b t, q.Runs (Logged.Moves others) call a o b t →
      Passed thread (strict ∧ a.1.Ready thread own)
        (Passage.import? thread ⟨k, errand, before, b.1, o.returned⟩).toList a b)
    (h : (q.noting k errand before).Runs (Logged.Moves others) call a o b t)
    (hcontext : a.1.context thread = before.context thread) :
    Passed thread (strict ∧ a.1.Ready thread own) [] a b := by
  obtain ⟨o₁, c, t₁, t₂, hfirst, hrest, -⟩ := Program.runs_thenOutcome.1 h
  obtain ⟨d, hd, hb, -, -⟩ := Program.runs_modify_bind.1 hrest
  have hpassed := hq o₁ c t₁ hfirst
  have hmoved := unnoted_moves hothers hd hpassed.orderly
  have hpending : strict ∧ a.1.Ready thread own →
      (Passage.import? thread ⟨k, errand, before, c.1, o₁.returned⟩).toList =
        (Passage.import? thread ⟨k, errand, before, d.1, o₁.returned⟩).toList := fun hp => by
    unfold Passage.import? unitKey
    rw [units_moves hothers hp.1 hd]
  have hnoted := ((hpassed.unnoted (hmoved.mono And.left)).congr hpending).noted
    (hmoved.context.trans (hpassed.context.trans hcontext))
  exact hnoted.unnoted ((unnoted_moves hothers hb hnoted.orderly).mono And.left)

theorem runs_noting_of_keeps {q : LoggedRun L α} (herrand : errand.unit? = none)
    (hq : Keeps others call thread strict own q)
    (h : (q.noting k errand before).Runs (Logged.Moves others) call a o b t)
    (ha : a.1.Orderly) (hcontext : a.1.context thread = before.context thread) :
    Passed thread (strict ∧ a.1.Ready thread own) [] a b := by
  refine runs_noting hothers (fun o b t hrun => ?_) h hcontext
  rw [Passage.import?_of_unit?_eq_none herrand]
  exact hq a o b t hrun ha

end Noting

section Answers

variable (hothers : Company thread strict others) (hcall : CallsKeep call thread strict)
  {own : Option UnitId}
include hothers hcall

omit hcall in
theorem keeps_before {q : World L → LoggedRun L α}
    (hq : ∀ a o b t, (q a.1).Runs (Logged.Moves others) call a o b t → a.1.Orderly →
      Passed thread (strict ∧ a.1.Ready thread own) [] a b) :
    Keeps others call thread strict own (Program.read Prod.fst >>= q) := by
  intro a o b t h ha
  obtain ⟨v, hv, h⟩ := Program.runs_read_bind.1 h
  have hbefore := unnoted_moves hothers hv ha
  exact (hbefore.passed.mono And.left).trans (hq v o b t h hbefore.orderly) fun hp =>
    ⟨hp.1, hbefore.passed.ready hp.1 hp.2⟩

theorem runs_loadUnit {k : WorkerId} {u : UnitId} {before : World L} {a b : Logged L}
    {o : Outcome (Answer EnvironmentId)} {t : List Empty}
    (h : (plain (Worker.loadUnit thread k u)).Runs (Logged.Moves others) call a o b t)
    (ha : a.1.Orderly) (hcontext : a.1.context thread = before.context thread) :
    Passed thread (strict ∧ a.1.Grounded thread)
      (Passage.import? thread ⟨k, .load (some u), before, b.1, o.returned⟩).toList a b := by
  obtain ⟨v, hv, h⟩ := runs_plain_read_bind.1 h
  have hbefore := unnoted_moves hothers hv ha
  have himporting := runs_importing hothers hcall (show (Errand.load (some u)).unit? = some u from rfl)
    (fun _ _ _ _ hrun hstart hthere => runs_checkOrLoad hothers hcall hrun hstart hthere) h
    hbefore.orderly (hbefore.context.trans hcontext)
  exact (hbefore.passed.mono And.left).trans himporting fun hp =>
    ⟨hp.1, (hbefore.passed.ready hp.1 hp.2.ready).1⟩

theorem runs_evaluateScript {k : WorkerId} {u : UnitId} {env : EnvironmentId} {before : World L}
    {a b : Logged L} {o : Outcome (Answer Value)} {t : List Empty}
    (h : (plain (Worker.evaluateScript thread k u env)).Runs (Logged.Moves others) call a o b t)
    (ha : a.1.Orderly) (hcontext : a.1.context thread = before.context thread) :
    Passed thread (strict ∧ a.1.Grounded thread)
      (Passage.import? thread ⟨k, .evaluate u, before, b.1, o.returned⟩).toList a b :=
  runs_importing hothers hcall rfl
    (fun _ _ _ _ hrun hstart hthere => runs_asScript hothers
      (fun _ _ _ _ hrun hstart => runs_unitEvaluate hothers hcall hrun hstart)
      (fun answer w => aside_keepEvaluation env answer w) hrun hstart hthere) h ha hcontext

theorem keeps_loads (k : WorkerId) (caller : Option EnvironmentId) (name : String) :
    Keeps others call thread strict own (loads thread k caller name) := by
  refine keeps_before hothers fun a o b t h ha => ?_
  obtain ⟨o₁, c, t₁, t₂, hlocate, h, -⟩ := Program.runs_thenOutcome.1 h
  have hlocated : Passed thread (strict ∧ a.1.Ready thread own) [] a c :=
    keeps_plain hothers hcall (quiet_locate caller name) a o₁ c t₁ hlocate ha
  have hready (hp : strict ∧ a.1.Ready thread own) : strict ∧ c.1.Ready thread own :=
    ⟨hp.1, hlocated.ready hp hp.2⟩
  refine hlocated.trans ?_ hready
  match o₁ with
  | .done (.ok u) =>
    refine runs_noting hothers (fun o b t hrun => ?_) h hlocated.context
    exact (runs_loadUnit hothers hcall hrun hlocated.orderly hlocated.context).mono fun hp =>
      ⟨hp.1, hp.2.1⟩
  | .done (.error cause) =>
    exact runs_noting_of_keeps hothers rfl (keeps_ended hothers _) h hlocated.orderly hlocated.context
  | .panic payload =>
    exact runs_noting_of_keeps hothers rfl (keeps_ended hothers _) h hlocated.orderly hlocated.context

theorem keeps_evaluates (k : WorkerId) (u : UnitId) (env : EnvironmentId) :
    Keeps others call thread strict own (evaluates thread k u env) := by
  refine keeps_before hothers fun a o b t h ha => runs_noting hothers (fun o b t hrun => ?_) h rfl
  exact (runs_evaluateScript hothers hcall hrun ha rfl).mono fun hp => ⟨hp.1, hp.2.1⟩

theorem keeps_finds (k : WorkerId) (module : ModuleRef) :
    Keeps others call thread strict own (finds thread k module) := by
  cases module with
  | environment env => exact keeps_ended hothers _
  | name name => exact keeps_loads hothers hcall k none name

theorem keeps_callFunction (k : WorkerId) (env : EnvironmentId) (function : FunctionId)
    (args : List Value) :
    Keeps others call thread strict own (plain (Worker.callFunction thread k env function args)) := by
  intro a o b t h ha
  obtain ⟨v, hv, h⟩ := runs_plain_read_bind.1 h
  have hread := unnoted_moves hothers hv ha
  cases hclosure : v.1.functions.get? function with
  | none =>
    rw [hclosure] at h
    exact ((hread.trans (unnoted_moves hothers h.1 hread.orderly)).mono And.left).passed
  | some closure =>
    rw [hclosure] at h
    obtain ⟨u, hu, h⟩ := runs_plain_transact_bind.1 h
    have hbefore := hread.trans (unnoted_moves hothers hu hread.orderly)
    rw [plain, Program.beside_thenAlways] at h
    obtain ⟨o₁, c, t₁, t₂, hinside, h, -⟩ := Program.runs_thenOutcome.1 h
    obtain ⟨d, hd, hb, -, -⟩ := (Program.runs_modify_bind
      (f := fun e : Logged L => (e.1.setActive thread (u.1.active.get? thread), e.2))).1 h
    have hset : ∀ (w : World L) active, w.Orderly →
        (w.setActive thread active).Orderly ∧
          (w.setActive thread active).workers.size = w.workers.size ∧
          w.Gains (w.setActive thread active) [] := by
      intro w active hw
      cases active <;> exact ⟨hw, rfl, gains_of_units rfl⟩
    obtain ⟨hactive, hsize, hgains⟩ := hset u.1 (some k) hbefore.orderly
    have hcalled := keeps_outside hothers hcall (.call closure k env args) _ _ _ _ hinside hactive
    have hcd := unnoted_moves hothers hd hcalled.orderly
    obtain ⟨hactive', hsize', hgains'⟩ := hset d.1 (u.1.active.get? thread) hcd.orderly
    have hdb := unnoted_moves hothers hb hactive'
    have hto : strict → a.1.Gains (u.1.setActive thread (some k)) [] := fun hs =>
      (hbefore.gains hs).trans hgains
    have hready : strict ∧ a.1.Ready thread own →
        strict ∧ (u.1.setActive thread (some k)).Ready thread none := fun hp => by
      refine ⟨hp.1, Ready.of_gains hp.2.1.ready (hto hp.1) ?_⟩
      rw [context_setActive, hbefore.context]
    refine (hcalled.mono hready).around hdb.orderly ?_ ?_ hbefore.log (hdb.log.trans hcd.log)
      (fun hp => hto hp.1) fun hp => ((hcd.gains hp.1).trans hgains').trans (hdb.gains hp.1)
    · rw [hdb.size, hsize', hcd.size, hcalled.size, hsize, hbefore.size]
    · rw [hdb.context, context_setActive, hcd.context, hcalled.context, context_setActive,
        ← hbefore.context]
      rfl

theorem keeps_callNamed (k : WorkerId) (env : EnvironmentId) (function : FunctionRef)
    (args : List Value) :
    Keeps others call thread strict own (plain (Worker.callNamed thread k env function args)) := by
  have hfind : (Worker.findFunction env function : Run L _).Quiet := by
    cases function with
    | callable f name => trivial
    | name name => exact quiet_read _
  unfold Worker.callNamed plain
  rw [Program.beside_bind]
  refine (keeps_plain hothers hcall hfind).bind hothers fun answer => ?_
  cases answer with
  | error cause => exact keeps_ended hothers _
  | ok f =>
    dsimp only
    rw [Program.beside_bind]
    exact (keeps_callFunction hothers hcall k env f args).bind hothers fun _ => keeps_ended hothers _

omit hcall in
theorem keeps_entered {k : WorkerId} {inside : LoggedRun L α}
    (hinside : Keeps others call thread strict own inside) :
    Keeps others call thread strict own (plain (Worker.enter thread k) >>= fun _ =>
      inside.thenAlways (plain (Program.modify fun w => w.leave k))) := by
  intro a o b t h ha
  obtain ⟨v, c, t₁, hrun, hv, -, hscript, hgains, haround⟩ := runs_entered hothers h ha
  exact haround _ _ And.left ((hinside v o c t₁ hrun hv).mono fun hp =>
    ⟨hp.1, hp.2.of_gains (hgains hp.1) hscript⟩)

theorem keeps_invokes (k : WorkerId) (module : ModuleRef) (function : FunctionRef)
    (args : List Value) :
    Keeps others call thread strict own (invokes thread k module function args) := by
  refine keeps_before hothers fun a o b t h ha => runs_noting_of_keeps hothers rfl ?_ h ha rfl
  refine keeps_entered hothers ((keeps_finds hothers hcall k module).bind hothers fun answer => ?_)
  cases answer with
  | error cause => exact keeps_ended hothers _
  | ok env => exact keeps_callNamed hothers hcall k env function args

end Answers

end LoggedRun

end Programs

/-- Code records dependencies of no unit but the one of the host that it belongs to. -/
def Request.RecordsOnly (own : Option UnitId) (request : Request L) : Prop :=
  ∀ u dependency, request = .recordDependency u dependency → own = some u

section Code

variable {others : World L → World L → Prop}
  {call : (callee : Callee L) → Logged L → Outcome callee.Result → Logged L → List Empty → Prop}
  {thread : ThreadId} {strict : Prop} {own : Option UnitId} {interpreter : Interpreter L}

theorem LoggedRun.keeps_recordDependency (hothers : Company thread strict others)
    {u dependency : UnitId} (hown : strict → own = some u) :
    Keeps others call thread strict own
      (plain (interpreter.answer thread (.recordDependency u dependency))) := by
  rintro a o b t ⟨v, v', hv, hv', hb, -, -⟩ ha
  cases hv'
  have hbefore := unnoted_moves hothers hv ha
  have hlevel : v.1.Level (v.1.recordDependency u dependency) := level_of_same rfl rfl
  have hafter := unnoted_moves hothers hb (hlevel.orderly hbefore.orderly)
  refine Unnoted.passed ⟨hafter.orderly, ?_, ?_, hafter.log.trans hbefore.log, fun hp => ?_⟩
  · rw [hafter.size, hlevel.size, hbefore.size]
  · rw [hafter.context, hlevel.context, hbefore.context]
  · have hcustom : v.1.Custom u := (hbefore.gains hp.1).custom u (hp.2.2 u (hown hp.1))
    have hrecorded := (gains_recordDependency v.1 u dependency hcustom.lt).custom_nil hcustom
    exact ((hbefore.gains hp.1).trans hrecorded).trans (hafter.gains hp.1)

theorem LoggedRun.keeps_loggedAnswer (hothers : Company thread strict others)
    (hcall : CallsKeep call thread strict) {request : Request L}
    (hrequest : strict → request.RecordsOnly own) :
    Keeps others call thread strict own (interpreter.loggedAnswer thread request) := by
  cases request with
  | loadModule k caller name => exact keeps_loads hothers hcall k caller name
  | invoke k module function args => exact keeps_invokes hothers hcall k module function args
  | evaluate k u env => exact keeps_evaluates hothers hcall k u env
  | recordDependency u dependency =>
    exact keeps_recordDependency hothers fun hs => hrequest hs u dependency rfl
  | _ => exact keeps_plain hothers hcall (quiet_answer trivial)

theorem LoggedRun.keeps_logged (hothers : Company thread strict others)
    (hcall : CallsKeep call thread strict) {code : Code L α}
    (hcode : strict → code.Only (Request.RecordsOnly own)) :
    Keeps others call thread strict own (interpreter.logged thread code) := by
  induction code with
  | ended outcome => exact keeps_ended hothers outcome
  | ask request next ih =>
    exact (keeps_loggedAnswer hothers hcall fun hs => (hcode hs).1).thenOutcome fun o =>
      ih o fun hs => (hcode hs).2 o

/-- Code from outside keeps to it, however deep the calls inside it go. -/
theorem callsKeep (hothers : Company thread strict others)
    (hcode : strict → ∀ callee, (interpreter.code callee).Only (Request.RecordsOnly callee.unit?))
    (depth : Nat) : CallsKeep (interpreter.loggedComesTo thread others depth) thread strict := by
  induction depth with
  | zero => exact fun _ _ _ _ _ h => h.elim
  | succ depth ih =>
    intro callee a o b t h ha
    exact LoggedRun.keeps_logged hothers ih (fun hs => hcode hs callee) a o b t h ha

end Code

end ScriptWorker
