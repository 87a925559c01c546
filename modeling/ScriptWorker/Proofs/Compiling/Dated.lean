import ScriptWorker.Execution.Requests
import ScriptWorker.Proofs.Reloading.Sources

/-!
# Contents by their times

An edit writes first and moves the time of its store on afterwards; a script reads the time first and its
source afterwards. So what a script made of its source at some time is of the content that there is as long
as the time has not moved on and no edit has written that will move it on. A program that keeps bodies only
with such times does so whatever becomes of the entry between its steps.
-/

namespace ScriptWorker

variable {L : Language}

namespace Compiling

structure View where
  time : UInt64
  content : Option ByteArray
  /-- An edit has written to the store and has not moved the time on yet. -/
  midway : Prop

namespace View

variable {x y z : View} {time : UInt64} {Holds Holds' : Option ByteArray → Prop}

/-- What may become of an entry: when the time is the same and all edits are through, none was midway
before, and the content is the same. -/
structure Follows (x y : View) : Prop where
  time : x.time ≤ y.time
  settled : y.time = x.time → ¬y.midway → ¬x.midway ∧ y.content = x.content

theorem Follows.refl (x : View) : x.Follows x := ⟨UInt64.le_refl _, fun _ h => ⟨h, rfl⟩⟩

theorem Follows.trans (h : x.Follows y) (h' : y.Follows z) : x.Follows z where
  time := UInt64.le_trans h.time h'.time
  settled heq hz := by
    have hy : z.time = y.time := UInt64.le_antisymm (heq ▸ h.time) h'.time
    obtain ⟨hsettled, hcontent⟩ := h'.settled hy hz
    obtain ⟨hsettled', hcontent'⟩ := h.settled (hy.symm.trans heq) hsettled
    exact ⟨hsettled', hcontent.trans hcontent'⟩

/-- Something holds of the content of a time: of the content that there is, if this is still the time and
all edits are through. -/
structure Dated (x : View) (time : UInt64) (Holds : Option ByteArray → Prop) : Prop where
  past : time ≤ x.time
  holds : x.time = time → ¬x.midway → Holds x.content

theorem Dated.follows (h : x.Dated time Holds) (hy : x.Follows y) : y.Dated time Holds where
  past := UInt64.le_trans h.past hy.time
  holds heq hsettled := by
    have htime : y.time = x.time := UInt64.le_antisymm (heq ▸ h.past) hy.time
    obtain ⟨hx, hcontent⟩ := hy.settled htime hsettled
    exact hcontent ▸ h.holds (htime.symm.trans heq) hx

theorem Dated.imp (h : x.Dated time Holds) (himp : ∀ content, Holds content → Holds' content) :
    x.Dated time Holds' :=
  ⟨h.past, fun heq hsettled => himp _ (h.holds heq hsettled)⟩

end View

/-- A script over an entry of a memory store, and what may come of code from outside. -/
structure Subject (L : Language) where
  unit : UnitId
  store : StoreId
  storeName : String
  directory : String
  name : String
  place : ExistenceId
  returns : (callee : Callee L) → Outcome callee.Result → Prop

namespace Subject

variable (S : Subject L)

def resource : Resource := .memory S.store S.storeName S.directory S.name S.place

def entry : String := Resource.entryOf S.directory S.name

def view (w : World L) (midway : Prop) : View :=
  ⟨w.storage.storeModified S.store, w.storage.entry? S.store S.entry, midway⟩

def Compiled (body : L.Body) (content : Option ByteArray) : Prop :=
  ∃ bytes text, content = some bytes ∧ Storage.decodeText bytes = .ok text ∧
    S.returns (.compile S.resource.path text) (.done (.ok body))

/-- A step that leaves the store alone, and keeps a body only with a time of whose content it is a
compilation. -/
structure Respects (w v : World L) (x : View) : Prop where
  store : v.storage.stores.get? S.store = w.storage.stores.get? S.store
  kept : ∀ c, v.compiled S.unit = some c → w.compiled S.unit = some c ∨
    x.Dated c.2 (S.Compiled c.1)

/-- A program whose steps are all like that, whatever others do to the entry in between. -/
def Careful {α : Type} : Run L α → View → Prop
  | .ended _, _ => True
  | .step move next, x => ∀ w midway, x.Follows (S.view w midway) → ∀ v, move w = some v →
    S.Respects w v (S.view w midway) ∧ Careful (next w) (S.view w midway)
  | .call callee next, x => ∀ outcome, S.returns callee outcome → Careful (next outcome) x

variable {S} {α β : Type} {w v : World L} {x y : View}

theorem respects_of_storage (hstorage : v.storage.stores = w.storage.stores) (hunits : v.units = w.units) :
    S.Respects w v x where
  store := by rw [hstorage]
  kept c hc := .inl (by rwa [World.compiled, hunits] at hc)

theorem Careful.follows {p : Run L α} (h : S.Careful p x) (hy : x.Follows y) : S.Careful p y := by
  induction p generalizing x y with
  | ended outcome => trivial
  | step move next ih => exact fun w midway hw v hv => h w midway (hy.trans hw) v hv
  | call callee next ih => exact fun outcome hreturns => ih outcome (h outcome hreturns) hy

theorem careful_bind {p : Run L β} {f : β → Run L α} (hp : S.Careful p x)
    (hf : ∀ b y, x.Follows y → S.Careful (f b) y) : S.Careful (p >>= f) x := by
  change S.Careful (p.thenOutcome _) x
  induction p generalizing x with
  | ended outcome =>
    cases outcome with
    | done b => exact hf b x (.refl x)
    | panic payload => trivial
  | step move next ih =>
    intro w midway hw v hv
    obtain ⟨hrespects, hnext⟩ := hp w midway hw v hv
    exact ⟨hrespects, ih w hnext fun b y hy => hf b y (hw.trans hy)⟩
  | call callee next ih => exact fun outcome hreturns => ih outcome (hp outcome hreturns) hf

theorem careful_read_bind {f : World L → β} {g : β → Run L α}
    (h : ∀ w midway, x.Follows (S.view w midway) → S.Careful (g (f w)) (S.view w midway)) :
    S.Careful (Program.read f >>= g) x := by
  rintro w midway hw v ⟨⟩
  exact ⟨respects_of_storage rfl rfl, h w midway hw⟩

theorem careful_transact_bind {f : World L → β × World L} {g : β → Run L α}
    (h : ∀ w midway, x.Follows (S.view w midway) → S.Respects w (f w).2 (S.view w midway) ∧
      S.Careful (g (f w).1) (S.view w midway)) : S.Careful (Program.transact f >>= g) x := by
  rintro w midway hw v ⟨⟩
  exact h w midway hw

theorem careful_modify {f : World L → World L}
    (h : ∀ w midway, x.Follows (S.view w midway) → S.Respects w (f w) (S.view w midway)) :
    S.Careful (Program.modify f) x := by
  rintro w midway hw v ⟨⟩
  exact ⟨h w midway hw, trivial⟩

theorem careful_invokeOutside_bind {callee : Callee L} {g : callee.Result → Run L α}
    (h : ∀ a, S.returns callee (.done a) → S.Careful (g a) x) :
    S.Careful (outside callee >>= g) x := by
  intro outcome hreturns
  cases outcome with
  | done a => exact h a hreturns
  | panic payload => trivial

theorem careful_reportAll (k : WorkerId) (errors : List SyntaxError) (x : View) :
    S.Careful (Script.reportAll k errors) x := by
  induction errors generalizing x with
  | nil => trivial
  | cons error rest ih =>
    exact careful_bind (careful_modify fun w midway _ => respects_of_storage rfl rfl)
      fun _ y _ => ih y

theorem careful_compile {time : UInt64} {source : String}
    (h : x.Dated time fun content => ∃ bytes, content = some bytes ∧
      Storage.decodeText bytes = .ok source) (k : WorkerId) :
    S.Careful (Script.compile k S.unit S.resource time source) x := by
  unfold Script.compile
  refine careful_invokeOutside_bind fun result hreturns => ?_
  cases result with
  | error errors => exact careful_bind (careful_reportAll k errors x) fun _ _ _ => trivial
  | ok body =>
    have hbody : x.Dated time (S.Compiled body) := h.imp fun content => by
      rintro ⟨bytes, hbytes, htext⟩
      exact ⟨bytes, source, hbytes, htext, hreturns⟩
    refine careful_bind (careful_modify fun w midway hw => ⟨rfl, fun c hc => ?_⟩) fun _ _ _ => trivial
    obtain hbefore | ⟨-, rfl⟩ := World.of_compiled_setCompiled hc
    · exact .inl hbefore
    · exact .inr (hbody.follows hw)

theorem respects_resourceExists (w : World L) (resource : Resource) (x : View) :
    S.Respects w { w with storage := (w.storage.resourceExists resource).2 } x := by
  obtain ⟨existence, hasked⟩ := Setting.resourceExists_eq w.storage resource
  rw [hasked]
  exact respects_of_storage rfl rfl

theorem content_of_readText {source : String} (h : w.storage.readText S.resource = .ok source) :
    ∃ bytes, w.storage.entry? S.store S.entry = some bytes ∧ Storage.decodeText bytes = .ok source := by
  unfold Storage.readText at h
  cases hread : w.storage.read S.resource with
  | error cause =>
    rw [hread] at h
    cases h
  | ok bytes =>
    rw [hread] at h
    refine ⟨bytes, ?_, h⟩
    unfold Storage.read resource at hread
    dsimp only at hread
    split at hread
    · next content hcontent =>
      cases hread
      exact hcontent
    · cases hread

/-- The search for a body reads the time first and the source afterwards. -/
theorem careful_body (k : WorkerId) (x : View) : S.Careful (Script.body k S.unit S.resource) x := by
  unfold Script.body
  refine careful_read_bind fun w midway _ => ?_
  refine careful_read_bind fun w₁ midway₁ h₁ => ?_
  split
  · trivial
  refine careful_transact_bind fun w₂ midway₂ h₂ => ⟨respects_resourceExists w₂ _ _, ?_⟩
  dsimp only
  split
  · exact careful_read_bind fun _ _ _ => trivial
  refine careful_read_bind fun w₃ midway₃ h₃ => ?_
  split
  · trivial
  · next source hread =>
    -- The time that was read first is no later than the one at which the source is read.
    refine careful_compile ⟨((h₁.trans h₂).trans h₃).time, fun _ _ => ?_⟩ k
    exact content_of_readText hread

end Subject

end Compiling

end ScriptWorker
