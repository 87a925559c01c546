import ScriptWorker.Proofs.Loading.Worlds

/-!
# The steps of nested loads

The calls on a thread's workers that have begun and not come back are a stack. A load goes through
stages, from its arrival over the check of the module that is there to the filling of a new one, and
each stage says what the next step on the world can be. What scripts and host do besides loading is
left open.
-/

namespace ScriptWorker

variable {L : Language}

/-- How far a load is. -/
inductive Stage (L : Language) where
  | arriving
  /-- The key was not in the checked view, and the unit is the current script. -/
  | opened
  /-- The module of the last load does not do. -/
  | stale
  /-- A body is wanted for the time that the source had. -/
  | reading (time : UInt64)
  | compiling (time : UInt64) (text : String)
  | ready (code : L.Body) (time : UInt64)
  /-- A new module was registered for the body to fill. -/
  | registered (env : EnvironmentId) (code : L.Body) (time : UInt64)
  | filling (env : EnvironmentId) (code : L.Body) (time : UInt64)
  | settled (outcome : Outcome (Answer EnvironmentId))

def Stage.isInside : Stage L → Bool
  | arriving => false
  | settled _ => false
  | _ => true

def Stage.isReading : Stage L → Bool
  | reading _ => true
  | compiling _ _ => true
  | _ => false

def Stage.isRenewing : Stage L → Bool
  | arriving => false
  | opened => false
  | settled _ => false
  | _ => true

def Stage.module? : Stage L → Option EnvironmentId
  | registered env _ _ => some env
  | filling env _ _ => some env
  | _ => none

theorem Stage.isInside_of_module? {stage : Stage L} {env : EnvironmentId}
    (h : stage.module? = some env) : stage.isInside := by
  cases stage <;> simp_all [module?, isInside]

theorem Stage.isInside_of_isReading {stage : Stage L} (h : stage.isReading) : stage.isInside := by
  cases stage <;> simp_all [isReading, isInside]

theorem Stage.isRenewing_of_isReading {stage : Stage L} (h : stage.isReading) : stage.isRenewing := by
  cases stage <;> simp_all [isReading, isRenewing]

theorem Stage.isInside_of_isRenewing {stage : Stage L} (h : stage.isRenewing) : stage.isInside := by
  cases stage <;> simp_all [isRenewing, isInside]

inductive Progression where
  | arriving
  | inside
  | settled
  deriving DecidableEq

/-- A call that has begun and not come back, with how far it is. -/
inductive Activity (L : Language) where
  | load (worker : WorkerId) (unit : UnitId) (key : String) (stage : Stage L)
  | invoke (worker : WorkerId) (progression : Progression)
  | call (callee : Callee L)

namespace Activity

def frame : Activity L → Frame L
  | load k u key _ => .load k u key
  | invoke k _ => .invoke k
  | call callee => .call callee

def entries (k : WorkerId) : Activity L → Nat
  | load j _ _ stage => if j = k ∧ stage.isInside then 1 else 0
  | invoke j progression => if j = k ∧ progression = .inside then 1 else 0
  | call _ => 0

def depth (k : WorkerId) : List (Activity L) → Nat
  | [] => 0
  | a :: rest => a.entries k + depth k rest

def script (k : WorkerId) : List (Activity L) → Option UnitId
  | [] => none
  | load j u _ stage :: rest => if j = k ∧ stage.isInside then some u else script k rest
  | invoke _ _ :: rest => script k rest
  | call _ :: rest => script k rest

def frames (stack : List (Activity L)) : List (Frame L) := stack.map frame

section Counting

variable {k j : WorkerId} {u : UnitId} {key : String} {stage : Stage L} {s : List (Activity L)}

theorem depth_load_inside (h : stage.isInside) :
    depth k (load k u key stage :: s) = depth k s + 1 := by
  simp [depth, entries, h, Nat.add_comm 1]

theorem depth_load_outside (h : stage.isInside = false) :
    depth j (load k u key stage :: s) = depth j s := by
  simp [depth, entries, h]

theorem depth_load_ne (h : k ≠ j) : depth j (load k u key stage :: s) = depth j s := by
  simp [depth, entries, h]

theorem script_load_inside (h : stage.isInside) :
    script k (load k u key stage :: s) = some u := by
  simp [script, h]

theorem script_load_outside (h : stage.isInside = false) :
    script j (load k u key stage :: s) = script j s := by
  simp [script, h]

theorem script_load_ne (h : k ≠ j) : script j (load k u key stage :: s) = script j s := by
  simp [script, h]

theorem depth_invoke_inside : depth k (invoke k .inside :: s) = depth k s + 1 := by
  simp [depth, entries, Nat.add_comm 1]

theorem depth_invoke_outside {progression : Progression} (h : progression ≠ .inside) :
    depth j (invoke k progression :: s) = depth j s := by
  simp [depth, entries, h]

theorem depth_invoke_ne {progression : Progression} (h : k ≠ j) :
    depth j (invoke k progression :: s) = depth j s := by
  simp [depth, entries, h]

@[simp] theorem script_invoke {progression : Progression} :
    script j (invoke k progression :: s) = script j s := rfl

@[simp] theorem depth_call {callee : Callee L} : depth j (call callee :: s) = depth j s := by
  simp [depth, entries]

@[simp] theorem script_call {callee : Callee L} : script j (call callee :: s) = script j s := rfl

end Counting

/-- Whether the code that runs may call on a worker. -/
def MayCall : List (Activity L) → Prop
  | [] => True
  | call (.execute ..) :: _ => True
  | call (.call ..) :: _ => True
  | _ => False

/-- Whether a module may be loaded: on behalf of running code, or for a call by name. -/
def MayLoad : List (Activity L) → Prop
  | invoke _ .inside :: _ => True
  | stack => MayCall stack

end Activity

namespace World

def Script (w : World L) (u : UnitId) (key : String) (resource : Resource) : Prop :=
  ∃ unit compiled, w.units.get? u = some unit ∧ unit.source = .script resource compiled ∧
    unit.key = key ∧ resource.key = key

def scriptsOf (w : World L) (r : ResolverId) : Option (Dictionary String UnitId) :=
  (w.resolvers.get? r).bind fun resolver =>
    match resolver.kind with
    | .repositories _ _ scripts => some scripts
    | .custom _ => none

def scripts (w : World L) (k : WorkerId) : Option (Dictionary String UnitId) :=
  w.scriptsOf (w.workerResolver k)

/-- A worker gets the unit for a key from its resolver. -/
def Holds (w : World L) (k : WorkerId) (u : UnitId) (key : String) : Prop :=
  ∃ scripts, w.scripts k = some scripts ∧ scripts.get? key = some u

def Scripted (w : World L) (k : WorkerId) : Prop :=
  ∃ scripts, w.scripts k = some scripts ∧
    ∀ key u, scripts.get? key = some u → ∃ resource, w.Script u key resource

/-- What leaves workers as they are: the scripts known before are still known, new ones may have come,
and environments only come. -/
structure Beside (w w' : World L) : Prop where
  size : w'.workers.size = w.workers.size
  cache : ∀ k, (w'.worker k).cache = (w.worker k).cache
  serializer : ∀ k, (w'.worker k).serializer = (w.worker k).serializer
  config : ∀ k, (w'.worker k).config = (w.worker k).config
  resolver : ∀ k, w'.workerResolver k = w.workerResolver k
  script : ∀ u key resource, w.Script u key resource → w'.Script u key resource
  scripts : ∀ k scripts, w.scripts k = some scripts → ∃ scripts', w'.scripts k = some scripts' ∧
    (∀ key u, scripts.get? key = some u → scripts'.get? key = some u) ∧
    ∀ key u, scripts'.get? key = some u →
      scripts.get? key = some u ∨ ∃ resource, w'.Script u key resource
  environments : w.environments.size ≤ w'.environments.size

end World

/-- What is under way, what has happened, and how the world is. -/
structure Config (L : Language) where
  stack : List (Activity L)
  history : List (Moment L)
  world : World L

namespace Config

def Returned (history : List (Moment L)) (callee : Callee L) (outcome : Outcome callee.Result) :
    Prop :=
  ∃ before frames v, history = before ++ [⟨frames, .left (.call callee) outcome, v⟩]

/-- A thread's next step on the workers of a crew; `aside` are the steps that are not on workers. -/
inductive Step (crew : WorkerId → Prop) (thread : ThreadId) (aside : World L → World L → Prop) :
    Config L → Config L → Prop
  | aside {s H w w'} : aside w w' → Step crew thread aside ⟨s, H, w⟩ ⟨s, H, w'⟩
  | arrive {s H w k u key} : crew k → Activity.MayLoad s → w.Holds k u key →
    Step crew thread aside ⟨s, H, w⟩ ⟨.load k u key .arriving :: s,
      H ++ [⟨Activity.frames s, .entered (.load k u key), w⟩], w⟩
  | hit {s H w k u key env} : ((w.worker k).entered thread).cache.peek key = some env →
    Step crew thread aside ⟨.load k u key .arriving :: s, H, w⟩
      ⟨.load k u key (.settled (.done (.ok env))) :: s, H,
        w.answered thread k u key (Activity.script k s)⟩
  | miss {s H w k u key} : ((w.worker k).entered thread).cache.peek key = none →
    Step crew thread aside ⟨.load k u key .arriving :: s, H, w⟩
      ⟨.load k u key .opened :: s, H, w.modifyWorker k (Worker.opened thread u key)⟩
  | reuse {s H w k u key env} : (w.worker k).cache.get? key = some env → w.isFresh u env →
    Step crew thread aside ⟨.load k u key .opened :: s, H, w⟩
      ⟨.load k u key (.settled (.done (.ok env))) :: s, H,
        (w.modifyWorker k (Worker.marked key env)).closed k u key (Activity.script k s) (.ok env)⟩
  | distrust {s H w k u key} :
    (∀ env, (w.worker k).cache.get? key = some env → ¬ w.isFresh u env) →
    Step crew thread aside ⟨.load k u key .opened :: s, H, w⟩ ⟨.load k u key .stale :: s, H, w⟩
  | date {s H w k u key resource} : w.Script u key resource →
    Step crew thread aside ⟨.load k u key .stale :: s, H, w⟩
      ⟨.load k u key (.reading (w.storage.modified resource)) :: s, H, w⟩
  | remember {s H w k u key code time} : w.compiled u = some (code, time) →
    Step crew thread aside ⟨.load k u key (.reading time) :: s, H, w⟩
      ⟨.load k u key (.ready code time) :: s, H, w⟩
  | read {s H w k u key resource time text} : w.Script u key resource →
    w.storage.readText resource = .ok text →
    Step crew thread aside ⟨.load k u key (.reading time) :: s, H, w⟩
      ⟨.load k u key (.compiling time text) :: s, H, w⟩
  | compile {s H w k u key resource time text} : w.Script u key resource →
    Step crew thread aside ⟨.load k u key (.compiling time text) :: s, H, w⟩
      ⟨.call (.compile resource.path text) :: .load k u key (.compiling time text) :: s,
        H ++ [⟨.load k u key :: Activity.frames s, .entered (.call (.compile resource.path text)), w⟩],
        w⟩
  | compiled {s H w k u key resource time text code} : w.Script u key resource →
    Returned H (.compile resource.path text) (.done (.ok code)) →
    Step crew thread aside ⟨.load k u key (.compiling time text) :: s, H, w⟩
      ⟨.load k u key (.ready code time) :: s, H, w.setCompiled u code time⟩
  | refuse {s H w k u key stage cause} : stage.isReading →
    Step crew thread aside ⟨.load k u key stage :: s, H, w⟩
      ⟨.load k u key (.settled (.done (.error cause))) :: s, H,
        w.closed k u key (Activity.script k s) (.error cause)⟩
  | fill {s H w k u key resource code time} : w.Script u key resource →
    w.compiled u = some (code, time) →
    Step crew thread aside ⟨.load k u key (.ready code time) :: s, H, w⟩
      ⟨.load k u key (.registered w.environments.size code time) :: s, H,
        (w.addModule u resource).2.modifyWorker k (Worker.marked key w.environments.size)⟩
  | execute {s H w k u key env code time} :
    Step crew thread aside ⟨.load k u key (.registered env code time) :: s, H, w⟩
      ⟨.call (.execute code k env) :: .load k u key (.filling env code time) :: s,
        H ++ [⟨.load k u key :: Activity.frames s, .entered (.call (.execute code k env)), w⟩], w⟩
  | finish {s H w k u key env code time value} :
    Returned H (.execute code k env) (.done (.ok value)) →
    Step crew thread aside ⟨.load k u key (.filling env code time) :: s, H, w⟩
      ⟨.load k u key (.settled (.done (.ok env))) :: s, H,
        (w.stamp env (w.checksumAt u time)).closed k u key (Activity.script k s) (.ok env)⟩
  | fail {s H w k u key env code time cause} :
    Returned H (.execute code k env) (.done (.error cause)) →
    Step crew thread aside ⟨.load k u key (.filling env code time) :: s, H, w⟩
      ⟨.load k u key (.settled (.done (.error cause))) :: s, H,
        w.closed k u key (Activity.script k s) (.error cause)⟩
  | crash {s H w k u key stage callee payload} : stage.isInside →
    Returned H callee (.panic payload) →
    Step crew thread aside ⟨.load k u key stage :: s, H, w⟩
      ⟨.load k u key (.settled (.panic payload)) :: s, H,
        w.modifyWorker k (Worker.unwound (Activity.script k s))⟩
  | leave {s H w k u key outcome} :
    Step crew thread aside ⟨.load k u key (.settled outcome) :: s, H, w⟩
      ⟨s, H ++ [⟨Activity.frames s, .left (.load k u key) outcome, w⟩], w⟩
  | arriveInvoke {s H w k} : crew k → Activity.MayCall s →
    Step crew thread aside ⟨s, H, w⟩
      ⟨.invoke k .arriving :: s, H ++ [⟨Activity.frames s, .entered (.invoke k), w⟩], w⟩
  | enterInvoke {s H w k} :
    Step crew thread aside ⟨.invoke k .arriving :: s, H, w⟩
      ⟨.invoke k .inside :: s, H, w.entered thread k⟩
  | call {s H w k closure this args} :
    Step crew thread aside ⟨.invoke k .inside :: s, H, w⟩
      ⟨.call (.call closure k this args) :: .invoke k .inside :: s,
        H ++ [⟨.invoke k :: Activity.frames s, .entered (.call (.call closure k this args)), w⟩], w⟩
  | settleInvoke {s H w k} :
    Step crew thread aside ⟨.invoke k .inside :: s, H, w⟩
      ⟨.invoke k .settled :: s, H, w.modifyWorker k Worker.left⟩
  | leaveInvoke {s H w k outcome} :
    Step crew thread aside ⟨.invoke k .settled :: s, H, w⟩
      ⟨s, H ++ [⟨Activity.frames s, .left (.invoke k) outcome, w⟩], w⟩
  | comeBack {s H w callee outcome} :
    Step crew thread aside ⟨.call callee :: s, H, w⟩
      ⟨s, H ++ [⟨Activity.frames s, .left (.call callee) outcome, w⟩], w⟩

abbrev Path (crew : WorkerId → Prop) (thread : ThreadId) (aside : World L → World L → Prop) :
    Config L → Config L → Prop :=
  Relation.ReflTransGen (Step crew thread aside)

end Config

end ScriptWorker
