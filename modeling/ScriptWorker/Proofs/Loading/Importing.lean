import ScriptWorker.Proofs.Loading.Operations

/-!
# Scripts that only import

The smallest scripts that matter to loading: a body is a finite sequence of imports, with their
failures passed on or caught, and of stops. A module binds what its imports came to.
-/

namespace ScriptWorker.Importing

inductive Line (N : Type) where
  /-- Load a module and bind it; a failure ends the body. -/
  | imports (name : N)
  /-- Load a module and bind it; a failure is caught. -/
  | tries (name : N)
  | fails
  | panics
  deriving DecidableEq

def language (N : Type) : Language :=
  ⟨List (Line N), Empty, Empty, Empty, Empty, Empty, Empty, Unit⟩

variable {N : Type} (named : N → String)

def importing (k : WorkerId) (env : EnvironmentId) (name : String)
    (next : Answer EnvironmentId → Code (language N) (Answer Value)) :
    Code (language N) (Answer Value) := do
  let answer ← Code.request (.loadModule k (some env) name)
  if let .ok found := answer then
    Code.request (.setProperty env name (.scope found name))
  next answer

def body (k : WorkerId) (env : EnvironmentId) : List (Line N) → Code (language N) (Answer Value)
  | [] => .ended (.done (.ok .null))
  | .imports name :: rest => importing k env (named name) fun answer =>
    match answer with
    | .ok _ => body k env rest
    | .error cause => .ended (.done (.error cause))
  | .tries name :: rest => importing k env (named name) fun _ => body k env rest
  | .fails :: _ => .ended (.done (.error (.script "stopped" none)))
  | .panics :: _ => .ended (.panic none)

def interpreter (compile : String → List (Line N)) : Interpreter (language N) where
  code
    | .compile _ source => .ended (.done (.ok (compile source)))
    | .execute lines k env => body named k env lines
    | .call closure .. => nomatch (closure : Empty)
    | .load spec .. => nomatch (spec : Empty)
    | .evaluate spec .. => nomatch (spec : Empty)
    | .depend spec .. => nomatch (spec : Empty)
    | .resolve spec .. => nomatch (spec : Empty)
    | .job job _ => nomatch (job : Empty)
  effect effect := nomatch (effect : Empty)

theorem only_importing {P : Request (language N) → Prop} {k : WorkerId} {env : EnvironmentId}
    {name : String} {next : Answer EnvironmentId → Code (language N) (Answer Value)}
    (hload : P (.loadModule k (some env) name))
    (hset : ∀ value, P (.setProperty env name value)) (hnext : ∀ answer, (next answer).Only P) :
    (importing k env name next).Only P := by
  refine (Code.only_request hload).bind fun answer => ?_
  cases answer with
  | ok found => exact (Code.only_request (hset _)).bind fun _ => hnext _
  | error cause => exact hnext _

/-- Scripts that import load modules, and otherwise only define what they import. -/
theorem only_body {P : Request (language N) → Prop} {k : WorkerId} {env : EnvironmentId}
    (hload : ∀ name, P (.loadModule k (some env) (named name)))
    (hset : ∀ name value, P (.setProperty env name value)) (lines : List (Line N)) :
    (body named k env lines).Only P := by
  induction lines with
  | nil => trivial
  | cons line rest ih =>
    cases line with
    | imports name =>
      refine only_importing (hload name) (hset (named name)) fun answer => ?_
      cases answer with
      | ok found => exact ih
      | error cause => trivial
    | tries name => exact only_importing (hload name) (hset (named name)) fun _ => ih
    | fails => trivial
    | panics => trivial

theorem scripting (compile : String → List (Line N)) (crew : WorkerId → Prop)
    {names : String → Prop} (hnames : ∀ name, names (named name)) :
    (interpreter named compile).Scripting crew names Request.IsPrompt where
  compiling _ _ := trivial
  executing lines _ _ hk :=
    only_body named (fun name => .inl ⟨hk, hnames name⟩) (fun _ _ => .inr trivial) lines
  calling closure := nomatch (closure : Empty)

def setting (compile : String → List (Line N)) : Setting (language N) :=
  ⟨interpreter named compile, fun _ _ => False⟩

/-- A worker over one memory repository with some sources. -/
def world (N : Type) (reloading : Bool) (sources : List (String × ByteArray)) :
    World (language N) :=
  let (root, storage) := Storage.empty.createStore "app" 0
  let storage := sources.foldl (fun s source => s.writeEntry 0 "" source.1 source.2) storage
  let w : World (language N) := { World.create Files.Tree.empty 0 1 0 () with storage := storage }
  let (r, w) := w.createResolver (.repositories [root] "yx" Dictionary.empty)
    Environment.globalScope
  let (counter, w) := w.addCounter
  (w.addWorker r { WorkerConfig.defaults with reloading := reloading } counter).2

theorem rests_world (reloading : Bool) (sources : List (String × ByteArray)) :
    (world N reloading sources).Rests (· = 0) where
  row := by
    rintro k rfl
    exact Nat.one_pos
  scripted := by
    rintro k rfl
    exact ⟨Dictionary.empty, rfl, fun _ _ h => nomatch h⟩
  serializer := by
    rintro k rfl
    rfl
  mode := by
    rintro k rfl
    rfl
  stored := by
    rintro k key env rfl hget
    cases hget

end ScriptWorker.Importing
