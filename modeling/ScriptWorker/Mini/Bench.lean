import ScriptWorker.Mini.Expression
import ScriptWorker.World

/-!
# The bench that small scripts run on

What the host of the small language keeps: a log, the tables through which scripts name things,
latches to wait at, and how many calls are at work.
-/

namespace ScriptWorker.Mini

inductive LogEntry where
  | compiled (path : String)
  | ran (path : String)
  | value (v : Value)
  | edge (unit dependency : String)
  | note (text : String)
  | cancelled (done : Bool)

structure Bench where
  log : List LogEntry
  /-- Environments in the order of their first mention. -/
  environments : List EnvironmentId
  tasks : List TaskId
  repositories : List Repository
  loops : List LoopId
  latches : List String
  counts : Dictionary String Nat
  /-- Calls at work now, and most of them at one time. -/
  working : Nat
  peak : Nat
  /-- Units made by hand, the latest first, with their resolvers. -/
  definitions : List (ResolverId × UnitDefinition × UnitId)

namespace Bench

def empty : Bench := ⟨[], [], [], [], [], [], Dictionary.empty, 0, 0, []⟩

def mention (b : Bench) (env : EnvironmentId) : Nat × Bench :=
  match b.environments.idxOf? env with
  | some place => (place, b)
  | none => (b.environments.length, { b with environments := b.environments ++ [env] })

mutual

def mentionIn (b : Bench) : Value → Bench
  | .scope env _ => (b.mention env).2
  | .list items => b.mentionAll items
  | .wrapped _ inner => b.mentionIn inner
  | _ => b

def mentionAll (b : Bench) : List Value → Bench
  | [] => b
  | v :: vs => (b.mentionIn v).mentionAll vs

end

def addLog (b : Bench) (entry : LogEntry) : Bench :=
  let b := match entry with
    | .value v => b.mentionIn v
    | _ => b
  { b with log := b.log ++ [entry] }

def takeLog (b : Bench) : List LogEntry × Bench := (b.log, { b with log := [] })

def countOf (b : Bench) (counter : String) : Nat := (b.counts.get? counter).getD 0

def count (b : Bench) (counter : String) : Bench :=
  { b with counts := b.counts.insert counter (b.countOf counter + 1) }

def addTask (b : Bench) (t : TaskId) : Bench := { b with tasks := b.tasks ++ [t] }

def addRepository (b : Bench) (r : Repository) : Bench :=
  { b with repositories := b.repositories ++ [r] }

def addLoop (b : Bench) (l : LoopId) : Bench := { b with loops := b.loops ++ [l] }

def startWork (b : Bench) : Bench :=
  { b with working := b.working + 1, peak := max b.peak (b.working + 1) }

def endWork (b : Bench) : Bench := { b with working := b.working - 1 }

def openLatch (b : Bench) (latch : String) : Bench := { b with latches := latch :: b.latches }

def definition? (b : Bench) (r : ResolverId) (name : String) : Option UnitId :=
  (b.definitions.find? fun d => d.1 = r && d.2.1.name = name).map fun d => d.2.2

end Bench

structure Notice where
  threadName : String
  bench : Bench

abbrev language : Language where
  Body := String × List Statement
  Closure := Expression
  Job := Firings
  UnitSpec := UnitDefinition
  ResolverSpec := ResolverId
  Effect := Bench → Option Bench
  Notice := Notice
  State := Bench

end ScriptWorker.Mini
