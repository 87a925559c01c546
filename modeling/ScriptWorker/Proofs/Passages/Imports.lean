import ScriptWorker.Proofs.Passages.Restored

/-!
# Edges are the imports made

The keys that a script has recorded as its dependencies are those of the units that were loaded or
evaluated while the script was the current one, as far as these operations came back: each key once, in
the order in which the first of them did, and never the script's own. What becomes of the import is of
no account, nor how deep it is nested. A name that stands for no unit leaves no edge.
-/

namespace ScriptWorker

open Relation World

variable {L : Language} {α : Type}

section Runs

variable {interpreter : Interpreter L} {thread : ThreadId} {others : World L → World L → Prop}
  {depth : Nat} {code : Code L α} {w w' : World L} {o : Outcome α} {log : List (Passage L)}
  {t : List Empty}

/-- The dependencies of a script after a run are those from before and what it has imported. -/
theorem Interpreter.dependencies_are_imports (hothers : Respects thread others)
    (hunits : ∀ w w', others w w' → w'.units = w.units)
    (hrecords : ∀ callee, (interpreter.code callee).Only (Request.RecordsOnly callee.unit?))
    (hcode : code.Only (Request.RecordsOnly none)) (hw : w.Orderly) (hgrounded : w.Grounded thread)
    (h : (interpreter.logged thread code).Runs (Logged.Moves others)
      (interpreter.loggedComesTo thread others depth) (w, []) o (w', log) t)
    {u : UnitId} {unit : ExecutableUnit L} {resource : Resource} {compiled : Option (L.Body × UInt64)}
    (hunit : w'.units.get? u = some unit) (hscript : unit.source = .script resource compiled) :
    unit.dependencies.keys = (w.dependencyKeys u ++
      (Import.keysOf u (Passage.imports thread log)).filter (· ≠ unit.key)).eraseDups := by
  have hcompany : Company thread True others := ⟨hothers, fun _ => hunits⟩
  have hcalls := callsKeep hcompany (fun _ => hrecords) depth
  have hpassed : Passed thread (True ∧ w.Ready thread none) [] (w, []) (w', log) :=
    LoggedRun.keeps_logged hcompany hcalls (fun _ => hcode) _ _ _ _ h hw
  obtain ⟨new, hlog, -, hgains⟩ := hpassed.passages
  obtain rfl : log = new := hlog
  have hedges := (hgains ⟨trivial, hgrounded, nofun⟩).edges u fun ⟨unit', spec, version, hunit', hsource⟩ => by
    rw [hunit] at hunit'
    cases hunit'
    rw [hscript] at hsource
    cases hsource
  have hkeys : w'.dependencyKeys u = unit.dependencies.keys := by rw [dependencyKeys, hunit]
  have hkey : w'.unitKey u = unit.key := by rw [unitKey, hunit]
  change w'.dependencyKeys u = _ at hedges
  rw [hkeys, hkey, List.append_nil, withImports_eq (w.nodup_dependencyKeys u)] at hedges
  exact hedges

end Runs

namespace Importing

theorem grounded_world (reloading : Bool) (sources : List (String × ByteArray)) (thread : ThreadId) :
    (world String reloading sources).Grounded thread := by
  intro k u hu
  change ((world String reloading sources).worker k).serializer.currentOf thread = some u at hu
  rw [serializer_world] at hu
  cases hu

theorem records_nothing (compile : String → List (Line String))
    (callee : Callee (language String)) :
    ((interpreter id compile).code callee).Only (Request.RecordsOnly callee.unit?) := by
  cases callee with
  | compile path source => trivial
  | execute lines k env => exact only_body id (fun _ => nofun) (fun _ _ => nofun) lines
  | call closure => exact nomatch (closure : Empty)
  | load spec => exact nomatch (spec : Empty)
  | evaluate spec => exact nomatch (spec : Empty)
  | depend spec => exact nomatch (spec : Empty)
  | resolve spec => exact nomatch (spec : Empty)
  | job job => exact nomatch (job : Empty)

/-- A module that imports one that is filled, one that fails, the first again, itself, and one that is
not there. -/
def oneEdgeEach (source : String) : List (Line String) :=
  if source = "" then [.imports "d", .tries "b", .imports "d", .tries "a", .tries "e"]
  else if source = "b" then [.fails]
  else []

def twoEdges (run : Outcome (Answer EnvironmentId) × Logged (language String) × List Empty) : Bool :=
  match run.2.1.1.units.get? 0 with
  | some ⟨_, _, .script _ _, dependencies⟩ =>
    dependencies.keys = ["memory:app/d.yx", "memory:app/b.yx"] &&
    Import.keysOf 0 (Passage.imports (.caller 0) run.2.1.2) =
      ["memory:app/d.yx", "memory:app/b.yx", "memory:app/d.yx", "memory:app/a.yx"]
  | _ => false

/-- Two edges come of five imports. -/
theorem two_edges_of_five_imports : ∃ o w' log t unit,
    ((interpreter id oneEdgeEach).logged (.caller 0) (Code.request (.loadModule 0 none "a"))).Runs
      (Logged.Moves fun _ _ => False)
      ((interpreter id oneEdgeEach).loggedComesTo (.caller 0) (fun _ _ => False) 3)
      (world String true threeSources, []) o (w', log) t ∧
    w'.units.get? 0 = some unit ∧
    unit.dependencies.keys = (World.dependencyKeys (world String true threeSources) 0 ++
      (Import.keysOf 0 (Passage.imports (.caller 0) log)).filter (· ≠ unit.key)).eraseDups ∧
    Import.keysOf 0 (Passage.imports (.caller 0) log) =
      ["memory:app/d.yx", "memory:app/b.yx", "memory:app/d.yx", "memory:app/a.yx"] ∧
    unit.dependencies.keys = ["memory:app/d.yx", "memory:app/b.yx"] := by
  have heval : ((((interpreter id oneEdgeEach).logged (.caller 0)
      (Code.request (.loadModule 0 none "a"))).evaluate
        ((interpreter id oneEdgeEach).playLogged (.caller 0) 3)
        (world String true threeSources, [])).any twoEdges) = true := by decide +kernel
  obtain ⟨⟨o, ⟨w', log⟩, t⟩, hplay, hshown⟩ := (Option.any_eq_true _ _).1 heval
  have hrun := Interpreter.runs_logged_of_play (fun _ _ => False) hplay
  unfold twoEdges at hshown
  split at hshown
  case h_2 => cases hshown
  case h_1 key name resource compiled dependencies hunit =>
  simp only [Bool.and_eq_true, decide_eq_true_eq] at hshown
  have hcode : (Code.request (.loadModule 0 none "a") : Code (language String) _).Only
      (Request.RecordsOnly none) := ⟨nofun, fun _ => trivial⟩
  refine ⟨o, w', log, t, _, hrun, hunit, ?_, hshown.2, hshown.1⟩
  exact Interpreter.dependencies_are_imports (respects_nobody _) (fun _ _ h => h.elim)
    (records_nothing oneEdgeEach) hcode (orderly_world true threeSources)
    (grounded_world true threeSources _) hrun hunit rfl

end Importing

end ScriptWorker
