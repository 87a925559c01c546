import ScriptWorker.Proofs.Evaluation
import ScriptWorker.Proofs.Loading.Importing
import ScriptWorker.Proofs.Passages.Walks

/-!
# The context is always restored

Every call of a function, load and evaluation leaves the thread as it was when the operation was
entered: the same worker is active, and of every worker the thread is inside as often and finds the
same script current. It does so whether it ends with a result, with an error or in a panic, and
however deep inside others it is. So the next operation is an outermost one just if this one was.
-/

namespace ScriptWorker

open Relation World

variable {L : Language} {α : Type} {thread : ThreadId} {others : World L → World L → Prop}

section Runs

variable {interpreter : Interpreter L} {depth : Nat} {code : Code L α} {w w' : World L} {o : Outcome α}

theorem Respects.company (h : Respects thread others) : Company thread False others :=
  ⟨h, False.elim⟩

/-- Every operation of a run is left with the context in which it was entered. -/
theorem Interpreter.every_passage_restores {log : List (Passage L)} {t : List Empty}
    (hothers : Respects thread others) (hw : w.Orderly)
    (h : (interpreter.logged thread code).Runs (Logged.Moves others)
      (interpreter.loggedComesTo thread others depth) (w, []) o (w', log) t) :
    ∀ p ∈ log, p.after.context thread = p.before.context thread := by
  have hcalls : CallsKeep (interpreter.loggedComesTo thread others depth) thread False :=
    callsKeep hothers.company False.elim depth
  have hpassed : Passed thread (False ∧ w.Ready thread none) [] (w, []) (w', log) :=
    LoggedRun.keeps_logged hothers.company hcalls False.elim _ _ _ _ h hw
  obtain ⟨new, hlog, hrestores, -⟩ := hpassed.passages
  obtain rfl : log = new := hlog
  exact hrestores

/-- Code as a whole restores the context too, and leaves the serializers in order. -/
theorem Interpreter.context_run {t : List Empty} (hothers : Respects thread others) (hw : w.Orderly)
    (h : (interpreter.run thread code).Runs others (interpreter.comesTo thread others depth)
      w o w' t) : w'.Orderly ∧ w'.context thread = w.context thread := by
  obtain ⟨log, h⟩ := (interpreter.runs_logged_iff depth code).2 h
  have hcalls : CallsKeep (interpreter.loggedComesTo thread others depth) thread False :=
    callsKeep hothers.company False.elim depth
  have hpassed : Passed thread (False ∧ w.Ready thread none) [] (w, []) (w', log) :=
    LoggedRun.keeps_logged hothers.company hcalls False.elim _ _ _ _ h hw
  exact ⟨hpassed.orderly, hpassed.context⟩

end Runs

/-! ## A run in which operations end in all ways -/

def Interpreter.playLogged (interpreter : Interpreter L) (thread : ThreadId) : (depth : Nat) →
    (callee : Callee L) → Logged L → Option (Outcome callee.Result × Logged L × List Empty)
  | 0, _ => fun _ => none
  | depth + 1, callee =>
    (interpreter.logged thread (interpreter.code callee)).evaluate (playLogged interpreter thread depth)

theorem Interpreter.loggedComesTo_of_play (interpreter : Interpreter L) (depth : Nat)
    (callee : Callee L) (a : Logged L) (o : Outcome callee.Result) (b : Logged L) (t : List Empty)
    (h : interpreter.playLogged thread depth callee a = some (o, b, t)) :
    interpreter.loggedComesTo thread others depth callee a o b t := by
  induction depth generalizing callee a o b t with
  | zero => cases h
  | succ depth ih => exact Program.runs_of_evaluate ih h

theorem Interpreter.runs_logged_of_play {interpreter : Interpreter L} {depth : Nat} {code : Code L α}
    {a b : Logged L} {o : Outcome α} {t : List Empty} (others : World L → World L → Prop)
    (h : (interpreter.logged thread code).evaluate (interpreter.playLogged thread depth) a =
      some (o, b, t)) :
    (interpreter.logged thread code).Runs (Logged.Moves others)
      (interpreter.loggedComesTo thread others depth) a o b t :=
  Program.runs_of_evaluate (interpreter.loggedComesTo_of_play depth) h

theorem respects_nobody (thread : ThreadId) : Respects thread fun _ _ : World L => False :=
  ⟨fun _ _ h => h.elim, fun _ _ h => h.elim, fun _ _ h => h.elim⟩

namespace Importing

theorem serializer_world (reloading : Bool) (sources : List (String × ByteArray)) (k : WorkerId) :
    ((world String reloading sources).worker k).serializer = .create := by
  by_cases hk : k < (world String reloading sources).workers.size
  · obtain rfl : k = 0 := Nat.lt_one_iff.1 hk
    rfl
  · rw [worker_of_size_le (Nat.le_of_not_lt hk)]
    rfl

theorem orderly_world (reloading : Bool) (sources : List (String × ByteArray)) :
    (world String reloading sources).Orderly := fun k => by
  rw [serializer_world]
  exact Serializer.orderly_create

def threeWays (source : String) : List (Line String) :=
  if source = "" then [.imports "d", .tries "b", .imports "c"]
  else if source = "b" then [.fails]
  else if source = "c" then [.panics]
  else []

def threeSources : List (String × ByteArray) :=
  [("a.yx", ByteArray.empty), ("b.yx", ⟨#[98]⟩), ("c.yx", ⟨#[99]⟩), ("d.yx", ⟨#[100]⟩)]

/-- Loads that end with a result, with an error and in a panic, the last one inside another. -/
theorem three_ways_restore : ∃ o w' log t,
    ((interpreter id threeWays).logged (.caller 0) (Code.request (.loadModule 0 none "a"))).Runs
      (Logged.Moves fun _ _ => False)
      ((interpreter id threeWays).loggedComesTo (.caller 0) (fun _ _ => False) 3)
      (world String true threeSources, []) o (w', log) t ∧
    log.map Passage.returned = [true, true, false, false] ∧
    ∀ p ∈ log, p.after.context (.caller 0) = p.before.context (.caller 0) := by
  have heval : ((((interpreter id threeWays).logged (.caller 0)
      (Code.request (.loadModule 0 none "a"))).evaluate
        ((interpreter id threeWays).playLogged (.caller 0) 3) (world String true threeSources, [])).any
      fun run => run.2.1.2.map Passage.returned = [true, true, false, false]) = true := by
    decide +kernel
  obtain ⟨⟨o, ⟨w', log⟩, t⟩, hplay, hshown⟩ := (Option.any_eq_true _ _).1 heval
  have hrun := Interpreter.runs_logged_of_play (fun _ _ => False) hplay
  exact ⟨o, w', log, t, hrun, of_decide_eq_true hshown,
    Interpreter.every_passage_restores (respects_nobody _) (orderly_world true threeSources) hrun⟩

end Importing

end ScriptWorker
