import ScriptWorker.Proofs.Runs
import ScriptWorker.Proofs.Scheduling.Workers

/-!
# Programs on event loops

The programs that schedule, cancel, count, stop and serve take the steps of operations, of uses of a
slot and of a loop's thread, each as an atomic step on the shared scheduler, and end with the replies of
these. So what threads do on a loop, and for workers, is what the library runs.
-/

namespace ScriptWorker

open Relation

variable {L : Language} {α : Type} {returns : (callee : Callee L) → Outcome callee.Result → Prop}
  {w w' : World L} {p : Run L α}

/-- What one step of an operation leaves of the world: the operation goes on, ends or panics. -/
theorem World.afterStage_cases {σ ρ : Type} {progress : Progress σ ρ}
    (h : w.afterStage progress = some w') : ∃ s, w' = w.withScheduler s ∧
      ((∃ y, progress = .next s y) ∨ (∃ reply, progress = .finished s reply) ∨
        ∃ text, progress = .panicked s text) := by
  cases progress with
  | blocked => cases h
  | next s y => exact ⟨s, (Option.some.inj h).symm, .inl ⟨y, rfl⟩⟩
  | finished s reply => exact ⟨s, (Option.some.inj h).symm, .inr (.inl ⟨reply, rfl⟩)⟩
  | panicked s text => exact ⟨s, (Option.some.inj h).symm, .inr (.inr ⟨text, rfl⟩)⟩

section

variable {σ ρ : Type} [Staged σ ρ] {x : σ} {f : ρ → Run L α}

def Progress.rest (f : ρ → Run L α) : Progress σ ρ → Run L α
  | blocked => .panic none
  | next _ y => perform y >>= f
  | finished _ reply => f reply
  | panicked _ text => .panic (some text)

theorem perform_bind_eq (x : σ) (f : ρ → Run L α) : perform x >>= f =
    .step (fun w => w.afterStage (Staged.advance w.scheduler x)) fun w =>
      (Staged.advance w.scheduler x).rest f := by
  rw [perform]
  refine congrArg (Program.step _) (funext fun w => ?_)
  dsimp only
  split <;> rename_i h <;> rw [h] <;> rfl

/-- An operation's program takes the operation's next step, which changes the scheduler alone. -/
theorem takes_perform_bind : (perform x >>= f).Takes returns w p w' ↔
    w.afterStage (Staged.advance w.scheduler x) = some w' ∧
      p = (Staged.advance w.scheduler x).rest f := by
  rw [perform_bind_eq, Program.takes_step]

theorem takes_perform_cases (h : (perform x >>= f).Takes returns w p w') : ∃ s, w' = w.withScheduler s ∧
    ((∃ y, Staged.advance w.scheduler x = .next s y ∧ p = perform y >>= f) ∨
      (∃ reply, Staged.advance w.scheduler x = .finished s reply ∧ p = f reply) ∨
      ∃ text, Staged.advance w.scheduler x = .panicked s text ∧ p = .panic (some text)) := by
  obtain ⟨hmove, rfl⟩ := takes_perform_bind.1 h
  obtain ⟨s, hs, ⟨y, hadvance⟩ | ⟨reply, hadvance⟩ | ⟨text, hadvance⟩⟩ := World.afterStage_cases hmove
  · exact ⟨s, hs, .inl ⟨y, hadvance, by rw [hadvance]; rfl⟩⟩
  · exact ⟨s, hs, .inr (.inl ⟨reply, hadvance, by rw [hadvance]; rfl⟩)⟩
  · exact ⟨s, hs, .inr (.inr ⟨text, hadvance, by rw [hadvance]; rfl⟩)⟩

end

namespace Scheduling

/-! ## Operations -/

section

variable {σ ρ τ : Type} [Staged σ ρ] {r : σ → τ} {g : τ → Run L α} {say : ρ → α}

/-- What is left of a program after a step of what it does: the rest of that, or its reply. -/
def Left (program : τ → Run L α) (reply : Option α) : Option τ → Run L α → Prop
  | some next, p => p = program next
  | none, p =>
    match reply with
    | some a => p = pure a
    | none => ∃ payload, p = .panic payload

theorem left_of_takes (hg : ∀ y, g (r y) = perform y >>= fun reply => pure (say reply))
    {x : σ} (h : (g (r x)).Takes returns w p w') :
    ∃ s next, afterStep r (Staged.advance w.scheduler x) = some (s, next) ∧
      w' = w.withScheduler s ∧ Left g ((Staged.advance w.scheduler x).reply?.map say) next p := by
  rw [hg] at h
  obtain ⟨s, hs, ⟨y, hadvance, rfl⟩ | ⟨reply, hadvance, rfl⟩ | ⟨text, hadvance, rfl⟩⟩ :=
    takes_perform_cases h
  all_goals rw [hadvance]
  · exact ⟨s, some (r y), rfl, hs, (hg y).symm⟩
  · exact ⟨s, none, rfl, hs, rfl⟩
  · exact ⟨s, none, rfl, hs, some text, rfl⟩

theorem exists_takes (hg : ∀ y, g (r y) = perform y >>= fun reply => pure (say reply))
    {x : σ} {s : Scheduler} {next : Option τ}
    (h : afterStep r (Staged.advance w.scheduler x) = some (s, next)) :
    ∃ p, (g (r x)).Takes returns w p (w.withScheduler s) := by
  refine ⟨(Staged.advance w.scheduler x).rest fun reply => pure (say reply), ?_⟩
  rw [hg, takes_perform_bind]
  refine ⟨?_, rfl⟩
  cases hadvance : Staged.advance w.scheduler x <;> rw [hadvance] at h <;> cases h <;> rfl

end

namespace Operation

def program : Operation → Run L Reply
  | enqueue stage => return .handle (← perform stage)
  | cancel task stage => return .cancelled task (← perform stage)
  | shutdown stage => return .dropped (← perform stage)

/-- The program of an operation takes its steps, and ends with its reply. -/
theorem left_of_takes_program {op : Operation} {p : Run L Reply} (h : op.program.Takes returns w p w') :
    ∃ s next, op.advance w.scheduler = some (s, next) ∧ w' = w.withScheduler s ∧
      Left program (op.reply? w.scheduler) next p := by
  cases op with
  | enqueue stage => exact left_of_takes (g := program) (fun _ => rfl) h
  | cancel task stage => exact left_of_takes (g := program) (fun _ => rfl) h
  | shutdown stage => exact left_of_takes (g := program) (fun _ => rfl) h

theorem exists_takes_program {op : Operation} {s : Scheduler} {next : Option Operation}
    (h : op.advance w.scheduler = some (s, next)) :
    ∃ p : Run L Reply, op.program.Takes returns w p (w.withScheduler s) := by
  cases op with
  | enqueue stage => exact exists_takes (g := program) (fun _ => rfl) h
  | cancel task stage => exact exists_takes (g := program) (fun _ => rfl) h
  | shutdown stage => exact exists_takes (g := program) (fun _ => rfl) h

end Operation

section Calls

variable {l : LoopId} {t : TaskId}

theorem schedule_eq_operation (job : L.Job) (kind : TaskKind) (delay : Duration) :
    (do return (← EventLoop.schedule l job kind delay).map Reply.handle : Run L (Answer Reply)) =
      if kind.lacksInterval then return .error (.invalidArgument noIntervalText) else do
        let j ← Program.transact fun w => w.addJob (.custom job)
        return .ok (← ((Call.enqueue kind delay j).operation l).program) := by
  unfold EventLoop.schedule
  split
  · rfl
  · simp only [Call.operation, Operation.program, bind_assoc, pure_bind, Except.map]

theorem cancel_eq_operation : (do return .cancelled t (← EventLoop.cancel l t) : Run L Reply) =
    (Program.read fun w => (w.scheduler.loop? l).map EventLoop.counter) >>= fun counter =>
      ((Call.cancel t (counter.getD 0)).operation l).program := by
  simp only [EventLoop.cancel, Call.operation, Operation.program, bind_assoc]

theorem workerCancel_eq_operation (k : WorkerId) (l : LoopId) :
    (do return .cancelled t (← Worker.cancel k t) : Run L Reply) =
      (Program.read fun w => w.workerCounter k) >>= fun counter =>
        ((Call.cancel t counter).operation l).program := by
  simp only [Worker.cancel, Call.operation, Operation.program, bind_assoc]

theorem shutdown_eq_operation : (do return .dropped (← EventLoop.shutdown l) : Run L Reply) =
    (Call.shutdown.operation l).program := rfl

end Calls

theorem takes_await {f : World L → Option (α × World L)} : (Program.await f).Takes returns w p w' ↔
    ∃ a, f w = some (a, w') ∧ p = pure a := by
  rw [Program.await, Program.takes_step]
  cases f w with
  | none => simp
  | some found => simp [Prod.ext_iff]

theorem takes_join {t : TaskId} {p : Run L (Answer Value)} : (Task.join t).Takes returns w p w' ↔
    ∃ answer, w.outcome t = some answer ∧ w' = w ∧ p = pure answer := by
  unfold Task.join
  rw [takes_await]
  constructor
  · rintro ⟨answer, hfound, rfl⟩
    obtain ⟨answer', houtcome, heq⟩ := Option.map_eq_some_iff.1 hfound
    cases heq
    exact ⟨answer, houtcome, rfl, rfl⟩
  · rintro ⟨answer, houtcome, rfl, rfl⟩
    exact ⟨answer, by rw [houtcome]; rfl, rfl⟩

/-- What the programs that cancel a task and wait for it return: they take the steps of operations, whose
replies they end with, and a join ends with the outcome. -/
structure Returns (L : Language) (l : LoopId) (t : TaskId) : Prop where
  cancels : (do return .cancelled t (← EventLoop.cancel l t) : Run L Reply) =
    (Program.read fun w => (w.scheduler.loop? l).map EventLoop.counter) >>= fun counter =>
      ((Call.cancel t (counter.getD 0)).operation l).program
  workerCancels : ∀ k, (do return .cancelled t (← Worker.cancel k t) : Run L Reply) =
    (Program.read fun w => w.workerCounter k) >>= fun counter =>
      ((Call.cancel t counter).operation l).program
  operations : ∀ {returns : (callee : Callee L) → Outcome callee.Result → Prop} {w w' : World L}
    {op : Operation} {p : Run L Reply}, op.program.Takes returns w p w' → ∃ s next,
      op.advance w.scheduler = some (s, next) ∧ w' = w.withScheduler s ∧
        Left Operation.program (op.reply? w.scheduler) next p
  joins : ∀ {returns : (callee : Callee L) → Outcome callee.Result → Prop} {w w' : World L}
    {p : Run L (Answer Value)}, (Task.join t).Takes returns w p w' ↔
      ∃ answer, w.outcome t = some answer ∧ w' = w ∧ p = pure answer

theorem programs_return (L : Language) (l : LoopId) (t : TaskId) : Returns L l t :=
  ⟨cancel_eq_operation, fun k => workerCancel_eq_operation k l, Operation.left_of_takes_program, takes_join⟩

/-! ## Uses of a slot -/

namespace Undertaking

def program : Undertaking → Run L (SlotReply ⊕ Bool)
  | slot _ stage => return .inl (← perform stage)
  | cancel _ _ _ stage => return .inr (← perform stage)

def reply? (s : Scheduler) : Undertaking → Option (SlotReply ⊕ Bool)
  | slot _ stage => (stage.advance s).reply?.map .inl
  | cancel _ _ _ stage => (stage.advance s).reply?.map .inr

theorem left_of_takes_program {u : Undertaking} {p : Run L (SlotReply ⊕ Bool)}
    (h : u.program.Takes returns w p w') : ∃ s next, u.advance w.scheduler = some (s, next) ∧
      w' = w.withScheduler s ∧ Left program (u.reply? w.scheduler) next p := by
  cases u with
  | slot loop stage =>
    exact left_of_takes (r := fun next : SlotStage => slot (next.loopAfter loop) next) (g := program)
      (fun _ => rfl) h
  | cancel k l t stage =>
    exact left_of_takes (r := cancel k l t) (g := program) (fun _ => rfl) h

theorem exists_takes_program {u : Undertaking} {s : Scheduler} {next : Option Undertaking}
    (h : u.advance w.scheduler = some (s, next)) :
    ∃ p : Run L (SlotReply ⊕ Bool), u.program.Takes returns w p (w.withScheduler s) := by
  cases u with
  | slot loop stage =>
    exact exists_takes (r := fun next : SlotStage => slot (next.loopAfter loop) next) (g := program)
      (fun _ => rfl) h
  | cancel k l t stage => exact exists_takes (g := program) (fun _ => rfl) h

end Undertaking

section Workers

variable {k : WorkerId} {t : TaskId}

theorem workerSchedule_eq_undertaking (module : ModuleRef) (function : FunctionRef) (args : List Value)
    (timing : Timing) : (Worker.schedule k module function args timing : Run L (Answer TaskId)) =
      (Program.transact fun w => w.addJob (.invocation k module function args)) >>= fun job =>
        Sum.elim SlotReply.answered (fun _ => .error (.invalidArgument noIntervalText)) <$>
          (Undertaking.slot none (.acquire k (.enqueue (Worker.taskOf timing).1
            (Worker.taskOf timing).2 job))).program := by
  simp only [Worker.schedule, Undertaking.program, map_eq_pure_bind, bind_assoc, pure_bind, Sum.elim_inl]

theorem workerCancel_eq_undertaking (l : LoopId) : (Worker.cancel k t : Run L Bool) =
    (Program.read fun w => w.workerCounter k) >>= fun counter =>
      Sum.elim (fun _ => false) id <$>
        (Undertaking.cancel k l t (.swapPending t counter)).program := by
  simp only [Worker.cancel, Undertaking.program, map_eq_pure_bind, bind_assoc, pure_bind, Sum.elim_inr,
    id_eq, bind_pure]

theorem terminate_eq_undertaking : (Worker.terminate k : Run L Nat) =
    Sum.elim SlotReply.count Bool.toNat <$>
      (Undertaking.slot none (.acquire k .terminate)).program := by
  simp only [Worker.terminate, Undertaking.program, map_eq_pure_bind, bind_assoc, pure_bind, Sum.elim_inl]

theorem countScheduled_eq_undertaking : (Worker.countScheduled k : Run L Nat) =
    Sum.elim SlotReply.count Bool.toNat <$>
      (Undertaking.slot none (.acquire k .count)).program := by
  simp only [Worker.countScheduled, Undertaking.program, map_eq_pure_bind, bind_assoc, pure_bind,
    Sum.elim_inl]

end Workers

/-! ## The thread of a loop -/

namespace Service

variable {l : LoopId} {result : Outcome (Answer Value)}

def program (l : LoopId) (result : Outcome (Answer Value)) : Service → Run L (Option Serve)
  | serving stage => EventLoop.round l stage
  | starting stage => do
    match ← perform stage with
    | some number => EventLoop.runTask l stage.task number
    | none => pure ()
    return some (.poll l)
  | firing t => do
    let stage ← Program.read fun w => EventLoop.conclusion w.scheduler t result
    perform stage
    return some (.poll l)
  | concluding stage => do
    perform stage
    return some (.poll l)
  | stopped => return none

/-- What is left of a round when the thread has come so far: at a stage of the wait for a task the next
round begins. -/
def Leaves (l : LoopId) (p : Run L (Option Serve)) : Service → Prop
  | serving stage => p = pure (some stage)
  | firing t => ∃ number, p = do
    EventLoop.runTask l t number
    return some (.poll l)
  | stopped => p = pure none ∨ ∃ payload, p = .panic payload
  | service => ∀ result, p = service.program l result

theorem task_of_next {stage next : Start} {s s' : Scheduler} (h : stage.advance s = .next s' next) :
    next.task = stage.task := by
  cases stage with
  | swap t =>
    simp only [Start.advance] at h
    split at h <;> cases h
    rfl
  | count t => cases h

theorem left_of_takes_round {stage : Serve} {p : Run L (Option Serve)}
    (h : (EventLoop.round l stage).Takes returns w p w') : ∃ s next,
      (serving stage).advance l result w.scheduler = some (s, next) ∧ w' = w.withScheduler s ∧
        next.Leaves l p := by
  obtain ⟨hmove, rfl⟩ := Program.takes_step.1 h
  obtain ⟨s, hs, ⟨y, hadvance⟩ | ⟨found, hadvance⟩ | ⟨text, hadvance⟩⟩ := World.afterStage_cases hmove
  all_goals simp only [advance, hadvance]
  · exact ⟨s, _, rfl, hs, rfl⟩
  · cases found with
    | none => exact ⟨s, _, rfl, hs, .inl rfl⟩
    | some t =>
      refine ⟨s, _, rfl, hs, fun _ => ?_⟩
      change EventLoop.fire l t >>= _ = _
      simp only [EventLoop.fire, program, bind_assoc]
      exact congrArg (perform (Start.swap t) >>= ·) (funext fun found => by cases found <;> rfl)
  · exact ⟨s, _, rfl, hs, .inr ⟨some text, rfl⟩⟩

/-- A round of a loop's thread takes the steps of the thread. -/
theorem left_of_takes_program {service : Service} {p : Run L (Option Serve)}
    (h : (service.program l result).Takes returns w p w') : ∃ s next,
      service.advance l result w.scheduler = some (s, next) ∧ w' = w.withScheduler s ∧
        next.Leaves l p := by
  cases service with
  | serving stage => exact left_of_takes_round h
  | starting stage =>
    obtain ⟨s, hs, ⟨y, hadvance, rfl⟩ | ⟨found, hadvance, rfl⟩ | ⟨text, hadvance, rfl⟩⟩ :=
      takes_perform_cases h
    all_goals
      replace hadvance : stage.advance w.scheduler = _ := hadvance
      simp only [advance, hadvance]
    · refine ⟨s, _, rfl, hs, fun _ => ?_⟩
      simp only [program, task_of_next hadvance]
    · cases found with
      | none => exact ⟨s, _, rfl, hs, rfl⟩
      | some number => exact ⟨s, _, rfl, hs, number, rfl⟩
    · exact ⟨s, _, rfl, hs, .inr ⟨some text, rfl⟩⟩
  | firing t =>
    obtain ⟨hmove, rfl⟩ := Program.takes_step.1 h
    exact ⟨w.scheduler, _, rfl, (Option.some.inj hmove).symm, fun _ => rfl⟩
  | concluding stage =>
    obtain ⟨s, hs, ⟨y, hadvance, rfl⟩ | ⟨reply, hadvance, rfl⟩ | ⟨text, hadvance, rfl⟩⟩ :=
      takes_perform_cases h
    all_goals
      replace hadvance : stage.advance w.scheduler = _ := hadvance
      simp only [advance, hadvance]
    · exact ⟨s, _, rfl, hs, fun _ => rfl⟩
    · exact ⟨s, _, rfl, hs, rfl⟩
    · exact ⟨s, _, rfl, hs, .inr ⟨some text, rfl⟩⟩
  | stopped => cases h

/-- Between its start and its end a firing runs the job of its task. -/
theorem runTask_eq (l : LoopId) (t : TaskId) (number : Nat) :
    (do
      EventLoop.runTask l t number
      return some (.poll l) : Run L (Option Serve)) =
    (do
      match ← Program.read fun w => w.jobOf t with
      | none => return some (.poll l)
      | some job => (runJob (.service l) job number).caught >>= fun result => (firing t).program l result) := by
  unfold EventLoop.runTask
  rw [bind_assoc]
  refine congrArg (_ >>= ·) (funext fun found => ?_)
  cases found with
  | none => rfl
  | some job => simp only [program, bind_assoc]

end Service

end Scheduling

end ScriptWorker
