import Hymenium.Commands.Terminal
import Hymenium.Foundations.Optimistic
import Mathlib.Data.List.Permutation

/-!
# Two commands on one workflow

`cancel`, `fail`, `complete`, `reconcile` and `resume` load the workflow outside their transaction and
then write what they decided on. `WorkflowCommand.process` splits each of them into these two steps.
Two processes whose writes are settled leave what the commands leave one after the other; a
`reconcile` that writes back an instance it loaded before a `cancel` leaves neither.
-/

namespace Hymenium

/-- A command on one stored workflow, with what it reads from outside. -/
inductive WorkflowCommand where
  | cancel (clk : Clock)
  | fail (reason : String) (clk : Clock)
  | complete (clk : Clock)
  | reconcile (canopy : CanopyClient) (forceAdvance : Bool) (files : Files) (clk : Clock)
  | resume (clk : Clock)

/-- What a command loads. -/
abbrev LoadedWorkflow := Except StoreError (Option WorkflowInstance)

namespace WorkflowCommand

variable (id : WorkflowId)

/-- The command on the workflow `id`. -/
def toCommand : WorkflowCommand → Command
  | .cancel clk => .cancel id clk
  | .fail reason clk => .fail id reason clk
  | .complete clk => .complete id clk
  | .reconcile canopy forceAdvance files clk => .reconcile id canopy forceAdvance files clk
  | .resume clk => .resume id clk

/-- The transaction of `cancel`. -/
def cancelTxn (inst : WorkflowInstance) (clk : Clock) : Txn CommandError Unit := do
  updateWorkflowStatus id .cancelled none (clk 0)
  updateCurrentPhaseIdx id inst.currentPhaseIdx (clk 1)
  recordTransition id none (some "cancelled") (some "user-requested cancellation") (clk 2)
  match ← query (·.getWorkflow id) with
  | none => throw (.notFound id)
  | some inst => emitTerminalOutcome { inst with status := .cancelled } none fun k => clk (k + 3)

/-- The transaction of `fail` and `complete`. -/
def finishTxn (finisher : Finisher) (inst : WorkflowInstance) (clk : Clock) :
    Txn CommandError Unit := do
  updateWorkflowStatus id finisher.status none (clk 2)
  updateCurrentPhaseIdx id inst.currentPhaseIdx (clk 3)
  upsertPhaseStates id inst.phaseStates 0
  match inst.currentPhase with
  | none => throw (.engine (.stateError
      s!"invariant: current_phase is None after {finisher.name}"))
  | some phase =>
    recordTransition id (some phase.phaseId) (some finisher.status.toString)
      (some finisher.reason) (clk 4)
    emitTerminalOutcome inst none fun k => clk (k + 5)

/-- The transaction of `resume`. -/
def resumeTxn (inst : WorkflowInstance) (clk : Clock) : Txn CommandError Unit := do
  updateWorkflowStatus id inst.status none (clk 1)
  match inst.currentPhase with
  | none => pure ()
  | some state => upsertPhaseState id state inst.currentPhaseIdx

/-- What `fail` and `complete` decide on. -/
def planFinish (finisher : Finisher) (clk : Clock) (inst : WorkflowInstance) :
    Option (Txn CommandError Unit) :=
  match inst.status with
  | .completed | .cancelled | .failed => none
  | _ =>
    match finisher.engine inst clk with
    | (.error _, _) => none
    | (.ok (), inst) => some (finishTxn id finisher inst clk)

/-- The transaction that a command decides on for the instance it has loaded, if any. -/
def plan : WorkflowCommand → WorkflowInstance → Option (Txn CommandError Unit)
  | .cancel clk, inst =>
    match inst.status with
    | .completed | .failed | .cancelled => none
    | _ => some (cancelTxn id inst clk)
  | .fail reason clk, inst =>
    planFinish id ⟨fun inst clk => inst.failPhase reason clk, "fail_phase", .failed, reason⟩ clk
      inst
  | .complete clk, inst =>
    planFinish id ⟨fun inst clk => inst.completeWorkflow clk, "complete_workflow", .completed,
      "workflow completed successfully"⟩ clk inst
  | .reconcile canopy forceAdvance files clk, inst =>
    match reconcilePhases inst canopy forceAdvance files clk with
    | .error _ => none
    | .ok result => some (persistReconciled id result.inst clk)
  | .resume clk, inst =>
    match inst.resumeFromUserInput clk with
    | (.error _, _) => none
    | (.ok (), inst) => some (resumeTxn id inst clk)

/-- The decision after loading: a workflow that is not found, or does not decode, is left alone. -/
def decide (cmd : WorkflowCommand) : LoadedWorkflow → Option (Txn CommandError Unit)
  | .ok (some inst) => cmd.plan id inst
  | _ => none

/-- The command as a process that loads, decides, and writes in one transaction. -/
def process (cmd : WorkflowCommand) : Optimistic.Process Db LoadedWorkflow where
  load db := db.getWorkflow id
  plan loaded := (cmd.decide id loaded).map fun txn db => (withTransaction txn db).2

variable {id}

theorem finish_eq (finisher : Finisher) (clk : Clock) (db : Db) :
    (finish finisher id clk db).2 = match db.getWorkflow id with
      | .ok (some inst) =>
        match planFinish id finisher clk inst with
        | none => db
        | some txn => (withTransaction txn db).2
      | _ => db := by
  unfold finish planFinish
  cases db.getWorkflow id with
  | error e => rfl
  | ok found =>
    cases found with
    | none => rfl
    | some inst =>
      simp only
      cases hstatus : inst.status with
      | completed => cases hout : db.getOutcome id <;> rfl
      | cancelled => cases hout : db.getOutcome id <;> rfl
      | failed => cases hout : db.getOutcome id <;> rfl
      | _ =>
        simp only
        rcases finisher.engine inst clk with ⟨result, inst'⟩
        cases result <;> rfl

/-- A process in one go, by what it finds. -/
theorem exec_eq (cmd : WorkflowCommand) (db : Db) :
    (cmd.process id).exec db = match db.getWorkflow id with
      | .ok (some inst) =>
        match cmd.plan id inst with
        | none => db
        | some txn => (withTransaction txn db).2
      | _ => db := by
  show Optimistic.commit ((cmd.decide id (db.getWorkflow id)).map _) db = _
  cases db.getWorkflow id with
  | error e => rfl
  | ok found =>
    cases found with
    | none => rfl
    | some inst =>
      show Optimistic.commit ((cmd.plan id inst).map _) db = _
      cases hplan : cmd.plan id inst <;> simp only [hplan] <;> rfl

/-- **Two steps.** In one go, the process of a command does what the command does. -/
theorem exec_eq_step (cmd : WorkflowCommand) (db : Db) :
    (cmd.process id).exec db = step db (cmd.toCommand id) := by
  rw [exec_eq]
  cases cmd with
  | fail reason clk => exact (finish_eq _ clk db).symm
  | complete clk => exact (finish_eq _ clk db).symm
  | cancel clk =>
    show _ = (Hymenium.cancel id clk db).2
    unfold Hymenium.cancel
    cases db.getWorkflow id with
    | error e => rfl
    | ok found =>
      cases found with
      | none => rfl
      | some inst =>
        simp only [plan]
        cases hstatus : inst.status <;> rfl
  | reconcile canopy forceAdvance files clk =>
    show _ = (Hymenium.reconcile id canopy forceAdvance files clk db).2
    unfold Hymenium.reconcile
    cases db.getWorkflow id with
    | error e => rfl
    | ok found =>
      cases found with
      | none => rfl
      | some inst =>
        simp only [plan]
        cases reconcilePhases inst canopy forceAdvance files clk <;> rfl
  | resume clk =>
    show _ = (Hymenium.resume id clk db).2
    unfold Hymenium.resume
    cases db.getWorkflow id with
    | error e => rfl
    | ok found =>
      cases found with
      | none => rfl
      | some inst =>
        simp only [plan]
        rcases inst.resumeFromUserInput clk with ⟨result, inst'⟩
        cases result <;> rfl

end WorkflowCommand

/-! ## Two processes -/

/-- The two processes. -/
inductive Proc where
  | first | second
  deriving DecidableEq

/-- The commands of the two processes. -/
def pairOf (a b : WorkflowCommand) : Proc → WorkflowCommand
  | .first => a
  | .second => b

/-- The processes of two commands on the workflow `id`. -/
def pairProcs (id : WorkflowId) (a b : WorkflowCommand) (i : Proc) :
    Optimistic.Process Db LoadedWorkflow := (pairOf a b i).process id

/-- The database after an interleaving of the steps of the two processes. -/
def interleave (id : WorkflowId) (a b : WorkflowCommand) (db : Db) (schedule : List Proc) : Db :=
  (Runs.run (Optimistic.step (pairProcs id a b)) (.init db) schedule).store

/-- The commands, each with a load and a write. -/
def BothRun (schedule : List Proc) : Prop :=
  schedule.Perm [.first, .first, .second, .second]

instance : DecidablePred BothRun := fun schedule =>
  inferInstanceAs (Decidable (schedule.Perm [.first, .first, .second, .second]))

/-- The workflow row, the phase rows and the outcome row are those of one of the two orders. -/
def SerialOutcome (id : WorkflowId) (a b : WorkflowCommand) (db final : Db) : Prop :=
  Tables.SameViews (runCommands db [a.toCommand id, b.toCommand id]).toTables final.toTables id ∨
    Tables.SameViews (runCommands db [b.toCommand id, a.toCommand id]).toTables final.toTables id

/-- Whenever a process writes, it would decide on the same write from the workflow stored now. -/
abbrev WritesSettled (id : WorkflowId) (a b : WorkflowCommand) (db : Db) (schedule : List Proc) :
    Prop :=
  Runs.Meets (Optimistic.step (pairProcs id a b)) (Optimistic.Settled (pairProcs id a b))
    (.init db) schedule

/-- Both processes take effect once. -/
theorem effects_pair (procs : Proc → Optimistic.Process Db LoadedWorkflow) (db : Db)
    {schedule : List Proc} (h : BothRun schedule) :
    Optimistic.effects procs (.init db) schedule = [.first, .second] ∨
      Optimistic.effects procs (.init db) schedule = [.second, .first] := by
  have hcount : ∀ i, (Optimistic.effects procs (.init db) schedule).count i = 1 := by
    intro i
    refine Optimistic.count_effects_start rfl ?_
    rw [h.count_eq]
    cases i <;> decide
  have hperm : (Optimistic.effects procs (.init db) schedule).Perm [.first, .second] := by
    rw [List.perm_iff_count]
    intro i
    rw [hcount]
    cases i <;> rfl
  exact List.perm_pair.mp hperm

/-- **Serial outcomes.** Two commands on one workflow whose writes are settled leave what they leave
one after the other. -/
theorem serialOutcome (id : WorkflowId) (a b : WorkflowCommand) (db : Db) (schedule : List Proc)
    (hrun : BothRun schedule) (hsettled : WritesSettled id a b db schedule) :
    SerialOutcome id a b db (interleave id a b db schedule) := by
  have hserial := Optimistic.run_eq_serial hsettled
  have hstep : ∀ i db, ((pairProcs id a b) i).exec db = step db ((pairOf a b i).toCommand id) :=
    fun i db => WorkflowCommand.exec_eq_step (pairOf a b i) db
  simp only [hstep] at hserial
  unfold SerialOutcome interleave
  rw [hserial]
  rcases effects_pair (pairProcs id a b) db hrun with heffects | heffects <;>
    rw [heffects]
  · exact .inl (.refl _ _)
  · exact .inr (.refl _ _)

/-- What a process would write to a store, by the instance it finds there. -/
theorem WorkflowCommand.plan_load {id : WorkflowId} {db : Db} {inst : WorkflowInstance}
    (cmd : WorkflowCommand) (h : db.getWorkflow id = .ok (some inst)) :
    (cmd.process id).plan ((cmd.process id).load db) =
      (cmd.plan id inst).map fun txn db => (withTransaction txn db).2 := by
  show (cmd.decide id (db.getWorkflow id)).map _ = _
  rw [h]
  rfl

/-- A command that is overtaken by another one is settled, if it decides on the same transaction
after that one. -/
theorem writesSettled_overtaken {id : WorkflowId} {a b : WorkflowCommand} {db : Db}
    {inst inst' : WorkflowInstance} (hload : db.getWorkflow id = .ok (some inst))
    (hload' : (step db (b.toCommand id)).getWorkflow id = .ok (some inst'))
    (hplan : a.plan id inst' = a.plan id inst) :
    WritesSettled id a b db [.first, .second, .second, .first] := by
  refine Optimistic.settled_around (i := Proc.first) (j := Proc.second) (by decide) rfl rfl ?_
  show (a.process id).plan ((a.process id).load ((b.process id).exec db)) =
    (a.process id).plan ((a.process id).load db)
  rw [WorkflowCommand.exec_eq_step, a.plan_load hload, a.plan_load hload', hplan]

/-- Every task is still open. -/
def waitingCanopy : CanopyClient := ⟨fun taskId => .ok { taskId, title := "Fix it", status := "open" }⟩

/-- A `reconcile` that has loaded a dispatched workflow. -/
def sampleReconcile : WorkflowCommand :=
  .reconcile waitingCanopy false (fun _ => true) fun k => 200 + k

def sampleCancel : WorkflowCommand := .cancel fun k => 300 + k

/-- The database after one dispatch. -/
def dispatchedDb : Db := runCommands Db.empty [.dispatch sampleDispatch]

/-- What `cancel` decides from. -/
theorem WorkflowCommand.plan_cancel_congr {id : WorkflowId} {clk : Clock}
    {inst inst' : WorkflowInstance} (hstatus : inst'.status = inst.status)
    (hidx : inst'.currentPhaseIdx = inst.currentPhaseIdx) :
    plan id (.cancel clk) inst' = plan id (.cancel clk) inst := by
  simp only [plan, cancelTxn, hstatus, hidx]

/-- The workflow is dispatched and at its first phase. -/
def AtFirstPhase (id : WorkflowId) (db : Db) : Prop :=
  (db.getWorkflow id).toOption.join.map (fun inst => (inst.status, inst.currentPhaseIdx)) =
    some (.dispatched, 0)

instance (id : WorkflowId) (db : Db) : Decidable (AtFirstPhase id db) :=
  inferInstanceAs (Decidable (_ = _))

theorem AtFirstPhase.load {id : WorkflowId} {db : Db} (h : AtFirstPhase id db) :
    ∃ inst, db.getWorkflow id = .ok (some inst) ∧ inst.status = .dispatched ∧
      inst.currentPhaseIdx = 0 := by
  unfold AtFirstPhase at h
  cases hload : db.getWorkflow id with
  | error e => simp [hload, Except.toOption] at h
  | ok found =>
    cases found with
    | none => simp [hload, Except.toOption] at h
    | some inst =>
      rw [hload] at h
      exact ⟨inst, rfl, Prod.mk.inj (Option.some.inj h)⟩

/-- A `cancel` that has loaded a dispatched workflow is overtaken by a `reconcile` that finds the
task open. It decides on the same transaction as before. -/
theorem serialOutcome_overtaken :
    SerialOutcome "wf" sampleCancel sampleReconcile dispatchedDb
      (interleave "wf" sampleCancel sampleReconcile dispatchedDb
        [.first, .second, .second, .first]) := by
  have hbefore : AtFirstPhase "wf" dispatchedDb := by decide +kernel
  have hafter : AtFirstPhase "wf" (step dispatchedDb (sampleReconcile.toCommand "wf")) := by
    decide +kernel
  obtain ⟨inst, hload, hstatus, hidx⟩ := hbefore.load
  obtain ⟨inst', hload', hstatus', hidx'⟩ := hafter.load
  exact serialOutcome "wf" sampleCancel sampleReconcile dispatchedDb _ (by decide)
    (writesSettled_overtaken hload hload' (WorkflowCommand.plan_cancel_congr
      (hstatus'.trans hstatus.symm) (hidx'.trans hidx.symm)))

/-- A `cancel` between the load and the write of a `reconcile` is undone: the workflow is dispatched,
with the outcome of a cancelled one. -/
theorem reconcile_undoes_cancel :
    let schedule := [Proc.first, .second, .second, .first]
    let final := interleave "wf" sampleReconcile sampleCancel dispatchedDb schedule
    BothRun schedule ∧ (final.workflow "wf").map (·.status) = some "dispatched" ∧
      (final.outcome "wf").isSome = true ∧
      ¬ SerialOutcome "wf" sampleReconcile sampleCancel dispatchedDb final := by
  intro schedule final
  have hfinal : (final.workflow "wf").map (·.status) = some "dispatched" := by decide +kernel
  have hfirst : ((runCommands dispatchedDb [sampleReconcile.toCommand "wf",
      sampleCancel.toCommand "wf"]).workflow "wf").map (·.status) = some "cancelled" := by
    decide +kernel
  have hsecond : ((runCommands dispatchedDb [sampleCancel.toCommand "wf",
      sampleReconcile.toCommand "wf"]).workflow "wf").map (·.status) = some "cancelled" := by
    decide +kernel
  refine ⟨by decide, hfinal, by decide +kernel, ?_⟩
  rintro (hviews | hviews)
  · rw [hviews.workflow, hfirst] at hfinal
    exact absurd (Option.some.inj hfinal) (by decide)
  · rw [hviews.workflow, hsecond] at hfinal
    exact absurd (Option.some.inj hfinal) (by decide)

end Hymenium
