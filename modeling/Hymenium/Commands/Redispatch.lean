import Hymenium.Commands.Terminal
import Hymenium.Dispatch.Compensation

/-!
# Dispatching a handoff again

A dispatch of a handoff whose workflow is live returns that workflow and inserts nothing, as its
handler promises. By then it has created a parent task and subtasks in Canopy, and it goes on to log
another initial transition: no run reuses the live workflow in the sense of `Reuses`.
-/

namespace Hymenium

/-- The command returns the stored workflow, creates no task, and leaves the store alone. -/
structure Reuses (workflowId : WorkflowId) (db : Db) (request : DispatchRequest) : Prop where
  returned : ∃ inst, (dispatch request db).1.1 = .ok inst ∧
    db.getWorkflow workflowId = .ok (some inst)
  quiet : request.canopy.created CanopyCall.creates [] (dispatch request db).1.2 = []
  unchanged : (dispatch request db).2 = db

/-- The row of the transition a dispatch logs. -/
def initialTransition (inst : WorkflowInstance) (now : DateTime) : TransitionRow :=
  ⟨inst.workflowId, none, inst.phaseStates.head?.map (·.phaseId), .encoded now,
    some "initial dispatch"⟩

/-- What a dispatch has done when it returns an instance. -/
theorem dispatch_ok {request : DispatchRequest} {db db' : Db} {inst : WorkflowInstance}
    {calls : List CanopyCall} (h : dispatch request db = ((.ok inst, calls), db')) :
    ∃ brief fresh db₁,
      dispatchWorkflow brief implAuditDefault request.workflowId request.path request.canopy
        (request.clk 0) = (.ok fresh, calls) ∧
      (findAndInsertWorkflowByHash fresh request.contentHash).run db = .ok (inst, db₁) ∧
      db'.toTables = db₁.addTransition (initialTransition inst (request.clk 1)) := by
  unfold dispatch at h
  split at h
  · cases h
  next brief _ =>
  simp only [implAuditDefault_validate] at h
  split at h
  · cases h
  next fresh calls₁ hdispatch =>
  rcases withTransaction_cases (findAndInsertWorkflowByHash fresh request.contentHash) db with
    ⟨e, heq⟩ | ⟨persisted, db₁, hinsert, heq⟩ <;> simp only [heq] at h
  · cases h
  rcases withTransaction_cases (recordTransition persisted.workflowId none
    (persisted.phaseStates.head?.map (·.phaseId)) (some "initial dispatch") (request.clk 1)) db₁
    with ⟨e, heq'⟩ | ⟨u, db₂, hrecord, heq'⟩ <;> simp only [heq'] at h
  · cases h
  cases h
  exact ⟨brief, fresh, db₁, hdispatch, hinsert, (recordTransition_ok.mp hrecord).2⟩

/-- A dispatch of a live handoff that succeeds returns the live workflow. It has created a parent
task and a subtask for each phase, and the store has one more transition and is otherwise as it
was. -/
theorem dispatch_live {db db' : Db} {row : WorkflowRow} {request : DispatchRequest}
    {inst : WorkflowInstance} {calls : List CanopyCall} (hrow : row ∈ db.workflows)
    (hhash : row.contentHash = some request.contentHash) (hlive : row.Live)
    (h : dispatch request db = ((.ok inst, calls), db')) :
    db.getWorkflow row.workflowId = .ok (some inst) ∧
      (request.canopy.created CanopyCall.creates [] calls).length = 3 ∧
      db'.toTables = db.addTransition (initialTransition inst (request.clk 1)) := by
  obtain ⟨brief, fresh, db₁, hdispatch, hinsert, htables⟩ := dispatch_ok h
  have hstatus : fresh.status.toString ∉ terminalStatuses := by
    rw [(dispatchWorkflow_ok hdispatch).status]
    decide
  obtain ⟨hsame, hload⟩ := findAndInsertWorkflowByHash_live hrow hhash hlive hstatus hinsert
  have hdb : db₁ = db := hsame
  rw [hdb] at htables
  exact ⟨hload, created_of_dispatchWorkflow_ok hdispatch, htables⟩

/-- The database a sequence of dispatches reaches. -/
abbrev runDispatches (db : Db) (requests : List DispatchRequest) : Db :=
  Runs.run (fun db request => (dispatch request db).2) db requests

/-- Every run of the command reuses the workflow. -/
abbrev AllReuse (workflowId : WorkflowId) (db : Db) (requests : List DispatchRequest) : Prop :=
  Runs.Meets (fun db request => (dispatch request db).2) (Reuses workflowId) db requests

/-- **Dispatching again.** No sequence of dispatches of a handoff whose workflow is live reuses that
workflow. -/
theorem not_allReuse (db : Db) (row : WorkflowRow) (request : DispatchRequest)
    (requests : List DispatchRequest) (hrow : row ∈ db.workflows) (hlive : row.Live)
    (hhash : ∀ r ∈ request :: requests, row.contentHash = some r.contentHash) :
    ¬ AllReuse row.workflowId db (request :: requests) := by
  rintro ⟨⟨⟨inst, hok, -⟩, hquiet, -⟩, -⟩
  cases hout : dispatch request db with
  | mk answer db' =>
  obtain ⟨result, calls⟩ := answer
  rw [hout] at hok hquiet
  cases hok
  obtain ⟨-, hcreated, -⟩ := dispatch_live hrow (hhash request List.mem_cons_self) hlive hout
  rw [hquiet] at hcreated
  cases hcreated

/-- A second dispatch of the same handoff. -/
def sampleRedispatch : DispatchRequest := { sampleDispatch with workflowId := "wf-2", clk := fun k => 100 + k }

/-- The row that the first dispatch leaves. -/
def dispatchedRow : WorkflowRow :=
  (((runDispatches Db.empty [sampleDispatch]).workflow "wf").getD
    (.ofInstance (.new "wf" implAuditDefault "handoff.md" 0) 0 none))

/-- The second dispatch returns the first workflow, after it created three tasks, and logs a second
initial transition. -/
theorem redispatch_creates :
    let db := runDispatches Db.empty [sampleDispatch]
    db.workflows = [dispatchedRow] ∧ dispatchedRow.Live ∧
      (dispatch sampleRedispatch db).1.1.toOption.map (·.workflowId) = some "wf" ∧
      sampleRedispatch.canopy.created CanopyCall.creates [] (dispatch sampleRedispatch db).1.2 =
        ["0", "1", "2"] ∧
      db.workflowTransitions.length = 1 ∧
      (dispatch sampleRedispatch db).2.workflowTransitions.length = 2 ∧
      ¬ AllReuse "wf" db [sampleRedispatch] := by
  intro db
  have hcreated : sampleRedispatch.canopy.created CanopyCall.creates []
      (dispatch sampleRedispatch db).1.2 = ["0", "1", "2"] := by decide +kernel
  refine ⟨by decide +kernel, by decide +kernel, by decide +kernel, hcreated, by decide +kernel,
    by decide +kernel, fun ⟨h, _⟩ => ?_⟩
  have hquiet := h.quiet
  rw [hcreated] at hquiet
  cases hquiet

theorem not_allReuse_dispatched :
    ¬ AllReuse dispatchedRow.workflowId (runDispatches Db.empty [sampleDispatch])
      (sampleRedispatch :: []) :=
  not_allReuse _ dispatchedRow sampleRedispatch [] (by decide +kernel) (by decide +kernel)
    (by decide +kernel)

end Hymenium
