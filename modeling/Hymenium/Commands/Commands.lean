import Hymenium.Dispatch.Orchestrate
import Hymenium.Dispatch.Reconcile
import Hymenium.Store.Sweeper

/-!
# The commands

The command handlers that write the store (`src/commands/`): dispatch, reconcile, cancel, fail,
complete and resume. Each loads the instance, computes, and writes in one transaction; dispatch
records its transition in a second one. What a handler prints or publishes to Canopy afterwards
does not touch the store and is left out.

`Command` lists them, together with sweeps and heartbeats, with everything they read from outside;
`step` runs one on a database. In each handler `clk k` is the `k`-th clock reading.
-/

namespace Hymenium

/-- Errors of the command handlers. -/
inductive CommandError where
  | store (e : StoreError)
  | notFound (workflowId : String)
  | alreadyTerminal (status : String)
  | engine (e : WorkflowError)
  | reconcile (e : DispatchError)
  | dispatch (e : DispatchError)
  | readFile (path source : String)
  | parse (message : String)
  | template (e : TemplateError)

/-- Store operations inside the transaction of a command. -/
instance : MonadLift (Txn StoreError) (Txn CommandError) :=
  ⟨fun body db => (body db).mapError .store⟩

/-- Run the `cancel` command. -/
def cancel (workflowId : WorkflowId) (clk : Clock) (db : Db) : Except CommandError Unit × Db :=
  match db.getWorkflow workflowId with
  | .error e => (.error (.store e), db)
  | .ok none => (.error (.notFound workflowId), db)
  | .ok (some inst) =>
    match inst.status with
    | .completed | .failed => (.error (.alreadyTerminal inst.status.toString), db)
    | .cancelled => (.ok (), db)
    | _ => withTransaction (do
        updateWorkflowStatus workflowId .cancelled none (clk 0)
        updateCurrentPhaseIdx workflowId inst.currentPhaseIdx (clk 1)
        recordTransition workflowId none (some "cancelled") (some "user-requested cancellation")
          (clk 2)
        match ← query (·.getWorkflow workflowId) with
        | none => throw (.notFound workflowId)
        | some inst =>
          emitTerminalOutcome { inst with status := .cancelled } none fun k => clk (k + 3)) db

/-- What tells `fail` and `complete` apart. -/
structure Finisher where
  /-- The engine call. -/
  engine : WorkflowInstance → Clock → Except WorkflowError Unit × WorkflowInstance
  name : String
  /-- The status the command writes, whose text is also the target of the logged transition. -/
  status : WorkflowStatus
  reason : String

/-- Finish a workflow through an engine call, and persist the outcome. A workflow in one of three
terminal statuses is left alone. The engine takes at most two clock readings. -/
def finish (finisher : Finisher) (workflowId : WorkflowId) (clk : Clock) (db : Db) :
    Except CommandError Unit × Db :=
  match db.getWorkflow workflowId with
  | .error e => (.error (.store e), db)
  | .ok none => (.error (.notFound workflowId), db)
  | .ok (some inst) =>
    match inst.status with
    | .completed | .cancelled | .failed =>
      match db.getOutcome workflowId with
      | .error e => (.error (.store e), db)
      | .ok _ => (.ok (), db)
    | _ =>
      match finisher.engine inst clk with
      | (.error e, _) => (.error (.engine e), db)
      | (.ok (), inst) => withTransaction (do
          updateWorkflowStatus workflowId finisher.status none (clk 2)
          updateCurrentPhaseIdx workflowId inst.currentPhaseIdx (clk 3)
          upsertPhaseStates workflowId inst.phaseStates 0
          match inst.currentPhase with
          | none => throw (.engine (.stateError
              s!"invariant: current_phase is None after {finisher.name}"))
          | some phase =>
            recordTransition workflowId (some phase.phaseId) (some finisher.status.toString)
              (some finisher.reason) (clk 4)
            emitTerminalOutcome inst none fun k => clk (k + 5)) db

/-- Run the `fail` command. -/
def fail (workflowId : WorkflowId) (reason : String) (clk : Clock) (db : Db) :
    Except CommandError Unit × Db :=
  finish ⟨fun inst clk => inst.failPhase reason clk, "fail_phase", .failed, reason⟩
    workflowId clk db

/-- Run the `complete` command. -/
def complete (workflowId : WorkflowId) (clk : Clock) (db : Db) : Except CommandError Unit × Db :=
  finish ⟨fun inst clk => inst.completeWorkflow clk, "complete_workflow", .completed,
    "workflow completed successfully"⟩ workflowId clk db

/-- The transaction of the `reconcile` command. -/
def persistReconciled (workflowId : WorkflowId) (inst : WorkflowInstance) (clk : Clock) :
    Txn CommandError Unit := do
  upsertPhaseStates workflowId inst.phaseStates 0
  updateWorkflowStatus workflowId inst.status none (clk 5)
  updateCurrentPhaseIdx workflowId inst.currentPhaseIdx (clk 6)

/-- Run the `reconcile` command with a Canopy client. The reconciliation takes at most five clock
readings. -/
def reconcile (workflowId : WorkflowId) (canopy : CanopyClient) (forceAdvance : Bool)
    (files : Files) (clk : Clock) (db : Db) : Except CommandError Unit × Db :=
  match db.getWorkflow workflowId with
  | .error e => (.error (.store e), db)
  | .ok none => (.error (.notFound workflowId), db)
  | .ok (some inst) =>
    match reconcilePhases inst canopy forceAdvance files clk with
    | .error e => (.error (.reconcile e), db)
    | .ok result => withTransaction (persistReconciled workflowId result.inst clk) db

/-- Resume a workflow paused at a user checkpoint. Only the current phase is written back. -/
def resume (workflowId : WorkflowId) (clk : Clock) (db : Db) : Except CommandError Unit × Db :=
  match db.getWorkflow workflowId with
  | .error e => (.error (.store e), db)
  | .ok none => (.error (.notFound workflowId), db)
  | .ok (some inst) =>
    match inst.resumeFromUserInput clk with
    | (.error e, _) => (.error (.engine e), db)
    | (.ok (), inst) => withTransaction (do
        updateWorkflowStatus workflowId inst.status none (clk 1)
        match inst.currentPhase with
        | none => pure ()
        | some state => upsertPhaseState workflowId state inst.currentPhaseIdx) db

/-- One run of the `dispatch` command: the handoff as read and parsed, the hash of its text, the
fresh workflow id and the path, and Canopy. -/
structure DispatchRequest where
  handoff : Except CommandError DispatchBrief
  contentHash : String
  workflowId : WorkflowId
  path : String
  canopy : CanopyPort
  clk : Clock

/-- Run the `dispatch` command with the built-in template. The calls to Canopy come with the
result. -/
def dispatch (request : DispatchRequest) (db : Db) :
    (Except CommandError WorkflowInstance × List CanopyCall) × Db :=
  match request.handoff with
  | .error e => ((.error e, []), db)
  | .ok brief =>
    match implAuditDefault.validate with
    | .error e => ((.error (.template e), []), db)
    | .ok () =>
      match dispatchWorkflow brief implAuditDefault request.workflowId request.path request.canopy
          (request.clk 0) with
      | (.error e, calls) => ((.error (.dispatch e), calls), db)
      | (.ok inst, calls) =>
        match withTransaction (findAndInsertWorkflowByHash inst request.contentHash) db with
        | (.error e, db) => ((.error (.store e), calls), db)
        | (.ok persisted, db) =>
          match withTransaction (recordTransition persisted.workflowId none
              (persisted.phaseStates.head?.map (·.phaseId)) (some "initial dispatch")
              (request.clk 1)) db with
          | (.error e, db) => ((.error (.store e), calls), db)
          | (.ok (), db) => ((.ok persisted, calls), db)

/-! ## Steps of the store -/

/-- A run of one command, of one sweep, or a heartbeat of a runtime. -/
inductive Command where
  | dispatch (request : DispatchRequest)
  | reconcile (workflowId : WorkflowId) (canopy : CanopyClient) (forceAdvance : Bool)
      (files : Files) (clk : Clock)
  | cancel (workflowId : WorkflowId) (clk : Clock)
  | fail (workflowId : WorkflowId) (reason : String) (clk : Clock)
  | complete (workflowId : WorkflowId) (clk : Clock)
  | resume (workflowId : WorkflowId) (clk : Clock)
  | sweep (heartbeatTimeout gcRetention : ℕ) (clk : Clock) (rows : RowOrder)
  | heartbeat (runtimeId : String) (now : DateTime)

/-- The database a command leaves behind, whatever it returned. -/
def step (db : Db) : Command → Db
  | .dispatch request => (dispatch request db).2
  | .reconcile workflowId canopy forceAdvance files clk =>
    (reconcile workflowId canopy forceAdvance files clk db).2
  | .cancel workflowId clk => (cancel workflowId clk db).2
  | .fail workflowId reason clk => (fail workflowId reason clk db).2
  | .complete workflowId clk => (complete workflowId clk db).2
  | .resume workflowId clk => (resume workflowId clk db).2
  | .sweep heartbeatTimeout gcRetention clk rows =>
    (runSweep heartbeatTimeout gcRetention clk rows db).2
  | .heartbeat runtimeId now => (upsertHeartbeat runtimeId now db).2

/-- The database a sequence of commands reaches. -/
abbrev runCommands (db : Db) (cmds : List Command) : Db := Runs.run step db cmds

end Hymenium
