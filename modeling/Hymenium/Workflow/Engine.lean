import Hymenium.Workflow.Gate
import Mathlib.Algebra.Ring.Nat
import Mathlib.Data.Int.Notation

/-!
# The workflow state machine

`WorkflowInstance` and its operations (`src/workflow/engine.rs`). An operation takes the instance
and returns its result together with the instance it leaves behind: a refused operation can still
have written `blockedOn`.

The wall clock is an argument. `clk k` is the `k`-th reading one call makes, in the order of the
calls to `Utc::now()` in the source.
-/

namespace Hymenium

/-- Nanoseconds since the epoch, UTC. -/
abbrev DateTime := ℤ

/-- The clock readings of one call, in order. -/
abbrev Clock := ℕ → DateTime

inductive WorkflowError where
  | invalidPhaseIndex (idx : ℕ)
  | gateFailed (phaseId reason : String)
  | alreadyAtFinalPhase
  | stateError (msg : String)
  deriving DecidableEq

/-- `Display` of a workflow error. -/
def WorkflowError.toString : WorkflowError → String
  | .invalidPhaseIndex idx => s!"invalid phase index: {idx}"
  | .gateFailed phaseId reason => s!"phase {phaseId} gate evaluation failed: {reason}"
  | .alreadyAtFinalPhase => "already at final phase — call complete_workflow() to finish"
  | .stateError msg => s!"workflow state error: {msg}"

/-- Status of a running workflow. -/
inductive WorkflowStatus where
  | pending | dispatched | inProgress | blockedOnGate | awaitingRepair | awaitingUserInput
  | userTerminated | completed | failed | cancelled
  deriving DecidableEq

/-- `Display` of a workflow status, which is also its stored form. -/
def WorkflowStatus.toString : WorkflowStatus → String
  | .pending => "pending"
  | .dispatched => "dispatched"
  | .inProgress => "in_progress"
  | .blockedOnGate => "blocked_on_gate"
  | .awaitingRepair => "awaiting_repair"
  | .awaitingUserInput => "awaiting_user_input"
  | .userTerminated => "user_terminated"
  | .completed => "completed"
  | .failed => "failed"
  | .cancelled => "cancelled"

/-- `Debug` of a workflow status. -/
def WorkflowStatus.debug : WorkflowStatus → String
  | .pending => "Pending"
  | .dispatched => "Dispatched"
  | .inProgress => "InProgress"
  | .blockedOnGate => "BlockedOnGate"
  | .awaitingRepair => "AwaitingRepair"
  | .awaitingUserInput => "AwaitingUserInput"
  | .userTerminated => "UserTerminated"
  | .completed => "Completed"
  | .failed => "Failed"
  | .cancelled => "Cancelled"

/-- Status of a single phase within a workflow instance. -/
inductive PhaseStatus where
  | pending | active | awaitingUserInput | completed | failed | skipped
  deriving DecidableEq

/-- `Display` of a phase status, which is also its stored form. -/
def PhaseStatus.toString : PhaseStatus → String
  | .pending => "pending"
  | .active => "active"
  | .awaitingUserInput => "awaiting_user_input"
  | .completed => "completed"
  | .failed => "failed"
  | .skipped => "skipped"

/-- `Debug` of a phase status. -/
def PhaseStatus.debug : PhaseStatus → String
  | .pending => "Pending"
  | .active => "Active"
  | .awaitingUserInput => "AwaitingUserInput"
  | .completed => "Completed"
  | .failed => "Failed"
  | .skipped => "Skipped"

/-- State of a single phase in a workflow instance. -/
structure PhaseState where
  phaseId : String
  role : AgentRole
  status : PhaseStatus
  agentId : Option String
  canopyTaskId : Option String
  startedAt : Option DateTime
  completedAt : Option DateTime
  failureReason : Option String
  pendingMessage : Option String
  retryCount : UInt32
  toolFailureCount : UInt32
  requestCount : UInt32
  deriving DecidableEq

namespace PhaseState

/-- A new pending phase state. -/
def new (phaseId : String) (role : AgentRole) : PhaseState where
  phaseId := phaseId
  role := role
  status := .pending
  agentId := none
  canopyTaskId := none
  startedAt := none
  completedAt := none
  failureReason := none
  pendingMessage := none
  retryCount := 0
  toolFailureCount := 0
  requestCount := 0

/-- Mark this phase as active with the current timestamp. -/
def markActive (now : DateTime) (phase : PhaseState) : PhaseState :=
  { phase with status := .active, startedAt := some now }

/-- Mark this phase as completed with the current timestamp. -/
def markCompleted (now : DateTime) (phase : PhaseState) : PhaseState :=
  { phase with status := .completed, completedAt := some now }

/-- Mark this phase as failed with the current timestamp. -/
def markFailed (now : DateTime) (phase : PhaseState) : PhaseState :=
  { phase with status := .failed, completedAt := some now }

end PhaseState

/-- A single phase transition event. -/
structure PhaseTransition where
  fromPhaseId : String
  toPhaseId : String
  transitionedAt : DateTime
  reason : String
  deriving DecidableEq

/-- A running workflow instance with state and progress tracking. -/
structure WorkflowInstance where
  workflowId : WorkflowId
  template : WorkflowTemplate
  handoffPath : String
  status : WorkflowStatus
  blockedOn : Option String
  currentPhaseIdx : ℕ
  phaseStates : List PhaseState
  transitions : List PhaseTransition
  createdAt : DateTime
  updatedAt : DateTime
  deriving DecidableEq

/-- `u32::saturating_add(1)`. -/
def saturatingSucc (n : UInt32) : UInt32 := if n = UInt32.ofNat (2 ^ 32 - 1) then n else n + 1

/-- `Debug` of a string slice, for the characters with a short escape. -/
def debugStr (s : String) : String :=
  let escape : Char → String
    | '\x22' => "\\\""
    | '\\' => "\\\\"
    | '\n' => "\\n"
    | '\t' => "\\t"
    | '\r' => "\\r"
    | '\x00' => "\\0"
    | c => c.toString
  "\"" ++ String.join (s.toList.map escape) ++ "\""

/-- `Debug` of a list of strings. -/
def debugStrings (l : List String) : String := "[" ++ ", ".intercalate (l.map debugStr) ++ "]"

namespace WorkflowInstance

/-- Create a new workflow instance from a template. -/
def new (workflowId : WorkflowId) (template : WorkflowTemplate) (handoffPath : String)
    (now : DateTime) : WorkflowInstance where
  workflowId := workflowId
  template := template
  handoffPath := handoffPath
  status := .pending
  blockedOn := none
  currentPhaseIdx := 0
  phaseStates := template.phases.map fun phase =>
    PhaseState.new phase.phaseId phase.effectiveAgentRole
  transitions := []
  createdAt := now
  updatedAt := now

variable (inst : WorkflowInstance)

/-- The current phase, if any. -/
def currentPhase : Option PhaseState := inst.phaseStates[inst.currentPhaseIdx]?

/-- The template phase definition for the current phase. -/
def currentTemplatePhase : Option Phase := inst.template.phases[inst.currentPhaseIdx]?

/-- Write through `current_phase_mut`. -/
def modifyCurrent (f : PhaseState → PhaseState) : WorkflowInstance :=
  { inst with phaseStates := inst.phaseStates.modify inst.currentPhaseIdx f }

/-- The error of every operation that finds no current phase. -/
def noCurrentPhase : WorkflowError := .stateError "no current phase"

/-- The messages of missing artifacts, as one text. -/
def joinErrors (errors : List String) : String := "; ".intercalate errors

/-- Start the current phase if it is pending and its artifact prerequisites are met. -/
def startPhase (files : Files) (clk : Clock) : Except WorkflowError Unit × WorkflowInstance :=
  match inst.currentPhase with
  | none => (.error noCurrentPhase, inst)
  | some phase =>
    if phase.status ≠ .pending then
      (.error (.stateError s!"cannot start phase {phase.phaseId} in status {phase.status.debug}"),
        inst)
    else match inst.currentTemplatePhase with
    | none => (.error (.stateError "template phase not found"), inst)
    | some templatePhase =>
      match checkArtifactPrerequisites templatePhase none files with
      | .error errors =>
        (.error (.gateFailed phase.phaseId
            s!"artifact prerequisites not met: {joinErrors errors}"),
          { inst with blockedOn := some (joinErrors errors) })
      | .ok _ =>
        (.ok (), { inst.modifyCurrent (·.markActive (clk 0)) with
          status := .inProgress
          updatedAt := clk 1 })

/-- Complete the current phase. -/
def completePhase (clk : Clock) : Except WorkflowError Unit × WorkflowInstance :=
  match inst.currentPhase with
  | none => (.error noCurrentPhase, inst)
  | some phase =>
    if phase.status ≠ .active then
      (.error (.stateError
        s!"cannot complete phase {phase.phaseId} from status {phase.status.debug}"), inst)
    else (.ok (), { inst.modifyCurrent (·.markCompleted (clk 0)) with updatedAt := clk 1 })

/-- Mark the current phase completed regardless of whether it was started. -/
def reconcileCompleteCurrentPhase (clk : Clock) :
    Except WorkflowError Unit × WorkflowInstance :=
  match inst.currentPhase with
  | none => (.error noCurrentPhase, inst)
  | some phase =>
    match phase.status with
    | .pending =>
      (.ok (), { inst.modifyCurrent (fun p => (p.markActive (clk 0)).markCompleted (clk 1)) with
        updatedAt := clk 2 })
    | .active | .awaitingUserInput =>
      (.ok (), { inst.modifyCurrent (·.markCompleted (clk 0)) with updatedAt := clk 1 })
    | .completed => (.ok (), { inst with updatedAt := clk 0 })
    | .failed | .skipped =>
      (.error (.stateError s!"cannot reconcile-complete phase {phase.phaseId} from terminal status {phase.status.debug}"),
        inst)

/-- Mark the current phase failed regardless of whether it was started. -/
def reconcileFailCurrentPhase (reason : String) (clk : Clock) :
    Except WorkflowError Unit × WorkflowInstance :=
  match inst.currentPhase with
  | none => (.error noCurrentPhase, inst)
  | some phase =>
    match phase.status with
    | .pending =>
      (.ok (), { inst.modifyCurrent (fun p =>
          ({ p.markActive (clk 0) with failureReason := some reason }).markFailed (clk 1)) with
        status := .failed
        updatedAt := clk 2 })
    | .active | .awaitingUserInput =>
      (.ok (), { inst.modifyCurrent (fun p =>
          ({ p with failureReason := some reason }).markFailed (clk 0)) with
        status := .failed
        updatedAt := clk 1 })
    | .failed => (.ok (), { inst with status := .failed, updatedAt := clk 0 })
    | .completed | .skipped =>
      (.error (.stateError s!"cannot reconcile-fail phase {phase.phaseId} from terminal status {phase.status.debug}"),
        inst)

/-- Fail the current phase. Only active phases can be failed. -/
def failPhase (reason : String) (clk : Clock) : Except WorkflowError Unit × WorkflowInstance :=
  match inst.currentPhase with
  | none => (.error noCurrentPhase, inst)
  | some phase =>
    if phase.status ≠ .active then
      (.error (.stateError
        s!"cannot fail phase {phase.phaseId} from status {phase.status.debug}"), inst)
    else
      (.ok (), { inst.modifyCurrent (fun p =>
          ({ p with failureReason := some reason }).markFailed (clk 0)) with
        status := .failed
        updatedAt := clk 1 })

/-- Prepare the current phase for a retry by incrementing its retry count. -/
def incrementRetryCount (clk : Clock) : Except WorkflowError Unit × WorkflowInstance :=
  match inst.currentPhase with
  | none => (.error noCurrentPhase, inst)
  | some phase =>
    if phase.status ≠ .active then
      (.error (.stateError
        s!"cannot retry phase {phase.phaseId} not in Active status {phase.status.debug}"), inst)
    else
      (.ok (), { inst.modifyCurrent (fun p =>
          { p with retryCount := saturatingSucc p.retryCount }) with updatedAt := clk 0 })

/-- A counter of a phase, with the words its ceiling uses in messages. -/
structure CeilingCounter where
  get : PhaseState → UInt32
  set : PhaseState → UInt32 → PhaseState
  event : String
  exceeded : String
  counted : String

/-- Count one event of the current phase and fail the phase when the ceiling is reached. -/
def recordAgainst (counter : CeilingCounter) (ceiling : UInt32) (clk : Clock) :
    Except WorkflowError Bool × WorkflowInstance :=
  match inst.currentPhase with
  | none => (.error noCurrentPhase, inst)
  | some phase =>
    if phase.status ≠ .active then
      (.error (.stateError s!"cannot record {counter.event} for phase {phase.phaseId} in status {phase.status.debug}"),
        inst)
    else
      let count := saturatingSucc (counter.get phase)
      let reason :=
        s!"{counter.exceeded}: {count} {counter.counted} reached ceiling of {ceiling}"
      if ceiling ≤ count then
        (.ok true, { inst.modifyCurrent (fun p =>
            ({ counter.set p count with failureReason := some reason }).markFailed (clk 0)) with
          status := .failed
          updatedAt := clk 1 })
      else
        (.ok false, { inst.modifyCurrent (fun p => counter.set p count) with updatedAt := clk 0 })

def toolFailureCounter : CeilingCounter where
  get p := p.toolFailureCount
  set p n := { p with toolFailureCount := n }
  event := "tool failure"
  exceeded := "ExceededFailureCeiling"
  counted := "tool failures"

def requestCounter : CeilingCounter where
  get p := p.requestCount
  set p n := { p with requestCount := n }
  event := "request"
  exceeded := "ExceededRequestCeiling"
  counted := "requests"

/-- Record a tool failure for the current phase. -/
def recordToolFailure (ceiling : UInt32) (clk : Clock) :
    Except WorkflowError Bool × WorkflowInstance :=
  inst.recordAgainst toolFailureCounter ceiling clk

/-- Record a request for the current phase. -/
def recordRequest (ceiling : UInt32) (clk : Clock) :
    Except WorkflowError Bool × WorkflowInstance :=
  inst.recordAgainst requestCounter ceiling clk

/-- The effective tool failure ceiling for the current phase. -/
def effectiveToolFailureCeiling : UInt32 :=
  (inst.currentTemplatePhase.bind (·.maxToolFailurePerPhase)).getD
    inst.template.maxToolFailurePerPhase

/-- The effective request ceiling for the current phase. -/
def effectiveRequestCeiling : UInt32 :=
  (inst.currentTemplatePhase.bind (·.maxRequestsPerPhase)).getD inst.template.maxRequestsPerPhase

/-- Check if the current phase's exit gates are satisfied. -/
def canAdvance (evaluator : GateEvaluator) : Except WorkflowError Bool :=
  match inst.currentPhase with
  | none => .error noCurrentPhase
  | some phaseState =>
    match inst.currentTemplatePhase with
    | none => .error (.stateError "template phase not found")
    | some templatePhase =>
      match evaluator.evaluateAll (templatePhase.exitGate.requires.map parseGateCondition)
          ⟨inst.workflowId, phaseState.phaseId⟩ with
      | .error e => .error (.gateFailed phaseState.phaseId e.toString)
      | .ok evaluation => .ok evaluation.passed

/-- Check the entry gate of the phase about to be entered. -/
def checkEntryGate (evaluator : GateEvaluator) (next : Phase) : Except WorkflowError Unit :=
  if next.entryGate.requires = [] then .ok ()
  else match evaluator.evaluateAll (next.entryGate.requires.map parseGateCondition)
      ⟨inst.workflowId, next.phaseId⟩ with
    | .error e => .error (.gateFailed next.phaseId e.toString)
    | .ok evaluation =>
      if evaluation.passed then .ok ()
      else .error (.gateFailed next.phaseId
        s!"entry gate conditions not met: {debugStrings evaluation.failures}")

/-- The last step of `advance`: move to `nextIdx` and log the transition. The index is written
before the phase state it points to is looked up. -/
def enterPhase (fromPhaseId : String) (nextIdx : ℕ) (clk : Clock) :
    Except WorkflowError PhaseTransition × WorkflowInstance :=
  let inst := { inst with currentPhaseIdx := nextIdx }
  match inst.currentPhase with
  | none => (.error noCurrentPhase, inst)
  | some next =>
    let transition : PhaseTransition :=
      { fromPhaseId := fromPhaseId
        toPhaseId := next.phaseId
        transitionedAt := clk 0
        reason := "exit and entry gates satisfied" }
    (.ok transition, { inst with
      transitions := inst.transitions ++ [transition]
      status := .dispatched
      updatedAt := clk 1 })

/-- Advance to the next phase if gates permit. -/
def advance (evaluator : GateEvaluator) (files : Files) (clk : Clock) :
    Except WorkflowError PhaseTransition × WorkflowInstance :=
  match inst.currentPhase with
  | none => (.error noCurrentPhase, inst)
  | some current =>
    if current.status ≠ .completed then
      (.error (.stateError s!"cannot advance from phase {current.phaseId} in status {current.status.debug} — must be Completed"),
        inst)
    else if inst.template.phases.length - 1 ≤ inst.currentPhaseIdx then
      (.error .alreadyAtFinalPhase, inst)
    else match inst.canAdvance evaluator with
    | .error e => (.error e, inst)
    | .ok false => (.error (.gateFailed current.phaseId "exit gate conditions not met"), inst)
    | .ok true =>
      match inst.template.phases[inst.currentPhaseIdx + 1]? with
      | none => (.error (.stateError "next template phase not found"), inst)
      | some next =>
        match checkArtifactPrerequisites next none files with
        | .error errors =>
          (.error (.gateFailed next.phaseId
              s!"artifact prerequisites not met: {joinErrors errors}"),
            { inst with blockedOn := some (joinErrors errors) })
        | .ok _ =>
          match inst.checkEntryGate evaluator next with
          | .error e => (.error e, inst)
          | .ok () => inst.enterPhase current.phaseId (inst.currentPhaseIdx + 1) clk

/-- Complete the workflow after the final phase is done. -/
def completeWorkflow (clk : Clock) : Except WorkflowError Unit × WorkflowInstance :=
  match inst.currentPhase with
  | none => (.error noCurrentPhase, inst)
  | some current =>
    if current.status ≠ .completed then
      (.error (.stateError s!"cannot complete workflow — final phase {current.phaseId} is {current.status.debug}, not Completed"),
        inst)
    else if inst.currentPhaseIdx ≠ inst.template.phases.length - 1 then
      (.error (.stateError "cannot complete workflow — not at final phase"), inst)
    else (.ok (), { inst with status := .completed, updatedAt := clk 0 })

/-- The duration of a completed phase. -/
def phaseDuration (idx : ℕ) : Option ℤ := do
  let phase ← inst.phaseStates[idx]?
  let started ← phase.startedAt
  let completed ← phase.completedAt
  return completed - started

/-- Pause the current phase at a user checkpoint, or terminate the workflow there. -/
def handoffToUserPhase (message : String) (breakout : Bool) (clk : Clock) :
    Except WorkflowError Unit × WorkflowInstance :=
  match inst.currentPhase with
  | none => (.error noCurrentPhase, inst)
  | some phase =>
    if phase.status ≠ .active then
      (.error (.stateError s!"cannot handoff_to_user from phase {phase.phaseId} in status {phase.status.debug}"),
        inst)
    else if breakout then
      (.ok (), { inst.modifyCurrent (fun p =>
          ({ p with failureReason := some message }).markFailed (clk 0)) with
        status := .userTerminated
        updatedAt := clk 1 })
    else
      (.ok (), { inst.modifyCurrent (fun p =>
          { p with pendingMessage := some message, status := .awaitingUserInput }) with
        status := .awaitingUserInput
        updatedAt := clk 0 })

/-- Resume a workflow paused at a user checkpoint. -/
def resumeFromUserInput (clk : Clock) : Except WorkflowError Unit × WorkflowInstance :=
  if inst.status ≠ .awaitingUserInput then
    (.error (.stateError s!"cannot resume workflow {inst.workflowId} — status is {inst.status.debug}, not AwaitingUserInput"),
      inst)
  else match inst.currentPhase with
  | none => (.error noCurrentPhase, inst)
  | some phase =>
    if phase.status ≠ .awaitingUserInput then
      (.error (.stateError s!"cannot resume phase {phase.phaseId} — status is {phase.status.debug}, not AwaitingUserInput"),
        inst)
    else
      (.ok (), { inst.modifyCurrent (fun p =>
          { p with pendingMessage := none, status := .active }) with
        status := .inProgress
        updatedAt := clk 0 })

end WorkflowInstance

end Hymenium
