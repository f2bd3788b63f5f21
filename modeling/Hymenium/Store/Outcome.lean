import Hymenium.Workflow.Engine

/-!
# Workflow outcomes

The terminal summary of a workflow (`src/outcome.rs`): the mapping of failure kinds to wire types,
and `WorkflowOutcome.build`. The optional confidence, root-cause layer and runtime identity, which
no caller sets, are left out.

The attempt count is a sum of machine integers. `build` has no value where the addition overflows,
which is a panic in a checked build.
-/

namespace Hymenium

/-- Why a phase failed, as the detection site classifies it. -/
inductive FailureKind where
  | specAmbiguity | taskTooLarge | missingDependency | executionIncomplete | scopeViolation
  | contractMismatch | minorDefect
  deriving DecidableEq

/-- Terminal state of a workflow on the wire. -/
inductive TerminalStatus where
  | completed | failed | cancelled
  deriving DecidableEq

/-- The serde name of a terminal status. -/
def TerminalStatus.toString : TerminalStatus → String
  | .completed => "completed"
  | .failed => "failed"
  | .cancelled => "cancelled"

/-- Terminal failure category on the wire. -/
inductive TerminalFailureType where
  | gateViolation | verificationFailed | stallTimeout | operatorCancelled | auditRejected
  | infrastructureError | unknown
  deriving DecidableEq

/-- Map an internal failure kind to the wire terminal failure type. -/
def FailureKind.toTerminalFailureType : FailureKind → TerminalFailureType
  | .specAmbiguity => .unknown
  | .taskTooLarge | .missingDependency => .gateViolation
  | .executionIncomplete => .stallTimeout
  | .scopeViolation => .auditRejected
  | .contractMismatch | .minorDefect => .verificationFailed

/-- Status of a single phase in the route taken by a workflow. -/
inductive RouteStepStatus where
  | completed | failed | skipped
  deriving DecidableEq

/-- One step in the execution route of a workflow. -/
structure RouteStep where
  phaseId : String
  role : AgentRole
  status : RouteStepStatus
  deriving DecidableEq

/-- Terminal outcome record for a workflow. -/
structure WorkflowOutcome where
  schemaVersion : String
  workflowId : WorkflowId
  templateId : String
  handoffPath : String
  terminalStatus : TerminalStatus
  failureType : Option TerminalFailureType
  attemptCount : UInt32
  routeTaken : List RouteStep
  startedAt : DateTime
  completedAt : DateTime
  deriving DecidableEq

/-- Addition of `u32` values, without a value on overflow. -/
def checkedAdd (a b : UInt32) : Option UInt32 :=
  if a.toNat + b.toNat < 2 ^ 32 then some (a + b) else none

/-- The sum of `retry_count + 1` over the phases, first to last. -/
def attemptSum (phases : List PhaseState) : Option UInt32 :=
  phases.foldlM (fun sum p => (checkedAdd p.retryCount 1).bind (checkedAdd sum)) 0

/-- The terminal status an outcome records: anything neither completed nor cancelled is failed. -/
def WorkflowStatus.toTerminal : WorkflowStatus → TerminalStatus
  | .completed => .completed
  | .cancelled => .cancelled
  | _ => .failed

/-- The step of a phase that ran. -/
def routeStep (p : PhaseState) : RouteStep where
  phaseId := p.phaseId
  role := p.role
  status := match p.status with
    | .completed => .completed
    | .skipped => .skipped
    | _ => .failed

/-- Build an outcome from an instance, an optional failure and the completion time. -/
def WorkflowOutcome.build (inst : WorkflowInstance) (failure : Option FailureKind)
    (now : DateTime) : Option WorkflowOutcome := do
  let terminalStatus := inst.status.toTerminal
  let failureType := (failure.map FailureKind.toTerminalFailureType).or
    (if terminalStatus = .failed then some .unknown else none)
  let attemptCount ← attemptSum inst.phaseStates
  return {
    schemaVersion := "1.0"
    workflowId := inst.workflowId
    templateId := inst.template.templateId
    handoffPath := inst.handoffPath
    terminalStatus
    failureType
    attemptCount := if attemptCount = 0 then 1 else attemptCount
    routeTaken := (inst.phaseStates.filter (·.status ≠ .pending)).map routeStep
    startedAt := inst.createdAt
    completedAt := now }

/-- An outcome carries the workflow's id and the terminal form of its status. -/
theorem WorkflowOutcome.build_spec {inst : WorkflowInstance} {failure : Option FailureKind}
    {now : DateTime} {outcome : WorkflowOutcome} (h : build inst failure now = some outcome) :
    outcome.workflowId = inst.workflowId ∧ outcome.terminalStatus = inst.status.toTerminal := by
  unfold build at h
  cases hsum : attemptSum inst.phaseStates with
  | none => simp [hsum] at h
  | some n =>
    simp only [hsum, Option.bind_eq_bind, Option.bind_some, Option.pure_def,
      Option.some.injEq] at h
    rw [← h]
    exact ⟨rfl, rfl⟩

end Hymenium
