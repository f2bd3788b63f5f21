import Hymenium.Store.Schema
import Mathlib.Algebra.Ring.Int.Defs
import Mathlib.Data.List.Sort

/-!
# The workflow store

The operations of `WorkflowStore` (`src/store.rs`) and the emission of outcomes
(`src/outcomes.rs`), as statements on a database. Times are arguments: each is the clock reading
that the source takes for the column it writes.
-/

namespace Hymenium

/-! ## Reading rows -/

/-- Parse a stored workflow status. -/
def parseWorkflowStatus : String → Except StoreError WorkflowStatus
  | "pending" => .ok .pending
  | "dispatched" => .ok .dispatched
  | "in_progress" => .ok .inProgress
  | "blocked_on_gate" => .ok .blockedOnGate
  | "awaiting_repair" => .ok .awaitingRepair
  | "awaiting_user_input" => .ok .awaitingUserInput
  | "user_terminated" => .ok .userTerminated
  | "completed" => .ok .completed
  | "failed" => .ok .failed
  | "cancelled" => .ok .cancelled
  | other => .error (.invalidValue "status" other "unknown workflow status")

/-- Parse a stored phase status. -/
def parsePhaseStatus : String → Except StoreError PhaseStatus
  | "pending" => .ok .pending
  | "active" => .ok .active
  | "awaiting_user_input" => .ok .awaitingUserInput
  | "completed" => .ok .completed
  | "failed" => .ok .failed
  | "skipped" => .ok .skipped
  | other => .error (.invalidValue "phase status" other "unknown phase status")

/-- Parse a stored agent role. -/
def parseAgentRole : String → Except StoreError AgentRole
  | "Spec Author" => .ok .specAuthor
  | "Workflow Planner" => .ok .workflowPlanner
  | "Packet Compiler" => .ok .packetCompiler
  | "Decomposition Checker" => .ok .decompositionChecker
  | "Workflow Coordinator" => .ok .workflowCoordinator
  | "Worker" => .ok .worker
  | "Output Verifier" => .ok .outputVerifier
  | "Repair Worker" => .ok .repairWorker
  | "Final Verifier" => .ok .finalVerifier
  | other => .error (.invalidValue "role" other "unknown agent role")

@[simp] theorem parseWorkflowStatus_toString (s : WorkflowStatus) :
    parseWorkflowStatus s.toString = .ok s := by
  cases s <;> rfl

@[simp] theorem parsePhaseStatus_toString (s : PhaseStatus) :
    parsePhaseStatus s.toString = .ok s := by
  cases s <;> rfl

@[simp] theorem parseAgentRole_toString (r : AgentRole) :
    parseAgentRole r.toString = .ok r := by
  cases r <;> rfl

/-- Statuses stored as the same text are the same. -/
theorem WorkflowStatus.toString_injective {a b : WorkflowStatus} (h : a.toString = b.toString) :
    a = b := by
  have hparse := parseWorkflowStatus_toString a
  rw [h, parseWorkflowStatus_toString] at hparse
  exact (Except.ok.inj hparse).symm

theorem PhaseStatus.toString_injective {a b : PhaseStatus} (h : a.toString = b.toString) :
    a = b := by
  have hparse := parsePhaseStatus_toString a
  rw [h, parsePhaseStatus_toString] at hparse
  exact (Except.ok.inj hparse).symm

/-- Read an integer column as a `u32`. -/
def toU32 (n : ℤ) : Except StoreError UInt32 :=
  if 0 ≤ n ∧ n < 2 ^ 32 then .ok (UInt32.ofNat n.toNat) else .error .sqlite

@[simp] theorem toU32_toNat (n : UInt32) : toU32 n.toNat = .ok n := by
  have hlt : (n.toNat : ℤ) < 2 ^ 32 := by exact_mod_cast n.toNat_lt
  rw [toU32, if_pos ⟨Int.natCast_nonneg _, hlt⟩, Int.toNat_natCast, UInt32.ofNat_toNat]

/-- Decode a phase row. -/
def PhaseRow.toState (row : PhaseRow) : Except StoreError PhaseState := do
  let retryCount ← toU32 row.retryCount
  let toolFailureCount ← toU32 row.toolFailureCount
  let requestCount ← toU32 row.requestCount
  let role ← parseAgentRole row.role
  let status ← parsePhaseStatus row.status
  let startedAt ← row.startedAt.mapM (parseDatetime "started_at")
  let completedAt ← row.completedAt.mapM (parseDatetime "completed_at")
  return {
    phaseId := row.phaseId
    role
    status
    agentId := row.agentId
    canopyTaskId := row.canopyTaskId
    startedAt
    completedAt
    failureReason := row.failureReason
    pendingMessage := row.pendingMessage
    retryCount
    toolFailureCount
    requestCount }

/-- `usize::try_from` on a stored index. -/
def toUsize (field : String) (n : ℤ) : Except StoreError ℕ :=
  if 0 ≤ n then .ok n.toNat
  else .error (.invalidValue field (toString n) s!"value {n} is negative or exceeds usize::MAX")

/-- `i64::try_from` on an index. -/
def toI64 (field : String) (n : ℕ) : Except StoreError ℤ :=
  if n < 2 ^ 63 then .ok n
  else .error (.invalidValue field (toString n) s!"value {n} exceeds i64::MAX")

namespace Tables

variable (t : Tables)

/-- The row of a workflow. -/
def workflow (id : WorkflowId) : Option WorkflowRow := Keyed.find (·.workflowId) id t.workflows

/-- The phase rows of a workflow. -/
def phasesOf (id : WorkflowId) : List PhaseRow := t.phaseStates.filter (·.workflowId = id)

/-- The outcome row of a workflow. -/
def outcome (id : WorkflowId) : Option OutcomeRow :=
  Keyed.find (·.workflowId) id t.workflowOutcomes

/-- The phases of a workflow in phase order. -/
def loadPhaseStates (id : WorkflowId) : Except StoreError (List PhaseState) :=
  ((t.phasesOf id).insertionSort (·.phaseOrder ≤ ·.phaseOrder)).mapM PhaseRow.toState

/-- Load a workflow instance, `none` if not found. -/
def getWorkflow (id : WorkflowId) : Except StoreError (Option WorkflowInstance) :=
  match t.workflow id with
  | none => .ok none
  | some row => do
    let status ← parseWorkflowStatus row.status
    let template ← fromJson row.templateJson
    let createdAt ← parseDatetime "created_at" row.createdAt
    let updatedAt ← parseDatetime "updated_at" row.updatedAt
    let currentPhaseIdx ← toUsize "current_phase_idx" row.currentPhaseIdx
    let phaseStates ← t.loadPhaseStates row.workflowId
    return some {
      workflowId := row.workflowId
      template
      handoffPath := row.handoffPath
      status
      blockedOn := row.blockedOn
      currentPhaseIdx
      phaseStates
      transitions := []
      createdAt
      updatedAt }

/-- The live workflow with this content hash. The unique index leaves at most one, so that the
order of the query decides nothing. -/
def liveByHash (hash : String) : Option WorkflowRow :=
  t.workflows.find? fun row => row.contentHash = some hash ∧ row.Live

/-- Load the stored outcome for a workflow. -/
def getOutcome (id : WorkflowId) : Except StoreError (Option WorkflowOutcome) :=
  match t.outcome id with
  | none => .ok none
  | some row => (fromJson row.outcomeJson).map some

end Tables

/-! ## Writing rows -/

/-- The row of an instance. -/
def WorkflowRow.ofInstance (inst : WorkflowInstance) (currentPhaseIdx : ℤ)
    (contentHash : Option String) : WorkflowRow where
  workflowId := inst.workflowId
  templateId := inst.template.templateId
  handoffPath := inst.handoffPath
  status := inst.status.toString
  currentPhase := inst.currentPhase.map (·.phaseId)
  currentPhaseIdx
  blockedOn := inst.blockedOn
  createdAt := .encoded inst.createdAt
  updatedAt := .encoded inst.updatedAt
  templateJson := .encoded inst.template
  contentHash

/-- The row of a phase state. -/
def PhaseRow.ofState (id : WorkflowId) (state : PhaseState) (phaseOrder : ℤ) : PhaseRow where
  workflowId := id
  phaseId := state.phaseId
  role := state.role.toString
  status := state.status.toString
  agentId := state.agentId
  startedAt := state.startedAt.map .encoded
  completedAt := state.completedAt.map .encoded
  canopyTaskId := state.canopyTaskId
  retryCount := state.retryCount.toNat
  phaseOrder
  failureReason := state.failureReason
  pendingMessage := state.pendingMessage
  toolFailureCount := state.toolFailureCount.toNat
  requestCount := state.requestCount.toNat

/-- The row after `UPDATE workflows SET status, blocked_on, updated_at`. -/
def WorkflowRow.withStatus (row : WorkflowRow) (status : WorkflowStatus)
    (blockedOn : Option String) (now : DateTime) : WorkflowRow :=
  { row with status := status.toString, blockedOn, updatedAt := .encoded now }

/-- The row after `UPDATE workflows SET current_phase_idx, updated_at`. -/
def WorkflowRow.withPhaseIdx (row : WorkflowRow) (currentPhaseIdx : ℤ) (now : DateTime) :
    WorkflowRow :=
  { row with currentPhaseIdx, updatedAt := .encoded now }

namespace Tables

variable (t : Tables)

def insertWorkflow (row : WorkflowRow) : Tables := { t with workflows := t.workflows ++ [row] }

def setStatus (id : WorkflowId) (status : WorkflowStatus) (blockedOn : Option String)
    (now : DateTime) : Tables :=
  { t with
    workflows := Keyed.update (·.workflowId) id (·.withStatus status blockedOn now) t.workflows }

def setPhaseIdx (id : WorkflowId) (currentPhaseIdx : ℤ) (now : DateTime) : Tables :=
  { t with
    workflows := Keyed.update (·.workflowId) id (·.withPhaseIdx currentPhaseIdx now) t.workflows }

/-- The conflict clause writes every column but the key. -/
def upsertPhase (row : PhaseRow) : Tables :=
  { t with phaseStates := Keyed.upsert PhaseRow.key row t.phaseStates }

def addTransition (row : TransitionRow) : Tables :=
  { t with workflowTransitions := t.workflowTransitions ++ [row] }

def replaceOutcome (row : OutcomeRow) : Tables :=
  { t with workflowOutcomes := Keyed.replace (·.workflowId) row t.workflowOutcomes }

end Tables

/-! ## Statements -/

/-- Read the tables inside a transaction. -/
def query {α : Type} (f : Tables → Except StoreError α) : Txn StoreError α := fun db =>
  (f db.toTables).map (·, db)

/-- Update the status and `blockedOn` of a workflow. -/
def updateWorkflowStatus (id : WorkflowId) (status : WorkflowStatus) (blockedOn : Option String)
    (now : DateTime) : Txn StoreError Unit := do
  execute (·.setStatus id status blockedOn now)
  if (← get).workflow id = none then throw (.notFound id)

/-- Update the current phase index of a workflow. -/
def updateCurrentPhaseIdx (id : WorkflowId) (currentPhaseIdx : ℕ) (now : DateTime) :
    Txn StoreError Unit := do
  let idx ← liftM (toI64 "current_phase_idx" currentPhaseIdx)
  execute (·.setPhaseIdx id idx now)
  if (← get).workflow id = none then throw (.notFound id)

/-- Record a phase transition in the audit log. -/
def recordTransition (id : WorkflowId) (fromPhase toPhase reason : Option String)
    (now : DateTime) : Txn StoreError Unit :=
  execute (·.addTransition ⟨id, fromPhase, toPhase, .encoded now, reason⟩)

/-- Upsert a single phase state record. -/
def upsertPhaseState (id : WorkflowId) (state : PhaseState) (order : ℕ) :
    Txn StoreError Unit := do
  let phaseOrder ← liftM (toI64 "phase_order" order)
  execute (·.upsertPhase (.ofState id state phaseOrder))

/-- Upsert phase states in order, from `order` on. -/
def upsertPhaseStates (id : WorkflowId) : List PhaseState → ℕ → Txn StoreError Unit
  | [], _ => pure ()
  | state :: states, order => do
    upsertPhaseState id state order
    upsertPhaseStates id states (order + 1)

/-- Insert a new workflow instance with an optional content hash. -/
def insertWorkflowWithHash (inst : WorkflowInstance) (contentHash : Option String) :
    Txn StoreError Unit := do
  let idx ← liftM (toI64 "current_phase_idx" inst.currentPhaseIdx)
  execute (·.insertWorkflow (.ofInstance inst idx contentHash))
  upsertPhaseStates inst.workflowId inst.phaseStates 0

/-- `INSERT OR IGNORE` of a workflow row; the result is the number of inserted rows. -/
def insertOrIgnoreWorkflow (row : WorkflowRow) : Txn StoreError ℕ := fun db =>
  if h : (db.insertWorkflow row).Constraints then .ok (1, ⟨db.insertWorkflow row, h⟩)
  else .ok (0, db)

/-- The canonical workflow of a hash, read back after the insert attempt. -/
def canonicalByHash (contentHash : String) : Txn StoreError WorkflowInstance := do
  match (← get).liveByHash contentHash with
  | none => throw (.notFound "no workflow found after insert attempt")
  | some row =>
    match ← query (·.getWorkflow row.workflowId) with
    | none => throw (.notFound row.workflowId)
    | some canonical => return canonical

/-- The transaction of `find_and_insert_workflow_by_hash`. -/
def findAndInsertWorkflowByHash (inst : WorkflowInstance) (contentHash : String) :
    Txn StoreError WorkflowInstance := do
  let idx ← liftM (toI64 "current_phase_idx" inst.currentPhaseIdx)
  let inserted ← insertOrIgnoreWorkflow (.ofInstance inst idx (some contentHash))
  if 0 < inserted then upsertPhaseStates inst.workflowId inst.phaseStates 0
  canonicalByHash contentHash

/-- Persist a terminal workflow outcome; the latest one wins. -/
def insertOutcome (outcome : WorkflowOutcome) (now : DateTime) : Txn StoreError Unit :=
  execute (·.replaceOutcome ⟨outcome.workflowId, .encoded outcome, .encoded now⟩)

/-- Build and persist the terminal outcome of an instance. -/
def emitTerminalOutcome (inst : WorkflowInstance) (failure : Option FailureKind) (clk : Clock) :
    Txn StoreError Unit :=
  match WorkflowOutcome.build inst failure (clk 0) with
  | none => throw .overflow
  | some outcome => insertOutcome outcome (clk 1)

end Hymenium
