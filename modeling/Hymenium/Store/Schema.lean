import Hymenium.Foundations.Keyed
import Hymenium.Store.Outcome

/-!
# The tables of the workflow database

The rows and constraints of the SQLite schema (`src/store.rs`, `src/sweeper.rs`): four tables of the
workflow store, the table of runtimes, their keys, the partial unique index on `content_hash`, and
the foreign keys. A `Db` carries the constraints; a statement succeeds exactly when the tables it
would leave satisfy them.

Statuses and roles are stored as text and read back through the parsers of the store. A text that an
encoder wrote is kept as the value it encodes (`Stored`), since printing and parsing of timestamps
and JSON is the work of libraries.
-/

namespace Hymenium

/-- Errors of the workflow store. -/
inductive StoreError where
  /-- A statement the database refused: a constraint failed, or it was busy. -/
  | sqlite
  /-- A stored JSON text that does not decode. -/
  | json (reason : String)
  | notFound (id : String)
  | invalidValue (field value reason : String)
  | nestedTransaction
  /-- An addition overflowed. This is a panic, which leaves an open transaction by unwinding. -/
  | overflow
  deriving DecidableEq

/-- A text column: the text some value is encoded as, or a text its decoder rejects, with what the
decoder says about it. -/
inductive Stored (α : Type) where
  | encoded (value : α)
  | garbled (text reason : String)
  deriving DecidableEq

/-- Decode a timestamp column (`parse_datetime`). -/
def parseDatetime (field : String) : Stored DateTime → Except StoreError DateTime
  | .encoded t => .ok t
  | .garbled text reason => .error (.invalidValue field text reason)

/-- Decode a JSON column. -/
def fromJson {α : Type} : Stored α → Except StoreError α
  | .encoded value => .ok value
  | .garbled _ reason => .error (.json reason)

/-! ## Rows -/

/-- A row of `workflows`. -/
structure WorkflowRow where
  workflowId : String
  templateId : String
  handoffPath : String
  status : String
  currentPhase : Option String
  currentPhaseIdx : ℤ
  blockedOn : Option String
  createdAt : Stored DateTime
  updatedAt : Stored DateTime
  templateJson : Stored WorkflowTemplate
  contentHash : Option String
  deriving DecidableEq

/-- A row of `phase_states`. -/
structure PhaseRow where
  workflowId : String
  phaseId : String
  role : String
  status : String
  agentId : Option String
  startedAt : Option (Stored DateTime)
  completedAt : Option (Stored DateTime)
  canopyTaskId : Option String
  retryCount : ℤ
  phaseOrder : ℤ
  failureReason : Option String
  pendingMessage : Option String
  toolFailureCount : ℤ
  requestCount : ℤ
  deriving DecidableEq

/-- The primary key of a phase row. -/
def PhaseRow.key (row : PhaseRow) : String × String := (row.workflowId, row.phaseId)

/-- A row of `workflow_transitions`, which are kept in the order of their ids. -/
structure TransitionRow where
  workflowId : String
  fromPhase : Option String
  toPhase : Option String
  transitionedAt : Stored DateTime
  reason : Option String
  deriving DecidableEq

/-- A row of `workflow_outcomes`. -/
structure OutcomeRow where
  workflowId : String
  outcomeJson : Stored WorkflowOutcome
  createdAt : Stored DateTime
  deriving DecidableEq

/-- A row of `runtimes`. -/
structure RuntimeRow where
  runtimeId : String
  status : String
  lastHeartbeat : Stored DateTime
  registeredAt : Stored DateTime
  wentOfflineAt : Option DateTime
  deriving DecidableEq

/-- The statuses the store takes for terminal. -/
def terminalStatuses : List String := ["completed", "failed", "cancelled", "user_terminated"]

/-- The row is in no terminal status. -/
def WorkflowRow.Live (row : WorkflowRow) : Prop := row.status ∉ terminalStatuses

instance : DecidablePred WorkflowRow.Live :=
  fun row => inferInstanceAs (Decidable (row.status ∉ terminalStatuses))

/-! ## Tables and constraints -/

/-- The contents of the database. -/
structure Tables where
  workflows : List WorkflowRow
  phaseStates : List PhaseRow
  workflowTransitions : List TransitionRow
  workflowOutcomes : List OutcomeRow
  runtimes : List RuntimeRow

namespace Tables

/-- The content hashes under the partial unique index. -/
def activeHashes (t : Tables) : List String :=
  (t.workflows.filter (·.Live)).filterMap (·.contentHash)

/-- The ids of the stored workflows. -/
def workflowIds (t : Tables) : List String := t.workflows.map (·.workflowId)

/-- What the schema demands of the contents. -/
structure Constraints (t : Tables) : Prop where
  workflowKeys : t.workflowIds.Nodup
  phaseKeys : (t.phaseStates.map PhaseRow.key).Nodup
  outcomeKeys : (t.workflowOutcomes.map (·.workflowId)).Nodup
  runtimeKeys : (t.runtimes.map (·.runtimeId)).Nodup
  activeHashes : t.activeHashes.Nodup
  phaseOwners : ∀ row ∈ t.phaseStates, row.workflowId ∈ t.workflowIds
  transitionOwners : ∀ row ∈ t.workflowTransitions, row.workflowId ∈ t.workflowIds

theorem constraints_iff (t : Tables) :
    t.Constraints ↔ t.workflowIds.Nodup ∧ (t.phaseStates.map PhaseRow.key).Nodup ∧
      (t.workflowOutcomes.map (·.workflowId)).Nodup ∧ (t.runtimes.map (·.runtimeId)).Nodup ∧
      t.activeHashes.Nodup ∧ (∀ row ∈ t.phaseStates, row.workflowId ∈ t.workflowIds) ∧
      ∀ row ∈ t.workflowTransitions, row.workflowId ∈ t.workflowIds :=
  ⟨fun ⟨h₁, h₂, h₃, h₄, h₅, h₆, h₇⟩ => ⟨h₁, h₂, h₃, h₄, h₅, h₆, h₇⟩,
    fun ⟨h₁, h₂, h₃, h₄, h₅, h₆, h₇⟩ => ⟨h₁, h₂, h₃, h₄, h₅, h₆, h₇⟩⟩

instance (t : Tables) : Decidable t.Constraints := decidable_of_iff _ t.constraints_iff.symm

end Tables

/-- A database: tables that satisfy the constraints of the schema. -/
structure Db extends Tables where
  constraints : toTables.Constraints

theorem Db.ext_tables {a b : Db} (h : a.toTables = b.toTables) : a = b := by
  cases a; cases b; cases h; rfl

/-- The database after the migrations ran on a new file. -/
def Db.empty : Db := ⟨⟨[], [], [], [], []⟩, by decide⟩

/-! ## Transactions -/

/-- A sequence of statements. An error abandons what was written. -/
abbrev Txn (ε : Type) := StateT Db (Except ε)

/-- A write statement: refused when the tables it would leave violate a constraint. -/
def execute (f : Tables → Tables) : Txn StoreError Unit := fun db =>
  if h : (f db.toTables).Constraints then .ok ((), ⟨f db.toTables, h⟩) else .error .sqlite

/-- Run `body` between BEGIN and COMMIT, and roll back on its error. -/
def withTransaction {ε α : Type} (body : Txn ε α) (db : Db) : Except ε α × Db :=
  match body.run db with
  | .ok (a, db') => (.ok a, db')
  | .error e => (.error e, db)

namespace Txn

variable {ε α β : Type}

theorem run_bind_ok {x : Txn ε α} {f : α → Txn ε β} {db : Db} {r : β × Db} :
    (x >>= f).run db = .ok r ↔ ∃ a db₁, x.run db = .ok (a, db₁) ∧ (f a).run db₁ = .ok r := by
  rw [StateT.run_bind]
  cases h : x.run db with
  | error e => simp [bind, Except.bind]
  | ok p =>
    obtain ⟨a, db₁⟩ := p
    simp [bind, Except.bind]

theorem run_pure_ok {a : α} {db : Db} {r : α × Db} :
    (pure a : Txn ε α).run db = .ok r ↔ r = (a, db) := by
  rw [StateT.run_pure]
  show Except.ok (a, db) = Except.ok r ↔ _
  rw [Except.ok.injEq, eq_comm]

theorem execute_ok {f : Tables → Tables} {db : Db} {r : Unit × Db} :
    (execute f).run db = .ok r ↔
      (f db.toTables).Constraints ∧ r.2.toTables = f db.toTables := by
  show (execute f) db = .ok r ↔ _
  unfold execute
  split_ifs with h
  · rw [Except.ok.injEq]
    constructor
    · rintro rfl
      exact ⟨h, rfl⟩
    · rintro ⟨-, heq⟩
      exact Prod.ext rfl (Db.ext_tables heq.symm)
  · simp [h]

end Txn

end Hymenium
