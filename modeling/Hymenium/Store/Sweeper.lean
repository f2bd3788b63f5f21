import Hymenium.Foundations.Timestamp
import Hymenium.Store.WorkflowStore

/-!
# The runtime sweeper

The registry of runtimes and one sweep over it (`src/sweeper.rs`): heartbeat timeout, failure of
orphaned phases, reconciliation of the phases of offline runtimes, and garbage collection. Every
statement, or BEGIN-to-COMMIT block, commits on its own.

Durations are in nanoseconds.
-/

namespace Hymenium

inductive RuntimeStatus where
  | online | offline
  deriving DecidableEq

/-- An unknown status text counts as offline. -/
def RuntimeStatus.ofText (s : String) : RuntimeStatus :=
  if s = "online" then .online else .offline

/-- A runtime entry in the registry. -/
structure RuntimeEntry where
  runtimeId : String
  status : RuntimeStatus
  lastHeartbeat : DateTime
  registeredAt : DateTime
  wentOfflineAt : Option DateTime
  deriving DecidableEq

/-- Summary of a single sweep cycle. -/
structure SweepReport where
  runtimesMarkedOffline : ℕ := 0
  phasesOrphanFailed : ℕ := 0
  phasesReconciled : ℕ := 0
  runtimesGcDeleted : ℕ := 0
  errors : List String := []
  deriving DecidableEq

/-! ## Time arithmetic -/

def seconds (n : ℤ) : ℤ := n * 1000000000

def days (n : ℤ) : ℤ := seconds (n * 86400)

/-- `chrono::Duration::from_std`: a span of at most `i64::MAX` milliseconds. -/
def fromStd (duration : ℕ) : Option ℤ :=
  if duration ≤ (2 ^ 63 - 1) * 1000000 then some duration else none

/-- Subtraction of a span from a time; no value outside the range of `DateTime<Utc>`. -/
def checkedSub (t : DateTime) (span : ℤ) : Option DateTime :=
  if seconds (-8334601228800) ≤ t - span ∧ t - span < seconds 8210266876800 then some (t - span)
  else none

theorem fromStd_eq_some {duration : ℕ} {span : ℤ} (h : fromStd duration = some span) :
    span = duration := by
  unfold fromStd at h
  split_ifs at h
  exact (Option.some.inj h).symm

theorem fromStd_of_ne_none {duration : ℕ} (h : fromStd duration ≠ none) :
    fromStd duration = some (duration : ℤ) := by
  obtain ⟨span, hspan⟩ := Option.ne_none_iff_exists'.mp h
  rw [hspan, fromStd_eq_some hspan]

theorem checkedSub_eq_some {t threshold : DateTime} {span : ℤ}
    (h : checkedSub t span = some threshold) : threshold = t - span := by
  unfold checkedSub at h
  split_ifs at h
  exact (Option.some.inj h).symm

theorem checkedSub_ne_none_iff {t span : ℤ} : checkedSub t span ≠ none ↔
    seconds (-8334601228800) ≤ t - span ∧ t - span < seconds 8210266876800 := by
  unfold checkedSub
  split_ifs with hrange
  · exact iff_of_true (Option.some_ne_none _) hrange
  · exact iff_of_false (fun hne => hne rfl) hrange

/-! ## The registry -/

/-- A timestamp column of the registry: its value, or a very old one and an error. -/
def readTimestamp (runtimeId column : String) (now : DateTime) :
    Stored DateTime → DateTime × List String
  | .encoded t => (t, [])
  | .garbled _ reason =>
    (now - days 365, [s!"corrupt timestamp for runtime {runtimeId}: invalid {column}: {reason}"])

/-- The entry of a row, with the errors of its timestamps. -/
def RuntimeRow.toEntry (row : RuntimeRow) (clk : Clock) : RuntimeEntry × List String :=
  let (lastHeartbeat, errors) :=
    readTimestamp row.runtimeId "last_heartbeat" (clk 0) row.lastHeartbeat
  let (registeredAt, errors') :=
    readTimestamp row.runtimeId "registered_at" (clk 1) row.registeredAt
  (⟨row.runtimeId, RuntimeStatus.ofText row.status, lastHeartbeat, registeredAt,
    row.wentOfflineAt⟩, errors ++ errors')

/-- The order in which a query returns the runtimes: any order. That of `ORDER BY registered_at` is one
of them, whatever it does with those that were registered at once. -/
structure RowOrder where
  order : List RuntimeRow → List RuntimeRow
  perm : ∀ l, (order l).Perm l

/-- The rows as they are stored. -/
def RowOrder.stored : RowOrder := ⟨id, List.Perm.refl⟩

/-- A row that is returned is stored, and the rows are counted. -/
theorem RowOrder.of_getElem? {rows : RowOrder} {l : List RuntimeRow} {i : ℕ} {row : RuntimeRow}
    (h : (rows.order l)[i]? = some row) : row ∈ l ∧ i < l.length := by
  obtain ⟨hi, rfl⟩ := List.getElem?_eq_some_iff.mp h
  exact ⟨(rows.perm l).mem_iff.mp (List.getElem_mem hi), (rows.perm l).length_eq ▸ hi⟩

theorem RowOrder.exists_getElem? (rows : RowOrder) {l : List RuntimeRow} {row : RuntimeRow}
    (h : row ∈ l) : ∃ i : ℕ, (rows.order l)[i]? = some row :=
  List.mem_iff_getElem?.mp ((rows.perm l).mem_iff.mpr h)

namespace Tables

variable (t : Tables)

/-- Register a runtime, or refresh it. -/
def heartbeat (runtimeId : String) (now : DateTime) : Tables :=
  { t with runtimes :=
      if runtimeId ∈ t.runtimes.map (·.runtimeId) then
        Keyed.update (·.runtimeId) runtimeId (fun row => { row with
          status := "online", lastHeartbeat := .encoded now, wentOfflineAt := none }) t.runtimes
      else t.runtimes ++ [⟨runtimeId, "online", .encoded now, .encoded now, none⟩] }

/-- All runtime entries, with their timestamp errors. -/
def listAllWithErrors (rows : RowOrder) (clk : Clock) : List RuntimeEntry × List String :=
  let entries := (rows.order t.runtimes).mapIdx fun i row => row.toEntry fun k => clk (2 * i + k)
  (entries.map Prod.fst, entries.flatMap Prod.snd)

variable {t} in
/-- The listing has one entry for each row. -/
theorem mem_listAllWithErrors {rows : RowOrder} {clk : Clock} {entry : RuntimeEntry} :
    entry ∈ (t.listAllWithErrors rows clk).1 ↔
      ∃ (i : ℕ) (row : RuntimeRow), (rows.order t.runtimes)[i]? = some row ∧
        entry = (row.toEntry fun k => clk (2 * i + k)).1 := by
  unfold listAllWithErrors
  rw [List.mem_iff_getElem?]
  simp only [List.getElem?_map, List.getElem?_mapIdx, Option.map_map, Option.map_eq_some_iff]
  constructor
  · rintro ⟨i, row, hrow, rfl⟩
    exact ⟨i, row, hrow, rfl⟩
  · rintro ⟨i, row, hrow, rfl⟩
    exact ⟨i, row, hrow, rfl⟩

def markOffline (runtimeId : String) (now : DateTime) : Tables :=
  { t with runtimes := Keyed.update (·.runtimeId) runtimeId (fun row =>
      if row.status = "offline" then row
      else { row with status := "offline", wentOfflineAt := some now }) t.runtimes }

/-- The active phases owned by one of the runtimes: workflow and phase ids. -/
def activePhasesForRuntimes (runtimeIds : List String) : List (String × String) :=
  (t.phaseStates.filter fun row => row.status = "active" ∧ ∃ a ∈ row.agentId, a ∈ runtimeIds).map
    PhaseRow.key

/-- Fail an active phase and its workflow. -/
def failPhase (workflowId phaseId reason : String) (now : DateTime) : Tables :=
  { t with
    phaseStates := Keyed.update PhaseRow.key (workflowId, phaseId) (fun row =>
      if row.status = "active" then
        { row with
          status := "failed", completedAt := some (.encoded now), failureReason := some reason }
      else row) t.phaseStates
    workflows := Keyed.update (·.workflowId) workflowId (fun row =>
      if row.status ∉ ["completed", "cancelled", "user_terminated"] then
        { row with status := "failed", updatedAt := .encoded now }
      else row) t.workflows }

/-- The runtimes that are stored as offline. -/
def offlineIds : List String :=
  (t.runtimes.filter (·.status = "offline")).map (·.runtimeId)

/-- The runtime has been offline since before the threshold, by the order of the texts. -/
def Expired (threshold : DateTime) (row : RuntimeRow) : Prop :=
  row.status = "offline" ∧
    ∃ at' ∈ row.wentOfflineAt, Timestamp.rfc3339 at' < Timestamp.rfc3339 threshold

instance (threshold : DateTime) : DecidablePred (Expired threshold) :=
  fun row => inferInstanceAs (Decidable (row.status = "offline" ∧ _))

/-- Delete the expired runtimes. -/
def gcOffline (threshold : DateTime) : Tables :=
  { t with runtimes := t.runtimes.filter fun row => ¬ Expired threshold row }

end Tables

/-- Register a runtime or refresh an existing entry. -/
def upsertHeartbeat (runtimeId : String) (now : DateTime) (db : Db) : Except StoreError Unit × Db :=
  withTransaction (execute (·.heartbeat runtimeId now)) db

/-- Transition an active phase to failed, together with its workflow. -/
def failPhase (workflowId phaseId reason : String) (now : DateTime) (db : Db) :
    Except StoreError Unit × Db :=
  withTransaction (execute (·.failPhase workflowId phaseId reason now)) db

/-! ## One sweep -/

/-- Phase 1: mark the online runtimes with an old heartbeat offline. -/
def markStale (now : DateTime) (timeout : ℤ) :
    List RuntimeEntry → List String × SweepReport × Db → List String × SweepReport × Db
  | [], st => st
  | entry :: rest, (newlyOffline, report, db) =>
    markStale now timeout rest <|
      if entry.status = .online ∧ timeout < now - entry.lastHeartbeat then
        match withTransaction (execute (·.markOffline entry.runtimeId now)) db with
        | (.error _, db) =>
          (newlyOffline,
            { report with errors := report.errors ++ [s!"mark offline {entry.runtimeId}"] }, db)
        | (.ok (), db) =>
          (newlyOffline ++ [entry.runtimeId],
            { report with runtimesMarkedOffline := report.runtimesMarkedOffline + 1 }, db)
      else (newlyOffline, report, db)

/-- Phase 2: fail the active phases of the newly offline runtimes. -/
def failOrphans (now : DateTime) : List (String × String) → SweepReport × Db → SweepReport × Db
  | [], st => st
  | (workflowId, phaseId) :: rest, (report, db) =>
    failOrphans now rest <|
      match failPhase workflowId phaseId "runtime went offline" now db with
      | (.error _, db) =>
        ({ report with errors := report.errors ++ [s!"orphan fail {workflowId}/{phaseId}"] }, db)
      | (.ok (), db) =>
        ({ report with phasesOrphanFailed := report.phasesOrphanFailed + 1 }, db)

/-- The loop of phase 3, which stops at the first error. -/
def failOffline (now : DateTime) : List (String × String) → Db → Except StoreError Unit × Db
  | [], db => (.ok (), db)
  | (workflowId, phaseId) :: rest, db =>
    match failPhase workflowId phaseId "runtime went offline" now db with
    | (.error e, db) => (.error e, db)
    | (.ok (), db) => failOffline now rest db

/-- Phase 3: fail the active phases of every offline runtime. -/
def reconcileOfflinePhases (now : DateTime) (db : Db) : Except StoreError ℕ × Db :=
  let orphans := db.activePhasesForRuntimes db.offlineIds
  match failOffline now orphans db with
  | (.error e, db) => (.error e, db)
  | (.ok (), db) => (.ok orphans.length, db)

/-- Run one complete sweep. There is no report when the garbage-collection threshold leaves the
range of times, which is a panic after phase 3. -/
def runSweep (heartbeatTimeout gcRetention : ℕ) (clk : Clock) (rows : RowOrder) (db : Db) :
    Option SweepReport × Db :=
  let now := clk 0
  let (allRuntimes, errors) := db.listAllWithErrors rows fun k => clk (k + 1)
  let timeout := (fromStd heartbeatTimeout).getD (seconds 45)
  let (newlyOffline, report, db) := markStale now timeout allRuntimes ([], { errors }, db)
  let (report, db) := failOrphans now (db.activePhasesForRuntimes newlyOffline) (report, db)
  let (reconciled, db) := reconcileOfflinePhases now db
  let report := match reconciled with
    | .error _ => { report with errors := report.errors ++ ["reconcile"] }
    | .ok count => { report with phasesReconciled := count }
  match checkedSub now ((fromStd gcRetention).getD (days 49)) with
  | none => (none, db)
  | some threshold =>
    match withTransaction (execute (·.gcOffline threshold)) db with
    | (.error _, db') => (some { report with errors := report.errors ++ ["gc"] }, db')
    | (.ok (), db') =>
      (some { report with runtimesGcDeleted := db.runtimes.length - db'.runtimes.length }, db')

end Hymenium
