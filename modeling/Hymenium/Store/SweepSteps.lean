import Hymenium.Foundations.Runs
import Hymenium.Store.Sweeps

/-!
# A sweep statement by statement

`runSweep` is a sweep that nothing interrupts. Other connections may commit between any two of its
statements, and any of its statements may fail; `SweepState` is the sweep between two statements,
with the rows it has read and still has to act on. A sweep that is left alone ends in the database
of `runSweep` (`reaches_runSweep`).
-/

namespace Hymenium

/-- What a sweep is given. -/
structure SweepConfig where
  heartbeatTimeout : ℕ
  gcRetention : ℕ
  clk : Clock
  rows : RowOrder

namespace SweepConfig

variable (config : SweepConfig)

/-- The time the sweep takes for now, once and for all. -/
def now : DateTime := config.clk 0

/-- The age from which a heartbeat is too old. -/
def timeout : ℤ := (fromStd config.heartbeatTimeout).getD (seconds 45)

/-- The entry is to be marked offline. -/
def Stale (entry : RuntimeEntry) : Prop :=
  entry.status = .online ∧ config.timeout < config.now - entry.lastHeartbeat

instance : DecidablePred config.Stale := fun _ => inferInstanceAs (Decidable (_ ∧ _))

end SweepConfig

/-- The number of variables that SQLite takes in one statement. -/
def sqliteVariableLimit : ℕ := 999

/-- What a sweep is about to do, with what it has read. -/
inductive SweepPc where
  | listing
  | marking (entries : List RuntimeEntry) (newlyOffline : List String)
  /-- Phase 2, asking for the phases of `runtimeIds`, batch by batch. -/
  | orphanQuery (runtimeIds : List String) (found : List (String × String))
  | failing (orphans : List (String × String))
  | offlineQuery
  /-- Phase 3, asking for the phases of `runtimeIds`, batch by batch. -/
  | reconcileQuery (runtimeIds : List String) (found : List (String × String))
  | reconciling (orphans : List (String × String))
  | gc
  | finished
  /-- The subtraction of the retention has panicked. -/
  | panicked

/-- A sweep and the database, between two statements. -/
structure SweepState where
  pc : SweepPc
  db : Db

/-- Something that happens during a sweep: another connection commits a transaction, or the next
statement of the sweep succeeds, or it fails. -/
inductive SweepEvent where
  | other (txn : Db → Db)
  | statement
  | busy

/-- The next statement of the sweep, or the turn of a loop that has no statement. -/
def SweepState.statement (config : SweepConfig) (s : SweepState) : SweepState :=
  match s.pc with
  | .listing =>
    ⟨.marking (s.db.listAllWithErrors config.rows fun k => config.clk (k + 1)).1 [], s.db⟩
  | .marking [] newlyOffline => ⟨.orphanQuery newlyOffline [], s.db⟩
  | .marking (entry :: rest) newlyOffline =>
    if config.Stale entry then
      match withTransaction (execute (·.markOffline entry.runtimeId config.now)) s.db with
      | (.error _, db) => ⟨.marking rest newlyOffline, db⟩
      | (.ok (), db) => ⟨.marking rest (newlyOffline ++ [entry.runtimeId]), db⟩
    else ⟨.marking rest newlyOffline, s.db⟩
  | .orphanQuery [] found => ⟨.failing found, s.db⟩
  | .orphanQuery runtimeIds found =>
    ⟨.orphanQuery (runtimeIds.drop sqliteVariableLimit)
      (found ++ s.db.activePhasesForRuntimes (runtimeIds.take sqliteVariableLimit)), s.db⟩
  | .failing [] => ⟨.offlineQuery, s.db⟩
  | .failing (orphan :: rest) =>
    ⟨.failing rest, (failPhase orphan.1 orphan.2 "runtime went offline" config.now s.db).2⟩
  | .offlineQuery => ⟨.reconcileQuery s.db.offlineIds [], s.db⟩
  | .reconcileQuery [] found => ⟨.reconciling found, s.db⟩
  | .reconcileQuery runtimeIds found =>
    ⟨.reconcileQuery (runtimeIds.drop sqliteVariableLimit)
      (found ++ s.db.activePhasesForRuntimes (runtimeIds.take sqliteVariableLimit)), s.db⟩
  | .reconciling [] => ⟨.gc, s.db⟩
  | .reconciling (orphan :: rest) =>
    match failPhase orphan.1 orphan.2 "runtime went offline" config.now s.db with
    | (.error _, db) => ⟨.gc, db⟩
    | (.ok (), db) => ⟨.reconciling rest, db⟩
  | .gc =>
    match checkedSub config.now ((fromStd config.gcRetention).getD (days 49)) with
    | none => ⟨.panicked, s.db⟩
    | some threshold => ⟨.finished, (withTransaction (execute (·.gcOffline threshold)) s.db).2⟩
  | .finished | .panicked => s

/-- Where the sweep goes on when its next statement fails. -/
def SweepState.busy (config : SweepConfig) (s : SweepState) : SweepState :=
  match s.pc with
  | .listing => { s with pc := .finished }
  | .marking (_ :: rest) newlyOffline => { s with pc := .marking rest newlyOffline }
  | .orphanQuery (_ :: _) _ => { s with pc := .offlineQuery }
  | .failing (_ :: rest) => { s with pc := .failing rest }
  | .offlineQuery => { s with pc := .gc }
  | .reconcileQuery (_ :: _) _ => { s with pc := .gc }
  | .reconciling (_ :: _) => { s with pc := .gc }
  | .gc =>
    match checkedSub config.now ((fromStd config.gcRetention).getD (days 49)) with
    | none => { s with pc := .panicked }
    | some _ => { s with pc := .finished }
  -- there is no statement in these turns
  | _ => s.statement config

/-- One step of a sweep among other connections. -/
def sweepStep (config : SweepConfig) (s : SweepState) : SweepEvent → SweepState
  | .other txn => { s with db := txn s.db }
  | .statement => s.statement config
  | .busy => s.busy config

/-- The state of a sweep before its first statement. -/
def SweepState.start (db : Db) : SweepState := ⟨.listing, db⟩

/-- The state a sweep reaches among other connections. -/
abbrev runSweepSteps (config : SweepConfig) (s : SweepState) (es : List SweepEvent) : SweepState :=
  Runs.run (sweepStep config) s es

/-! ## Statements that always succeed -/

/-- What `fail_phase` writes to a phase row. -/
def PhaseRow.failActive (reason : String) (now : DateTime) (row : PhaseRow) : PhaseRow :=
  if row.status = "active" then
    { row with
      status := "failed", completedAt := some (.encoded now), failureReason := some reason }
  else row

/-- What `fail_phase` writes to a workflow row. -/
def WorkflowRow.failOpen (now : DateTime) (row : WorkflowRow) : WorkflowRow :=
  if row.status ∉ ["completed", "cancelled", "user_terminated"] then
    { row with status := "failed", updatedAt := .encoded now }
  else row

namespace Tables

variable {t : Tables} {reason : String} {now : DateTime}

theorem key_failActive (row : PhaseRow) : (row.failActive reason now).key = row.key := by
  unfold PhaseRow.failActive
  split_ifs <;> rfl

theorem workflowId_failOpen (row : WorkflowRow) :
    (row.failOpen now).workflowId = row.workflowId := by
  unfold WorkflowRow.failOpen
  split_ifs <;> rfl

theorem contentHash_failOpen (row : WorkflowRow) :
    (row.failOpen now).contentHash = row.contentHash := by
  unfold WorkflowRow.failOpen
  split_ifs <;> rfl

theorem live_of_failOpen {row : WorkflowRow} (h : (row.failOpen now).Live) : row.Live := by
  unfold WorkflowRow.failOpen at h
  split_ifs at h
  · exact h
  · exact absurd h (by simp [WorkflowRow.Live, terminalStatuses])

theorem failActive_failActive (row : PhaseRow) :
    (row.failActive reason now).failActive reason now = row.failActive reason now := by
  unfold PhaseRow.failActive
  split_ifs <;> simp_all

theorem failOpen_failOpen (row : WorkflowRow) :
    (row.failOpen now).failOpen now = row.failOpen now := by
  unfold WorkflowRow.failOpen
  split_ifs <;> simp_all

/-- A failed phase breaks no constraint: the keys stay, and a workflow that was not live does not
become live. -/
theorem Constraints.failPhase (hc : t.Constraints) (workflowId phaseId : String) :
    (t.failPhase workflowId phaseId reason now).Constraints := by
  have hkeys : (Keyed.update PhaseRow.key (workflowId, phaseId) (·.failActive reason now)
      t.phaseStates).map PhaseRow.key = t.phaseStates.map PhaseRow.key :=
    Keyed.map_key_update key_failActive t.phaseStates
  have hphases : ({ t with
      phaseStates := Keyed.update PhaseRow.key (workflowId, phaseId) (·.failActive reason now)
        t.phaseStates } : Tables).Constraints := by
    refine ⟨hc.workflowKeys, ?_, hc.outcomeKeys, hc.runtimeKeys, hc.activeHashes, ?_,
      hc.transitionOwners⟩
    · rw [hkeys]
      exact hc.phaseKeys
    · intro row hrow
      have hkey : row.key ∈ t.phaseStates.map PhaseRow.key := by
        rw [← hkeys]
        exact List.mem_map_of_mem hrow
      obtain ⟨old, hold, heq⟩ := List.mem_map.mp hkey
      have hid : old.workflowId = row.workflowId := congrArg Prod.fst heq
      rw [← hid]
      exact hc.phaseOwners old hold
  exact hphases.update workflowId_failOpen contentHash_failOpen fun row _ hlive =>
    .inl (live_of_failOpen hlive)

theorem Constraints.markOffline (hc : t.Constraints) (runtimeId : String) :
    (t.markOffline runtimeId now).Constraints := by
  refine ⟨hc.workflowKeys, hc.phaseKeys, hc.outcomeKeys, ?_, hc.activeHashes, hc.phaseOwners,
    hc.transitionOwners⟩
  unfold Tables.markOffline
  rw [Keyed.map_key_update fun row => by split_ifs <;> rfl]
  exact hc.runtimeKeys

/-- Fail phases one after the other. -/
def failPhases (t : Tables) (reason : String) (now : DateTime) (orphans : List (String × String)) :
    Tables :=
  orphans.foldl (fun t orphan => t.failPhase orphan.1 orphan.2 reason now) t

/-- Failing phases one after the other writes each row once: the order does not matter. -/
theorem failPhases_eq (t : Tables) (orphans : List (String × String)) :
    t.failPhases reason now orphans =
      { t with
        phaseStates := t.phaseStates.map fun row =>
          if row.key ∈ orphans then row.failActive reason now else row
        workflows := t.workflows.map fun row =>
          if row.workflowId ∈ orphans.map Prod.fst then row.failOpen now else row } := by
  have hfold : t.failPhases reason now orphans =
      { t with
        phaseStates := orphans.foldl
          (fun rows k => Keyed.update PhaseRow.key k (·.failActive reason now) rows) t.phaseStates
        workflows := (orphans.map Prod.fst).foldl
          (fun rows k => Keyed.update (·.workflowId) k (·.failOpen now) rows) t.workflows } := by
    unfold failPhases
    induction orphans generalizing t with
    | nil => rfl
    | cons orphan orphans ih =>
      rw [List.foldl_cons, ih]
      rfl
  rw [hfold, Keyed.foldl_update key_failActive failActive_failActive,
    Keyed.foldl_update workflowId_failOpen failOpen_failOpen]
  congr!

theorem failPhases_congr (t : Tables) {orphans orphans' : List (String × String)}
    (h : ∀ o, o ∈ orphans ↔ o ∈ orphans') :
    t.failPhases reason now orphans = t.failPhases reason now orphans' := by
  have hids : ∀ id, id ∈ orphans.map Prod.fst ↔ id ∈ orphans'.map Prod.fst := by
    intro id
    simp only [List.mem_map, h]
  simp only [failPhases_eq, h, hids]

end Tables

section Alone

variable {config : SweepConfig} {db : Db} {reason : String} {now : DateTime}

theorem withTransaction_execute_ok {f : Tables → Tables} (hc : (f db.toTables).Constraints) :
    withTransaction (execute f) db = (.ok (), ⟨f db.toTables, hc⟩) :=
  withTransaction_ok (Txn.execute_ok.mpr ⟨hc, rfl⟩)

theorem failPhase_ok (workflowId phaseId : String) :
    failPhase workflowId phaseId reason now db =
      (.ok (), ⟨db.toTables.failPhase workflowId phaseId reason now,
        db.constraints.failPhase workflowId phaseId⟩) :=
  withTransaction_execute_ok (f := (·.failPhase workflowId phaseId reason now)) _

variable (config) in
/-- The database after a phase was failed. -/
def failedPhase (orphan : String × String) (db : Db) : Db :=
  ⟨db.toTables.failPhase orphan.1 orphan.2 "runtime went offline" config.now,
    db.constraints.failPhase orphan.1 orphan.2⟩

variable (config) in
/-- The database after a runtime was marked offline. -/
def markedOffline (runtimeId : String) (db : Db) : Db :=
  ⟨db.toTables.markOffline runtimeId config.now, db.constraints.markOffline runtimeId⟩

theorem failOrphans_tables (orphans : List (String × String)) (report : SweepReport) (db : Db) :
    (failOrphans now orphans (report, db)).2.toTables =
      db.failPhases "runtime went offline" now orphans := by
  induction orphans generalizing report db with
  | nil => rfl
  | cons orphan rest ih =>
    rw [failOrphans, failPhase_ok]
    exact ih _ _

theorem failOffline_tables (orphans : List (String × String)) (db : Db) :
    (failOffline now orphans db).2.toTables =
      db.failPhases "runtime went offline" now orphans := by
  induction orphans generalizing db with
  | nil => rfl
  | cons orphan rest ih =>
    rw [failOffline, failPhase_ok]
    exact ih _

/-! ## A sweep that is left alone -/

variable (config) in
/-- The sweep gets from one state to another by statements of its own that succeed. -/
def Reaches (s s' : SweepState) : Prop :=
  ∃ n, runSweepSteps config s (List.replicate n .statement) = s'

theorem Reaches.refl (s : SweepState) : Reaches config s s := ⟨0, rfl⟩

theorem Reaches.trans {a b c : SweepState} (h : Reaches config a b) (h' : Reaches config b c) :
    Reaches config a c := by
  obtain ⟨m, rfl⟩ := h
  obtain ⟨n, rfl⟩ := h'
  refine ⟨m + n, ?_⟩
  rw [List.replicate_add]
  exact Runs.run_append ..

theorem Reaches.head {s s' : SweepState} (h : Reaches config (s.statement config) s') :
    Reaches config s s' := by
  obtain ⟨n, hn⟩ := h
  exact ⟨n + 1, hn⟩

/-- The turn of a stale entry marks its runtime. -/
theorem statement_stale {entry : RuntimeEntry} (h : config.Stale entry)
    (rest : List RuntimeEntry) (newlyOffline : List String) (db : Db) :
    SweepState.statement config ⟨.marking (entry :: rest) newlyOffline, db⟩ =
      ⟨.marking rest (newlyOffline ++ [entry.runtimeId]),
        markedOffline config entry.runtimeId db⟩ := by
  have hok := withTransaction_execute_ok (f := (·.markOffline entry.runtimeId config.now))
    (db.constraints.markOffline entry.runtimeId)
  unfold SweepState.statement
  simp only [if_pos h, hok]
  rfl

theorem statement_fresh {entry : RuntimeEntry} (h : ¬ config.Stale entry)
    (rest : List RuntimeEntry) (newlyOffline : List String) (db : Db) :
    SweepState.statement config ⟨.marking (entry :: rest) newlyOffline, db⟩ =
      ⟨.marking rest newlyOffline, db⟩ := by
  unfold SweepState.statement
  simp only [if_neg h]

theorem statement_failing (orphan : String × String) (rest : List (String × String)) (db : Db) :
    SweepState.statement config ⟨.failing (orphan :: rest), db⟩ =
      ⟨.failing rest, failedPhase config orphan db⟩ := by
  show SweepState.mk _ _ = _
  rw [failPhase_ok]
  rfl

theorem statement_reconciling (orphan : String × String) (rest : List (String × String))
    (db : Db) : SweepState.statement config ⟨.reconciling (orphan :: rest), db⟩ =
      ⟨.reconciling rest, failedPhase config orphan db⟩ := by
  show (match failPhase orphan.1 orphan.2 "runtime went offline" config.now db with
    | (.error _, db) => (⟨.gc, db⟩ : SweepState)
    | (.ok (), db) => ⟨.reconciling rest, db⟩) = _
  rw [failPhase_ok]
  rfl

theorem reaches_marking (entries : List RuntimeEntry) (newlyOffline : List String)
    (report : SweepReport) (db : Db) :
    Reaches config ⟨.marking entries newlyOffline, db⟩
      ⟨.orphanQuery (markStale config.now config.timeout entries (newlyOffline, report, db)).1 [],
        (markStale config.now config.timeout entries (newlyOffline, report, db)).2.2⟩ := by
  induction entries generalizing newlyOffline report db with
  | nil => exact Reaches.head (.refl _)
  | cons entry rest ih =>
    refine Reaches.head ?_
    rw [markStale]
    by_cases hstale : entry.status = .online ∧ config.timeout < config.now - entry.lastHeartbeat
    · have hok := withTransaction_execute_ok (f := (·.markOffline entry.runtimeId config.now))
        (db.constraints.markOffline entry.runtimeId)
      rw [statement_stale hstale, if_pos hstale, hok]
      exact ih _ _ _
    · rw [statement_fresh hstale, if_neg hstale]
      exact ih _ _ _

theorem mem_activePhasesForRuntimes {t : Tables} {runtimeIds : List String}
    {orphan : String × String} : orphan ∈ t.activePhasesForRuntimes runtimeIds ↔
      ∃ row ∈ t.phaseStates, row.key = orphan ∧ row.status = "active" ∧
        ∃ agent ∈ row.agentId, agent ∈ runtimeIds := by
  simp only [Tables.activePhasesForRuntimes, List.mem_map, List.mem_filter, decide_eq_true_eq]
  constructor
  · rintro ⟨row, ⟨hrow, hactive, hagent⟩, hkey⟩
    exact ⟨row, hrow, hkey, hactive, hagent⟩
  · rintro ⟨row, hrow, hkey, hactive, hagent⟩
    exact ⟨row, ⟨hrow, hactive, hagent⟩, hkey⟩

/-- Asking batch by batch finds what one query would find. -/
theorem mem_activePhases_batches {t : Tables} (runtimeIds : List String)
    (orphan : String × String) : orphan ∈ t.activePhasesForRuntimes runtimeIds ↔
      orphan ∈ t.activePhasesForRuntimes (runtimeIds.take sqliteVariableLimit) ∨
        orphan ∈ t.activePhasesForRuntimes (runtimeIds.drop sqliteVariableLimit) := by
  simp only [mem_activePhasesForRuntimes]
  have hmem : ∀ agent, agent ∈ runtimeIds ↔ agent ∈ runtimeIds.take sqliteVariableLimit ∨
      agent ∈ runtimeIds.drop sqliteVariableLimit := by
    intro agent
    rw [← List.mem_append, List.take_append_drop]
  constructor
  · rintro ⟨row, hrow, hkey, hactive, agent, hagent, hid⟩
    rcases (hmem agent).mp hid with hid | hid
    · exact .inl ⟨row, hrow, hkey, hactive, agent, hagent, hid⟩
    · exact .inr ⟨row, hrow, hkey, hactive, agent, hagent, hid⟩
  · rintro (⟨row, hrow, hkey, hactive, agent, hagent, hid⟩ |
      ⟨row, hrow, hkey, hactive, agent, hagent, hid⟩)
    · exact ⟨row, hrow, hkey, hactive, agent, hagent, (hmem agent).mpr (.inl hid)⟩
    · exact ⟨row, hrow, hkey, hactive, agent, hagent, (hmem agent).mpr (.inr hid)⟩

variable (config) in
/-- The two loops over batches, as one. -/
theorem reaches_query (query : List String → List (String × String) → SweepPc)
    (next : List (String × String) → SweepPc)
    (hnil : ∀ found db, SweepState.statement config ⟨query [] found, db⟩ = ⟨next found, db⟩)
    (hcons : ∀ id ids found db, SweepState.statement config ⟨query (id :: ids) found, db⟩ =
      ⟨query ((id :: ids).drop sqliteVariableLimit)
        (found ++ db.activePhasesForRuntimes ((id :: ids).take sqliteVariableLimit)), db⟩)
    (runtimeIds : List String) (found : List (String × String)) (db : Db) :
    ∃ orphans, Reaches config ⟨query runtimeIds found, db⟩ ⟨next orphans, db⟩ ∧
      ∀ o, o ∈ orphans ↔ o ∈ found ∨ o ∈ db.activePhasesForRuntimes runtimeIds := by
  -- every batch takes at least one id
  induction hlen : runtimeIds.length using Nat.strong_induction_on generalizing runtimeIds found
    with
  | _ n ih =>
  cases runtimeIds with
  | nil =>
    refine ⟨found, Reaches.head ?_, fun o => ?_⟩
    · rw [hnil]
      exact .refl _
    · simp [mem_activePhasesForRuntimes]
  | cons id ids =>
    obtain ⟨orphans, hreach, hmem⟩ := ih ((id :: ids).drop sqliteVariableLimit).length
      (by rw [← hlen, List.length_drop, List.length_cons, sqliteVariableLimit]; omega)
      ((id :: ids).drop sqliteVariableLimit)
      (found ++ db.activePhasesForRuntimes ((id :: ids).take sqliteVariableLimit)) rfl
    refine ⟨orphans, Reaches.head ?_, fun o => ?_⟩
    · rw [hcons]
      exact hreach
    · rw [hmem, List.mem_append, mem_activePhases_batches (id :: ids) o, or_assoc]

variable (config) in
theorem reaches_failing (orphans : List (String × String)) (db : Db) :
    ∃ db', Reaches config ⟨.failing orphans, db⟩ ⟨.offlineQuery, db'⟩ ∧
      db'.toTables = db.failPhases "runtime went offline" config.now orphans := by
  induction orphans generalizing db with
  | nil => exact ⟨db, Reaches.head (.refl _), rfl⟩
  | cons orphan rest ih =>
    obtain ⟨db', hreach, htables⟩ := ih (failedPhase config orphan db)
    refine ⟨db', Reaches.head ?_, htables⟩
    rw [statement_failing]
    exact hreach

variable (config) in
theorem reaches_reconciling (orphans : List (String × String)) (db : Db) :
    ∃ db', Reaches config ⟨.reconciling orphans, db⟩ ⟨.gc, db'⟩ ∧
      db'.toTables = db.failPhases "runtime went offline" config.now orphans := by
  induction orphans generalizing db with
  | nil => exact ⟨db, Reaches.head (.refl _), rfl⟩
  | cons orphan rest ih =>
    obtain ⟨db', hreach, htables⟩ := ih (failedPhase config orphan db)
    refine ⟨db', Reaches.head ?_, htables⟩
    rw [statement_reconciling]
    exact hreach

/-- Where a sweep with this report ends. -/
def sweepEnd (report : Option SweepReport) : SweepPc :=
  if report.isSome then .finished else .panicked

/-- **Left alone**, a sweep ends in the database of `runSweep`, and panics when that has no
report. -/
theorem reaches_runSweep (config : SweepConfig) (db : Db) :
    let run := runSweep config.heartbeatTimeout config.gcRetention config.clk config.rows db
    Reaches config (.start db) ⟨sweepEnd run.1, run.2⟩ := by
  intro run
  let listed := db.listAllWithErrors config.rows fun k => config.clk (k + 1)
  let marked := markStale config.now config.timeout listed.1 ([], { errors := listed.2 }, db)
  have hlist : Reaches config (.start db) ⟨.marking listed.1 [], db⟩ := Reaches.head (.refl _)
  have hmark : Reaches config ⟨.marking listed.1 [], db⟩ ⟨.orphanQuery marked.1 [], marked.2.2⟩ :=
    reaches_marking _ _ _ _
  obtain ⟨orphans, horphans, hmem⟩ := reaches_query config .orphanQuery
    .failing (fun _ _ => rfl) (fun _ _ _ _ => rfl) marked.1 [] marked.2.2
  obtain ⟨db₁, hfail, htables₁⟩ := reaches_failing config orphans marked.2.2
  have hask : Reaches config ⟨.offlineQuery, db₁⟩ ⟨.reconcileQuery db₁.offlineIds [], db₁⟩ :=
    Reaches.head (.refl _)
  obtain ⟨offline, hoffline, hmem'⟩ := reaches_query config .reconcileQuery
    .reconciling (fun _ _ => rfl) (fun _ _ _ _ => rfl) db₁.offlineIds [] db₁
  obtain ⟨db₂, hreconcile, htables₂⟩ := reaches_reconciling config offline db₁
  have hgc : Reaches config ⟨.gc, db₂⟩ (SweepState.statement config ⟨.gc, db₂⟩) :=
    Reaches.head (.refl _)
  have hdb₁ : db₁ = (failOrphans config.now (marked.2.2.activePhasesForRuntimes marked.1)
      (marked.2.1, marked.2.2)).2 := by
    apply Db.ext_tables
    rw [htables₁, failOrphans_tables]
    exact Tables.failPhases_congr _ fun o => by simp [hmem o]
  have hdb₂ : db₂ = (reconcileOfflinePhases config.now db₁).2 := by
    apply Db.ext_tables
    rw [htables₂, reconcileOfflinePhases_snd, failOffline_tables]
    exact Tables.failPhases_congr _ fun o => by simp [hmem' o]
  have hend : SweepState.statement config ⟨.gc, db₂⟩ = ⟨sweepEnd run.1, run.2⟩ := by
    rw [hdb₂, hdb₁]
    unfold SweepState.statement
    simp only [SweepConfig.now, SweepConfig.timeout, marked, listed, run, runSweep]
    cases checkedSub (config.clk 0) ((fromStd config.gcRetention).getD (days 49)) with
    | none => rfl
    | some threshold =>
      simp only
      split <;> rename_i heq <;> rw [heq] <;> rfl
  rw [← hend]
  exact hlist.trans (hmark.trans (horphans.trans (hfail.trans (hask.trans (hoffline.trans
    (hreconcile.trans hgc))))))

end Alone

end Hymenium
