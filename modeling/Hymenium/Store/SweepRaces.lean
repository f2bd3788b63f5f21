import Hymenium.Store.SweepSteps

/-!
# Sweeps among other connections

A sweep acts on rows it has read some statements ago. `fail_phase` fails a workflow even when the
phase it is about is no longer active; `mark_offline` marks a runtime even when a heartbeat has come
in since the listing. For both, the condition on the state before a step under which the step does
no harm is exact.
-/

namespace Hymenium

namespace Tables

/-- The phase row of a key. -/
def phase (t : Tables) (key : String × String) : Option PhaseRow :=
  Keyed.find PhaseRow.key key t.phaseStates

/-- The row of a runtime. -/
def runtime (t : Tables) (runtimeId : String) : Option RuntimeRow :=
  Keyed.find (·.runtimeId) runtimeId t.runtimes

end Tables

namespace SweepState

/-- The phase that the next statement fails, if that is what it does. -/
def failing (s : SweepState) : Option (String × String) :=
  match s.pc with
  | .failing (orphan :: _) => some orphan
  | .reconciling (orphan :: _) => some orphan
  | _ => none

/-- The runtime that the next statement marks offline, if that is what it does. -/
def marking (config : SweepConfig) (s : SweepState) : Option String :=
  match s.pc with
  | .marking (entry :: _) _ => if config.Stale entry then some entry.runtimeId else none
  | _ => none

end SweepState

section Views

variable {config : SweepConfig} {db : Db}

@[simp] theorem phase_failedPhase (orphan key : String × String) :
    (failedPhase config orphan db).phase key =
      if key = orphan then
        (db.phase key).map (·.failActive "runtime went offline" config.now)
      else db.phase key :=
  Keyed.find_update Tables.key_failActive db.phaseStates

@[simp] theorem workflow_failedPhase (orphan : String × String) (id : WorkflowId) :
    (failedPhase config orphan db).workflow id =
      if id = orphan.1 then (db.workflow id).map (·.failOpen config.now) else db.workflow id :=
  Keyed.find_update Tables.workflowId_failOpen db.workflows

@[simp] theorem runtime_failedPhase (orphan : String × String) (r : String) :
    (failedPhase config orphan db).runtime r = db.runtime r := rfl

@[simp] theorem phase_markedOffline (r : String) (key : String × String) :
    (markedOffline config r db).phase key = db.phase key := rfl

@[simp] theorem workflow_markedOffline (r : String) (id : WorkflowId) :
    (markedOffline config r db).workflow id = db.workflow id := rfl

variable (config db) in
theorem runtime_markedOffline (r r' : String) :
    (markedOffline config r db).runtime r' =
      if r' = r then (db.runtime r').map (fun row =>
        if row.status = "offline" then row
        else { row with status := "offline", wentOfflineAt := some config.now })
      else db.runtime r' :=
  Keyed.find_update (fun row => by split_ifs <;> rfl) db.runtimes

/-- The database after the garbage collection, when its threshold is in range. -/
def collected (config : SweepConfig) (db : Db) : Db :=
  (SweepState.statement config ⟨.gc, db⟩).db

theorem statement_gc (config : SweepConfig) (db : Db) :
    ∃ pc, (pc = .finished ∨ pc = .panicked) ∧
      SweepState.statement config ⟨.gc, db⟩ = ⟨pc, collected config db⟩ := by
  unfold collected SweepState.statement
  simp only
  cases checkedSub config.now ((fromStd config.gcRetention).getD (days 49)) with
  | none => exact ⟨_, .inr rfl, rfl⟩
  | some threshold => exact ⟨_, .inl rfl, rfl⟩

/-- A failed garbage collection ends the sweep. -/
theorem busy_gc (config : SweepConfig) (db : Db) :
    ∃ pc, (pc = .finished ∨ pc = .panicked) ∧ SweepState.busy config ⟨.gc, db⟩ = ⟨pc, db⟩ := by
  unfold SweepState.busy
  simp only
  cases checkedSub config.now ((fromStd config.gcRetention).getD (days 49)) with
  | none => exact ⟨_, .inr rfl, rfl⟩
  | some threshold => exact ⟨_, .inl rfl, rfl⟩

theorem collected_tables (config : SweepConfig) (db : Db) :
    (collected config db).toTables = db.toTables ∨
      ∃ threshold, (collected config db).toTables = db.gcOffline threshold := by
  unfold collected SweepState.statement
  simp only
  cases checkedSub config.now ((fromStd config.gcRetention).getD (days 49)) with
  | none => exact .inl rfl
  | some threshold =>
    rcases withTransaction_execute (·.gcOffline threshold) db with ⟨e, heq⟩ | ⟨db', heq, htables⟩
    · left
      simp only [heq]
    · simp only [heq]
      exact .inr ⟨threshold, htables⟩

@[simp] theorem phase_collected (key : String × String) :
    (collected config db).phase key = db.phase key := by
  rcases collected_tables config db with h | ⟨threshold, h⟩ <;> rw [h]
  rfl

@[simp] theorem workflow_collected (id : WorkflowId) :
    (collected config db).workflow id = db.workflow id := by
  rcases collected_tables config db with h | ⟨threshold, h⟩ <;> rw [h]
  rfl

/-- The garbage collection keeps rows or deletes them. -/
theorem runtime_of_collected {r : String} {row : RuntimeRow}
    (h : (collected config db).runtime r = some row) : db.runtime r = some row := by
  rcases collected_tables config db with heq | ⟨threshold, heq⟩ <;> rw [heq] at h
  · exact h
  · obtain ⟨hmem, hid⟩ := Keyed.find_eq_some h
    have hrow := Keyed.find_of_mem db.constraints.runtimeKeys (List.mem_filter.mp hmem).1
    rw [hid] at hrow
    exact hrow

end Views

/-- What the next statement of a sweep does to the database. -/
theorem statement_db (config : SweepConfig) (s : SweepState) :
    (∃ orphan, s.failing = some orphan ∧
      (s.statement config).db = failedPhase config orphan s.db) ∨
    (∃ r, s.failing = none ∧ s.marking config = some r ∧
      (s.statement config).db = markedOffline config r s.db) ∨
    s.failing = none ∧ s.marking config = none ∧
      ((s.statement config).db = s.db ∨ (s.statement config).db = collected config s.db) := by
  obtain ⟨pc, db⟩ := s
  cases pc with
  | marking entries newlyOffline =>
    cases entries with
    | nil => exact .inr (.inr ⟨rfl, rfl, .inl rfl⟩)
    | cons entry rest =>
      by_cases h : config.Stale entry
      · refine .inr (.inl ⟨entry.runtimeId, rfl, if_pos h, ?_⟩)
        rw [statement_stale h]
      · refine .inr (.inr ⟨rfl, if_neg h, .inl ?_⟩)
        rw [statement_fresh h]
  | failing orphans =>
    cases orphans with
    | nil => exact .inr (.inr ⟨rfl, rfl, .inl rfl⟩)
    | cons orphan rest =>
      refine .inl ⟨orphan, rfl, ?_⟩
      rw [statement_failing]
  | reconciling orphans =>
    cases orphans with
    | nil => exact .inr (.inr ⟨rfl, rfl, .inl rfl⟩)
    | cons orphan rest =>
      refine .inl ⟨orphan, rfl, ?_⟩
      rw [statement_reconciling]
  | orphanQuery runtimeIds found =>
    cases runtimeIds with
    | nil => exact .inr (.inr ⟨rfl, rfl, .inl rfl⟩)
    | cons id ids => exact .inr (.inr ⟨rfl, rfl, .inl rfl⟩)
  | reconcileQuery runtimeIds found =>
    cases runtimeIds with
    | nil => exact .inr (.inr ⟨rfl, rfl, .inl rfl⟩)
    | cons id ids => exact .inr (.inr ⟨rfl, rfl, .inl rfl⟩)
  | gc => exact .inr (.inr ⟨rfl, rfl, .inr rfl⟩)
  | listing => exact .inr (.inr ⟨rfl, rfl, .inl rfl⟩)
  | offlineQuery => exact .inr (.inr ⟨rfl, rfl, .inl rfl⟩)
  | finished => exact .inr (.inr ⟨rfl, rfl, .inl rfl⟩)
  | panicked => exact .inr (.inr ⟨rfl, rfl, .inl rfl⟩)

/-- A statement that fails writes nothing. -/
theorem busy_db (config : SweepConfig) (s : SweepState) :
    (s.busy config).db = s.db := by
  obtain ⟨pc, db⟩ := s
  cases pc with
  | marking entries newlyOffline => cases entries <;> rfl
  | failing orphans => cases orphans <;> rfl
  | reconciling orphans => cases orphans <;> rfl
  | orphanQuery runtimeIds found => cases runtimeIds <;> rfl
  | reconcileQuery runtimeIds found => cases runtimeIds <;> rfl
  | listing => rfl
  | offlineQuery => rfl
  | gc =>
    obtain ⟨pc, -, heq⟩ := busy_gc config db
    rw [heq]
  | finished => rfl
  | panicked => rfl

/-! ## Failing what was orphaned -/

/-- A transaction that fails a workflow fails an active phase of it. -/
def FailsTogether (db db' : Db) : Prop :=
  ∀ id row row', db.workflow id = some row → db'.workflow id = some row' →
    row.status ≠ "failed" → row'.status = "failed" →
    ∃ key p p', key.1 = id ∧ db.phase key = some p ∧ db'.phase key = some p' ∧
      p.status = "active" ∧ p'.status = "failed"

/-- The `fail_phase` transaction of the step, if it is one, fails a workflow only together with one
of its phases. -/
def FailsOrphansOnly (config : SweepConfig) (s : SweepState) : SweepEvent → Prop
  | .other _ => True
  | e => s.failing ≠ none → FailsTogether s.db (sweepStep config s e).db

/-- The phase that the step fails is still active, or its workflow is in a terminal status. -/
def StillOrphaned (s : SweepState) : SweepEvent → Prop
  | .statement => ∀ orphan, s.failing = some orphan →
      (∃ p, s.db.phase orphan = some p ∧ p.status = "active") ∨
        ∀ row, s.db.workflow orphan.1 = some row → ¬ row.Live
  | _ => True

section Failing

variable {config : SweepConfig} {db : Db}

theorem failsTogether_refl (db : Db) : FailsTogether db db := by
  intro id row row' hrow hrow' hne hfailed
  rw [Option.some.inj (hrow.symm.trans hrow')] at hne
  exact absurd hfailed hne

theorem status_failActive {row : PhaseRow} {reason : String} {now : DateTime} :
    (row.failActive reason now).status =
      if row.status = "active" then "failed" else row.status := by
  unfold PhaseRow.failActive
  split_ifs <;> rfl

theorem status_failOpen {row : WorkflowRow} {now : DateTime} :
    (row.failOpen now).status = if row.Live then "failed" else row.status := by
  unfold WorkflowRow.failOpen WorkflowRow.Live terminalStatuses
  by_cases hfailed : row.status = "failed"
  · simp [hfailed]
  · simp only [List.mem_cons, hfailed, List.not_mem_nil, or_false, false_or]
    split_ifs <;> rfl

/-- One `fail_phase` transaction. -/
theorem failsTogether_iff (orphan : String × String) :
    FailsTogether db (failedPhase config orphan db) ↔
      (∃ p, db.phase orphan = some p ∧ p.status = "active") ∨
        ∀ row, db.workflow orphan.1 = some row → ¬ row.Live := by
  constructor
  · intro h
    by_contra hcon
    push Not at hcon
    obtain ⟨hinactive, row, hrow, hlive⟩ := hcon
    have hne : row.status ≠ "failed" := by
      intro hfailed
      rw [WorkflowRow.Live, hfailed] at hlive
      exact hlive (by decide)
    have hrow' : (failedPhase config orphan db).workflow orphan.1 =
        some (row.failOpen config.now) := by
      rw [workflow_failedPhase, if_pos rfl, hrow, Option.map_some]
    obtain ⟨key, p, p', hid, hp, hp', hactive, hfailed⟩ := h _ row _ hrow hrow' hne
      (by rw [status_failOpen, if_pos hlive])
    -- no other phase row changes
    by_cases hkey : key = orphan
    · subst hkey
      exact hinactive p hp hactive
    · rw [phase_failedPhase, if_neg hkey, hp, Option.some.injEq] at hp'
      rw [← hp', hactive] at hfailed
      exact absurd hfailed (by decide)
  · intro h id row row' hrow hrow' hne hfailed
    by_cases hid : id = orphan.1
    · subst hid
      rw [workflow_failedPhase, if_pos rfl, hrow, Option.map_some, Option.some.injEq] at hrow'
      rw [← hrow', status_failOpen] at hfailed
      split_ifs at hfailed with hlive
      · rcases h with ⟨p, hp, hactive⟩ | hsettled
        · refine ⟨orphan, p, p.failActive "runtime went offline" config.now, rfl, hp, ?_, hactive,
            ?_⟩
          · rw [phase_failedPhase, if_pos rfl, hp, Option.map_some]
          · rw [status_failActive, if_pos hactive]
        · exact absurd hlive (hsettled row hrow)
      · exact absurd hfailed hne
    · rw [workflow_failedPhase, if_neg hid, hrow, Option.some.injEq] at hrow'
      rw [hrow'] at hne
      exact absurd hfailed hne

theorem failsOrphansOnly_step (s : SweepState) (e : SweepEvent) :
    FailsOrphansOnly config s e ↔ StillOrphaned s e := by
  cases e with
  | other txn => exact Iff.rfl
  | busy =>
    refine ⟨fun _ => trivial, fun _ _ => ?_⟩
    show FailsTogether s.db (s.busy config).db
    rw [busy_db]
    exact failsTogether_refl s.db
  | statement =>
    show (s.failing ≠ none → FailsTogether s.db (s.statement config).db) ↔ _
    unfold StillOrphaned
    rcases statement_db config s with ⟨orphan, hfailing, hdb⟩ | ⟨r, hfailing, -, -⟩ |
      ⟨hfailing, -, -⟩
    · rw [hfailing, hdb, failsTogether_iff]
      simp
    · simp [hfailing]
    · simp [hfailing]

/-- **Orphans.** In every interleaving with other connections, the `fail_phase` transactions of a
sweep fail a workflow only together with one of its phases exactly when each of them finds its phase
still active, or its workflow in a terminal status. -/
theorem failsOrphansOnly_iff (config : SweepConfig) (db : Db) (es : List SweepEvent) :
    Runs.Meets (sweepStep config) (FailsOrphansOnly config) (.start db) es ↔
      Runs.Meets (sweepStep config) StillOrphaned (.start db) es :=
  Runs.meets_congr failsOrphansOnly_step

/-- A sweep at 100 s with the default timing. -/
def sampleSweep : SweepConfig :=
  ⟨45000000000, 604800000000000, fun k => seconds 100 + k, .stored⟩

/-- The first phase of a workflow, taken up by the runtime `rt`. -/
def activePhase : PhaseState :=
  { PhaseState.new "implement" .worker with status := .active, agentId := some "rt" }

/-- A workflow in progress; its active phase belongs to a runtime last heard of at 0 s. -/
def sampleStore : Db :=
  let inst := WorkflowInstance.new "wf" implAuditDefault "handoff.md" 0
  let inst := { inst with
    status := .inProgress, phaseStates := inst.phaseStates.set 0 activePhase }
  (upsertHeartbeat "rt" 0 (withTransaction (insertWorkflowWithHash inst none) Db.empty).2).2

/-- Another connection completes the phase. -/
def completeImplement (db : Db) : Db :=
  (withTransaction (upsertPhaseState "wf" { activePhase with status := .completed } 0) db).2

/-- Between the orphan query and `fail_phase` the phase is completed: the workflow is failed, and no
phase of it. -/
theorem fails_completed :
    let es := List.replicate 5 SweepEvent.statement ++ [.other completeImplement]
    let s := runSweepSteps sampleSweep (.start sampleStore) es
    s.failing = some ("wf", "implement") ∧
      (s.db.workflow "wf").map (·.status) = some "in_progress" ∧
      ((s.statement sampleSweep).db.workflow "wf").map (·.status) = some "failed" ∧
      (s.statement sampleSweep).db.phaseStates.map (·.status) = ["completed", "pending"] ∧
      ¬ Runs.Meets (sweepStep sampleSweep) (FailsOrphansOnly sampleSweep) (.start sampleStore)
        (es ++ [.statement]) := by
  intro es s
  have hfailing : s.failing = some ("wf", "implement") := by decide +kernel
  have hbefore : (s.db.workflow "wf").map (·.status) = some "in_progress" := by decide +kernel
  have hafter : ((s.statement sampleSweep).db.workflow "wf").map (·.status) = some "failed" := by
    decide +kernel
  have hphases : (s.statement sampleSweep).db.phaseStates.map (·.status) =
      ["completed", "pending"] := by decide +kernel
  refine ⟨hfailing, hbefore, hafter, hphases, fun h => ?_⟩
  obtain ⟨row, hrow, hstatus⟩ := Option.map_eq_some_iff.mp hbefore
  obtain ⟨row', hrow', hstatus'⟩ := Option.map_eq_some_iff.mp hafter
  obtain ⟨key, p, p', -, -, hp', -, hfailed⟩ :=
    (Runs.meets_append.mp h).2.1 (by rw [hfailing]; exact Option.some_ne_none _) "wf" row row'
      hrow hrow' (by rw [hstatus]; decide) hstatus'
  have hmem : p'.status ∈ (s.statement sampleSweep).db.phaseStates.map (·.status) :=
    List.mem_map_of_mem (Keyed.find_eq_some hp').1
  rw [hphases, hfailed] at hmem
  exact absurd hmem (by decide)

end Failing

/-! ## Sparing what is alive -/

/-- The stored heartbeat of the runtime is within the timeout of the sweep's now. -/
def Alive (config : SweepConfig) (t : Tables) (r : String) : Prop :=
  ∃ row at', t.runtime r = some row ∧ row.lastHeartbeat = .encoded at' ∧
    (config.now - at').natAbs ≤ config.heartbeatTimeout

/-- The runtime is not marked offline between two databases, and none of its active phases is
failed. -/
structure Spared (r : String) (db db' : Db) : Prop where
  unmarked : ∀ row row', db.runtime r = some row → db'.runtime r = some row' →
    row'.status = "offline" → row.status = "offline"
  unfailed : ∀ key p p', db.phase key = some p → db'.phase key = some p' → p.agentId = some r →
    p.status = "active" → p'.status ≠ "failed"

/-- A step of the sweep spares the runtimes that are alive when it is taken. -/
def SparesAlive (config : SweepConfig) (s : SweepState) : SweepEvent → Prop
  | .other _ => True
  | e => ∀ r, Alive config s.db.toTables r → Spared r s.db (sweepStep config s e).db

/-- The step marks a runtime that is not alive, or stored offline already, and it fails a phase
whose runtime is not alive, or that is not active. -/
def ActsOnLost (config : SweepConfig) (s : SweepState) : SweepEvent → Prop
  | .statement =>
    (∀ r, s.marking config = some r → Alive config s.db.toTables r →
      ∀ row, s.db.runtime r = some row → row.status = "offline") ∧
    ∀ orphan, s.failing = some orphan → ∀ p r, s.db.phase orphan = some p →
      p.status = "active" → p.agentId = some r → ¬ Alive config s.db.toTables r
  | _ => True

section Sparing

variable {config : SweepConfig} {db : Db} {r : String}

theorem Spared.refl (r : String) (db : Db) : Spared r db db where
  unmarked row row' hrow hrow' hoffline := by
    rwa [Option.some.inj (hrow.symm.trans hrow')]
  unfailed key p p' hp hp' _ hactive hfailed := by
    rw [← Option.some.inj (hp.symm.trans hp'), hactive] at hfailed
    exact absurd hfailed (by decide)

theorem spared_failedPhase_iff (orphan : String × String) :
    Spared r db (failedPhase config orphan db) ↔
      ∀ p, db.phase orphan = some p → p.status = "active" → p.agentId ≠ some r := by
  constructor
  · intro h p hp hactive hagent
    have hafter : (failedPhase config orphan db).phase orphan =
        some (p.failActive "runtime went offline" config.now) := by
      rw [phase_failedPhase, if_pos rfl, hp, Option.map_some]
    exact h.unfailed orphan p _ hp hafter hagent hactive (by rw [status_failActive, if_pos hactive])
  · intro h
    refine ⟨(Spared.refl r db).unmarked, fun key p p' hp hp' hagent hactive => ?_⟩
    by_cases hkey : key = orphan
    · subst hkey
      exact absurd hagent (h p hp hactive)
    · rw [phase_failedPhase, if_neg hkey] at hp'
      exact (Spared.refl r db).unfailed key p p' hp hp' hagent hactive

theorem spared_markedOffline_iff (r' : String) :
    Spared r db (markedOffline config r' db) ↔
      (r = r' → ∀ row, db.runtime r = some row → row.status = "offline") := by
  constructor
  · rintro h rfl row hrow
    have hafter := runtime_markedOffline config db r r
    rw [if_pos rfl, hrow, Option.map_some] at hafter
    refine h.unmarked row _ hrow hafter ?_
    split_ifs with hoffline
    · exact hoffline
    · rfl
  · intro h
    refine ⟨fun row row' hrow hrow' hoffline => ?_, (Spared.refl r db).unfailed⟩
    by_cases hr : r = r'
    · exact h hr row hrow
    · rw [runtime_markedOffline, if_neg hr] at hrow'
      exact (Spared.refl r db).unmarked row row' hrow hrow' hoffline

theorem spared_collected (r : String) (db : Db) : Spared r db (collected config db) where
  unmarked row row' hrow hrow' hoffline :=
    (Spared.refl r db).unmarked row row' hrow (runtime_of_collected hrow') hoffline
  unfailed key p p' hp hp' := by
    rw [phase_collected] at hp'
    exact (Spared.refl r db).unfailed key p p' hp hp'

theorem sparesAlive_step (s : SweepState) (e : SweepEvent) :
    SparesAlive config s e ↔ ActsOnLost config s e := by
  cases e with
  | other txn => exact Iff.rfl
  | busy =>
    refine ⟨fun _ => trivial, fun _ r _ => ?_⟩
    show Spared r s.db (s.busy config).db
    rw [busy_db]
    exact .refl r s.db
  | statement =>
    show (∀ r, Alive config s.db.toTables r → Spared r s.db (s.statement config).db) ↔ _
    unfold ActsOnLost
    rcases statement_db config s with ⟨orphan, hfailing, hdb⟩ | ⟨r', hfailing, hmarking, hdb⟩ |
      ⟨hfailing, hmarking, hdb⟩
    · have hmarking : s.marking config = none := by
        unfold SweepState.failing at hfailing
        unfold SweepState.marking
        split <;> simp_all
      rw [hfailing, hmarking, hdb]
      simp only [spared_failedPhase_iff]
      constructor
      · intro h
        refine ⟨by simp, fun o ho p r hp hactive hagent halive => ?_⟩
        cases ho
        exact h r halive p hp hactive hagent
      · rintro ⟨-, h⟩ r halive p hp hactive hagent
        exact h orphan rfl p r hp hactive hagent halive
    · rw [hfailing, hmarking, hdb]
      simp only [spared_markedOffline_iff]
      constructor
      · intro h
        refine ⟨fun r hr halive => ?_, by simp⟩
        cases hr
        exact h r' halive rfl
      · rintro ⟨h, -⟩ r halive rfl
        exact h r rfl halive
    · rw [hfailing, hmarking]
      refine ⟨fun _ => ⟨by simp, by simp⟩, fun _ r _ => ?_⟩
      rcases hdb with hdb | hdb <;> rw [hdb]
      · exact .refl r s.db
      · exact spared_collected r s.db

/-! ### Heartbeats while the sweep holds a runtime -/

/-- One of the phases is active and belongs to the runtime. -/
def Owns (t : Tables) (r : String) (orphans : List (String × String)) : Prop :=
  ∃ orphan ∈ orphans, ∃ p, t.phase orphan = some p ∧ p.status = "active" ∧ p.agentId = some r

/-- The sweep has read that the runtime is stale or offline, and has not done with it. -/
def SweepState.Holds (config : SweepConfig) (s : SweepState) (r : String) : Prop :=
  match s.pc with
  | .listing | .offlineQuery | .gc | .finished | .panicked => False
  | .marking entries newlyOffline =>
    (∃ entry ∈ entries, config.Stale entry ∧ entry.runtimeId = r) ∨ r ∈ newlyOffline
  | .orphanQuery runtimeIds found => r ∈ runtimeIds ∨ Owns s.db.toTables r found
  | .reconcileQuery runtimeIds found => r ∈ runtimeIds ∨ Owns s.db.toTables r found
  | .failing orphans => Owns s.db.toTables r orphans
  | .reconciling orphans => Owns s.db.toTables r orphans

/-- Other connections send heartbeats only, and none that is recent for a runtime that the sweep
holds. -/
def Undisturbed (config : SweepConfig) (s : SweepState) : SweepEvent → Prop
  | .other txn => ∃ r at', txn = (fun db => (upsertHeartbeat r at' db).2) ∧
      ((config.now - at').natAbs ≤ config.heartbeatTimeout → ¬ s.Holds config r)
  | _ => True

/-- No runtime that is held, or stored offline, is alive. -/
structure Calm (config : SweepConfig) (s : SweepState) : Prop where
  held : ∀ r, s.Holds config r → ¬ Alive config s.db.toTables r
  offline : ∀ r row, s.db.runtime r = some row → row.status = "offline" →
    ¬ Alive config s.db.toTables r

theorem alive_markedOffline (r' : String) :
    Alive config (markedOffline config r' db).toTables r ↔ Alive config db.toTables r := by
  unfold Alive
  rw [runtime_markedOffline]
  split_ifs
  · cases db.runtime r with
    | none => simp
    | some row => by_cases hoffline : row.status = "offline" <;> simp [hoffline]
  · rfl

theorem Alive.of_collected (h : Alive config (collected config db).toTables r) :
    Alive config db.toTables r := by
  obtain ⟨row, at', hrow, hat⟩ := h
  exact ⟨row, at', runtime_of_collected hrow, hat⟩

theorem Owns.of_failedPhase {orphan : String × String} {orphans : List (String × String)}
    (h : Owns (failedPhase config orphan db).toTables r orphans) : Owns db.toTables r orphans := by
  obtain ⟨o, ho, p, hp, hactive, hagent⟩ := h
  refine ⟨o, ho, ?_⟩
  rw [phase_failedPhase] at hp
  split_ifs at hp
  · obtain ⟨q, hq, rfl⟩ := Option.map_eq_some_iff.mp hp
    rw [status_failActive] at hactive
    split_ifs at hactive with hq'
    · exact absurd hactive (by decide)
    · exact absurd hactive hq'
  · exact ⟨p, hp, hactive, hagent⟩

theorem Owns.append {t : Tables} {xs ys : List (String × String)} :
    Owns t r (xs ++ ys) ↔ Owns t r xs ∨ Owns t r ys := by
  simp only [Owns, List.mem_append, or_and_right, exists_or]

theorem Owns.mono {t : Tables} {xs ys : List (String × String)} (hsub : xs ⊆ ys)
    (h : Owns t r xs) : Owns t r ys := by
  obtain ⟨o, ho, hp⟩ := h
  exact ⟨o, hsub ho, hp⟩

/-- The active phases a query finds belong to the runtimes it asks for. -/
theorem owns_activePhases {runtimeIds : List String}
    (h : Owns db.toTables r (db.activePhasesForRuntimes runtimeIds)) : r ∈ runtimeIds := by
  obtain ⟨orphan, horphan, p, hp, -, hagent⟩ := h
  obtain ⟨row, hrow, hkey, -, agent, hrowAgent, hmem⟩ := mem_activePhasesForRuntimes.mp horphan
  have hfind := Keyed.find_of_mem db.constraints.phaseKeys hrow
  rw [hkey] at hfind
  have hsame : p = row := Option.some.inj (hp.symm.trans hfind)
  rw [hsame] at hagent
  rw [Option.mem_def, hagent, Option.some.injEq] at hrowAgent
  rw [hrowAgent]
  exact hmem

/-- An entry of the listing that is stale comes from a row that is not alive. -/
theorem not_alive_of_stale (hhb : fromStd config.heartbeatTimeout ≠ none)
    {entry : RuntimeEntry}
    (hentry : entry ∈ (db.listAllWithErrors config.rows fun k => config.clk (k + 1)).1)
    (hstale : config.Stale entry) : ¬ Alive config db.toTables entry.runtimeId := by
  rintro ⟨row, at', hrow, hat, hrecent⟩
  obtain ⟨i, listed, hlisted, rfl⟩ := Tables.mem_listAllWithErrors.mp hentry
  have hfind := Keyed.find_of_mem db.constraints.runtimeKeys (RowOrder.of_getElem? hlisted).1
  have hsame : row = listed := Option.some.inj (hrow.symm.trans hfind)
  rw [hsame] at hat
  have htimeout : config.timeout = config.heartbeatTimeout := by
    rw [SweepConfig.timeout, fromStd_of_ne_none hhb]
    rfl
  have hage := hstale.2
  rw [htimeout] at hage
  simp only [RuntimeRow.toEntry, hat, readTimestamp] at hage
  omega

/-- The rows after a heartbeat. -/
theorem runtime_upsertHeartbeat (r' : String) (at' : DateTime) (db : Db) :
    (upsertHeartbeat r' at' db).2 = db ∨
      (∀ r, r ≠ r' → (upsertHeartbeat r' at' db).2.runtime r = db.runtime r) ∧
      ∃ row, (upsertHeartbeat r' at' db).2.runtime r' = some row ∧ row.status = "online" ∧
        row.lastHeartbeat = .encoded at' := by
  unfold upsertHeartbeat
  rcases withTransaction_execute (·.heartbeat r' at') db with ⟨e, heq⟩ | ⟨db', heq, htables⟩
  · rw [heq]
    exact .inl rfl
  rw [heq]
  right
  show (∀ r, r ≠ r' → db'.toTables.runtime r = db.runtime r) ∧
    ∃ row, db'.toTables.runtime r' = some row ∧ _
  rw [htables]
  unfold Tables.heartbeat Tables.runtime
  by_cases hknown : r' ∈ db.runtimes.map (·.runtimeId)
  · simp only [if_pos hknown]
    refine ⟨fun r hr => ?_, ?_⟩
    · rw [Keyed.find_update fun _ => by rfl, if_neg hr]
    · obtain ⟨row, hrow⟩ := Keyed.exists_find hknown
      rw [Keyed.find_update fun _ => by rfl, if_pos rfl, hrow]
      exact ⟨_, rfl, rfl, rfl⟩
  · simp only [if_neg hknown]
    refine ⟨fun r hr => ?_, ?_⟩
    · rw [Keyed.find_append_singleton hknown, if_neg hr]
    · rw [Keyed.find_append_singleton hknown, if_pos rfl]
      exact ⟨_, rfl, rfl, rfl⟩

theorem phase_upsertHeartbeat (r' : String) (at' : DateTime) (db : Db) :
    (upsertHeartbeat r' at' db).2.phaseStates = db.phaseStates := by
  unfold upsertHeartbeat
  rcases withTransaction_execute (·.heartbeat r' at') db with ⟨e, heq⟩ | ⟨db', heq, htables⟩ <;>
    rw [heq]
  show db'.toTables.phaseStates = _
  rw [htables]
  rfl

/-- What a sweep holds depends on the phase rows only. -/
theorem SweepState.Holds.congr {pc : SweepPc} {db db' : Db} (h : db'.phaseStates = db.phaseStates)
    {r : String} :
    SweepState.Holds config ⟨pc, db'⟩ r ↔ SweepState.Holds config ⟨pc, db⟩ r := by
  have howns : ∀ orphans, Owns db'.toTables r orphans ↔ Owns db.toTables r orphans := by
    intro orphans
    unfold Owns Tables.phase
    rw [h]
  cases pc <;> simp only [SweepState.Holds, howns]

/-- A heartbeat that does not disturb the sweep. -/
theorem Calm.heartbeat {s : SweepState} (h : Calm config s) {r' : String} {at' : DateTime}
    (hheld : (config.now - at').natAbs ≤ config.heartbeatTimeout → ¬ s.Holds config r') :
    Calm config { s with db := (upsertHeartbeat r' at' s.db).2 } := by
  have hholds : ∀ r, SweepState.Holds config { s with db := (upsertHeartbeat r' at' s.db).2 } r ↔
      s.Holds config r := fun r =>
    SweepState.Holds.congr (phase_upsertHeartbeat r' at' s.db)
  rcases runtime_upsertHeartbeat r' at' s.db with hsame | ⟨hother, row', hrow', honline, hat⟩
  · rw [hsame]
    exact h
  have halive : ∀ r, r ≠ r' →
      (Alive config (upsertHeartbeat r' at' s.db).2.toTables r ↔ Alive config s.db.toTables r) := by
    intro r hr
    unfold Alive
    rw [hother r hr]
  constructor
  · intro r hr
    rw [hholds] at hr
    by_cases heq : r = r'
    · subst heq
      rintro ⟨row, at'', hrow, hat'', hrecent⟩
      rw [Option.some.inj (hrow.symm.trans hrow'), hat, Stored.encoded.injEq] at hat''
      exact hheld (by rw [hat'']; exact hrecent) hr
    · rw [halive r heq]
      exact h.held r hr
  · intro r row hrow hoffline
    by_cases heq : r = r'
    · subst heq
      rw [Option.some.inj (hrow.symm.trans hrow'), honline] at hoffline
      exact absurd hoffline (by decide)
    · rw [halive r heq]
      exact h.offline r row (by rw [← hother r heq]; exact hrow) hoffline

/-- A move that holds no other runtime keeps calm. -/
theorem Calm.move {pc pc' : SweepPc} (h : Calm config ⟨pc, db⟩)
    (hheld : ∀ r, SweepState.Holds config ⟨pc', db⟩ r → SweepState.Holds config ⟨pc, db⟩ r) :
    Calm config ⟨pc', db⟩ :=
  ⟨fun r hr => h.held r (hheld r hr), h.offline⟩

/-- Asking for the next batch of phases holds the runtimes that were held. -/
theorem owns_batch {ids : List String} {found : List (String × String)}
    (h : r ∈ ids.drop sqliteVariableLimit ∨ Owns db.toTables r
      (found ++ db.activePhasesForRuntimes (ids.take sqliteVariableLimit))) :
    r ∈ ids ∨ Owns db.toTables r found := by
  rcases h with h | h
  · exact .inl (List.mem_of_mem_drop h)
  · rcases Owns.append.mp h with h | h
    · exact .inr h
    · exact .inl (List.mem_of_mem_take (owns_activePhases h))

theorem Calm.failedPhase {pc pc' : SweepPc} {orphan : String × String}
    (h : Calm config ⟨pc, db⟩)
    (hheld : ∀ r, SweepState.Holds config ⟨pc', failedPhase config orphan db⟩ r →
      SweepState.Holds config ⟨pc, db⟩ r) :
    Calm config ⟨pc', Hymenium.failedPhase config orphan db⟩ :=
  ⟨fun r hr => h.held r (hheld r hr), h.offline⟩

theorem Calm.markedOffline {entry : RuntimeEntry} {rest : List RuntimeEntry}
    {newlyOffline : List String} (hstale : config.Stale entry)
    (h : Calm config ⟨.marking (entry :: rest) newlyOffline, db⟩) :
    Calm config ⟨.marking rest (newlyOffline ++ [entry.runtimeId]),
      Hymenium.markedOffline config entry.runtimeId db⟩ := by
  have hentry : ¬ Alive config db.toTables entry.runtimeId :=
    h.held _ (.inl ⟨entry, List.mem_cons_self, hstale, rfl⟩)
  constructor
  · intro r hr
    rw [alive_markedOffline]
    rcases hr with ⟨e, he, hs, rfl⟩ | hr
    · exact h.held _ (.inl ⟨e, List.mem_cons_of_mem _ he, hs, rfl⟩)
    · rcases List.mem_append.mp hr with hr | hr
      · exact h.held r (.inr hr)
      · rw [List.mem_singleton.mp hr]
        exact hentry
  · intro r row hrow hoffline
    rw [alive_markedOffline]
    by_cases heq : r = entry.runtimeId
    · rw [heq]
      exact hentry
    · rw [runtime_markedOffline, if_neg heq] at hrow
      exact h.offline r row hrow hoffline

/-- **Step lemma.** A statement of the sweep keeps calm. -/
theorem calm_statement (hhb : fromStd config.heartbeatTimeout ≠ none) {s : SweepState}
    (h : Calm config s) : Calm config (s.statement config) := by
  obtain ⟨pc, db⟩ := s
  cases pc with
  | listing =>
    refine ⟨fun r hr => ?_, h.offline⟩
    rcases hr with ⟨entry, hentry, hstale, rfl⟩ | hr
    · exact not_alive_of_stale hhb hentry hstale
    · cases hr
  | marking entries newlyOffline =>
    cases entries with
    | nil =>
      refine h.move fun r hr => ?_
      rcases hr with hr | ⟨_, hnil, -⟩
      · exact .inr hr
      · cases hnil
    | cons entry rest =>
      by_cases hstale : config.Stale entry
      · rw [statement_stale hstale]
        exact h.markedOffline hstale
      · rw [statement_fresh hstale]
        exact h.move fun r hr =>
          hr.imp_left fun ⟨e, he, hs⟩ => ⟨e, List.mem_cons_of_mem _ he, hs⟩
  | orphanQuery runtimeIds found =>
    cases runtimeIds with
    | nil => exact h.move fun r hr => .inr hr
    | cons id ids => exact h.move fun r hr => owns_batch hr
  | reconcileQuery runtimeIds found =>
    cases runtimeIds with
    | nil => exact h.move fun r hr => .inr hr
    | cons id ids => exact h.move fun r hr => owns_batch hr
  | failing orphans =>
    cases orphans with
    | nil => exact h.move fun r hr => hr.elim
    | cons orphan rest =>
      rw [statement_failing]
      exact h.failedPhase fun r hr => hr.of_failedPhase.mono (List.subset_cons_self _ _)
  | reconciling orphans =>
    cases orphans with
    | nil => exact h.move fun r hr => hr.elim
    | cons orphan rest =>
      rw [statement_reconciling]
      exact h.failedPhase fun r hr => hr.of_failedPhase.mono (List.subset_cons_self _ _)
  | offlineQuery =>
    refine ⟨fun r hr => ?_, h.offline⟩
    rcases hr with hr | ⟨_, hnil, -⟩
    · obtain ⟨row, hrow, rfl⟩ := List.mem_map.mp hr
      obtain ⟨hmem, hoffline⟩ := List.mem_filter.mp hrow
      exact h.offline _ row (Keyed.find_of_mem db.constraints.runtimeKeys hmem)
        (by simpa using hoffline)
    · cases hnil
  | gc =>
    obtain ⟨pc, hpc, heq⟩ := statement_gc config db
    rw [heq]
    refine ⟨fun r hr => ?_, fun r row hrow hoffline halive => ?_⟩
    · rcases hpc with rfl | rfl <;> exact hr.elim
    · exact h.offline r row (runtime_of_collected hrow) hoffline halive.of_collected
  | finished => exact h
  | panicked => exact h

theorem calm_busy (hhb : fromStd config.heartbeatTimeout ≠ none) {s : SweepState}
    (h : Calm config s) : Calm config (s.busy config) := by
  obtain ⟨pc, db⟩ := s
  cases pc with
  | marking entries newlyOffline =>
    cases entries with
    | nil => exact calm_statement hhb h
    | cons entry rest =>
      exact h.move fun r hr =>
        hr.imp_left fun ⟨e, he, hs⟩ => ⟨e, List.mem_cons_of_mem _ he, hs⟩
  | failing orphans =>
    cases orphans with
    | nil => exact calm_statement hhb h
    | cons orphan rest => exact h.move fun r hr => hr.mono (List.subset_cons_self _ _)
  | reconciling orphans =>
    cases orphans with
    | nil => exact calm_statement hhb h
    | cons orphan rest => exact h.move fun r hr => hr.elim
  | orphanQuery runtimeIds found =>
    cases runtimeIds with
    | nil => exact calm_statement hhb h
    | cons id ids => exact h.move fun r hr => hr.elim
  | reconcileQuery runtimeIds found =>
    cases runtimeIds with
    | nil => exact calm_statement hhb h
    | cons id ids => exact h.move fun r hr => hr.elim
  | listing => exact h.move fun r hr => hr.elim
  | offlineQuery => exact h.move fun r hr => hr.elim
  | gc =>
    obtain ⟨pc, hpc, heq⟩ := busy_gc config db
    rw [heq]
    refine h.move fun r hr => ?_
    rcases hpc with rfl | rfl <;> exact hr.elim
  | finished => exact calm_statement hhb h
  | panicked => exact calm_statement hhb h

/-- A calm sweep acts on lost runtimes only. -/
theorem Calm.actsOnLost {s : SweepState} (h : Calm config s) (e : SweepEvent) :
    ActsOnLost config s e := by
  cases e with
  | other txn => trivial
  | busy => trivial
  | statement =>
    obtain ⟨pc, db⟩ := s
    constructor
    · intro r hr halive
      refine absurd halive (h.held r ?_)
      unfold SweepState.marking at hr
      split at hr
      · next entry rest newlyOffline heq =>
        split_ifs at hr with hstale
        obtain rfl : pc = .marking (entry :: rest) newlyOffline := heq
        exact .inl ⟨entry, List.mem_cons_self, hstale, Option.some.inj hr⟩
      · cases hr
    · intro orphan horphan p r hp hactive hagent
      refine h.held r ?_
      unfold SweepState.failing at horphan
      split at horphan
      · next o rest heq =>
        obtain rfl : pc = .failing (o :: rest) := heq
        cases horphan
        exact ⟨orphan, List.mem_cons_self, p, hp, hactive, hagent⟩
      · next o rest heq =>
        obtain rfl : pc = .reconciling (o :: rest) := heq
        cases horphan
        exact ⟨orphan, List.mem_cons_self, p, hp, hactive, hagent⟩
      · cases horphan

theorem calm_step (hhb : fromStd config.heartbeatTimeout ≠ none) {s : SweepState}
    {e : SweepEvent} (h : Calm config s) (hevent : Undisturbed config s e) :
    Calm config (sweepStep config s e) := by
  cases e with
  | other txn =>
    obtain ⟨r, at', rfl, hheld⟩ := hevent
    exact h.heartbeat hheld
  | statement => exact calm_statement hhb h
  | busy => exact calm_busy hhb h

/-- **Live runtimes.** In every interleaving with other connections, a sweep spares the runtimes that
are alive at each of its steps exactly when each step acts on a lost runtime. So it does in every
run in which other connections only send heartbeats, and no recent one arrives for a runtime that
the sweep holds, from a registry whose offline runtimes are not alive. -/
theorem sparesAlive_iff (config : SweepConfig) (db : Db) (es : List SweepEvent) :
    (Runs.Meets (sweepStep config) (SparesAlive config) (.start db) es ↔
      Runs.Meets (sweepStep config) (ActsOnLost config) (.start db) es) ∧
    (fromStd config.heartbeatTimeout ≠ none →
      (∀ r row, db.runtime r = some row → row.status = "offline" →
        ¬ Alive config db.toTables r) →
      Runs.Meets (sweepStep config) (Undisturbed config) (.start db) es →
      Runs.Meets (sweepStep config) (SparesAlive config) (.start db) es) := by
  refine ⟨Runs.meets_congr sparesAlive_step, fun hhb hoffline hevents => ?_⟩
  have hstart : Calm config (.start db) := ⟨fun r hr => hr.elim, hoffline⟩
  exact Runs.meets_of_invariant (fun s e h hevent => calm_step hhb h hevent)
    (fun s e h _ => (sparesAlive_step s e).mpr (h.actsOnLost e)) hstart hevents

theorem sparesAlive_sample :
    Runs.Meets (sweepStep sampleSweep) (SparesAlive sampleSweep) (.start sampleStore)
      [.other fun db => (upsertHeartbeat "rt-2" (seconds 99) db).2, .statement, .statement] :=
  (sparesAlive_iff sampleSweep sampleStore _).2 (by decide) (fun r row hrow hoffline => by
      have honline : ∀ row ∈ sampleStore.runtimes, row.status = "online" := by decide +kernel
      rw [honline row (Keyed.find_eq_some hrow).1] at hoffline
      exact absurd hoffline (by decide))
    ⟨⟨"rt-2", seconds 99, rfl, fun _ h => h⟩, trivial, trivial, trivial⟩

/-- A heartbeat of the runtime `rt` at 99 s. -/
def lateHeartbeat : SweepEvent := .other fun db => (upsertHeartbeat "rt" (seconds 99) db).2

/-- The listing finds `rt` stale, then its heartbeat comes in: it is marked offline all the same, and
its active phase is failed. -/
theorem marks_alive :
    let s := runSweepSteps sampleSweep (.start sampleStore) [.statement, lateHeartbeat]
    (s.db.runtime "rt").map (fun row => (row.status, row.lastHeartbeat)) =
        some ("online", .encoded (seconds 99)) ∧
      ((s.statement sampleSweep).db.runtime "rt").map (·.status) = some "offline" ∧
      (runSweepSteps sampleSweep s (List.replicate 5 .statement)).db.phaseStates.map (·.status) =
        ["failed", "pending"] ∧
      ¬ Runs.Meets (sweepStep sampleSweep) (SparesAlive sampleSweep) (.start sampleStore)
        ([.statement, lateHeartbeat] ++ [.statement]) := by
  intro s
  have hbefore : (s.db.runtime "rt").map (fun row => (row.status, row.lastHeartbeat)) =
      some ("online", .encoded (seconds 99)) := by decide +kernel
  have hafter : ((s.statement sampleSweep).db.runtime "rt").map (·.status) = some "offline" := by
    decide +kernel
  refine ⟨hbefore, hafter, by decide +kernel, fun h => ?_⟩
  obtain ⟨row, hrow, heq⟩ := Option.map_eq_some_iff.mp hbefore
  obtain ⟨row', hrow', hoffline⟩ := Option.map_eq_some_iff.mp hafter
  have halive : Alive sampleSweep s.db.toTables "rt" :=
    ⟨row, seconds 99, hrow, congrArg Prod.snd heq, by decide +kernel⟩
  have hstored := ((Runs.meets_append.mp h).2.1 "rt" halive).unmarked row row' hrow hrow' hoffline
  have honline : row.status = "online" := congrArg Prod.fst heq
  rw [honline] at hstored
  exact absurd hstored (by decide)

end Sparing

end Hymenium
