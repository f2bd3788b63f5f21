import Hymenium.Commands.Terminal
import Hymenium.Store.SweepSteps

/-!
# The transition log

`dispatch` and `cancel` log a row without a phase to come from, `fail` and `complete` one without a
phase to go to. An advance happens in the engine, on a list of transitions the store never reads,
and `reconcile` persists its phases and its index only: the log has no row for it, and tells the path
of the workflows exactly as long as none has advanced (`logsPaths_iff_meets`).
-/

namespace Hymenium

open WorkflowInstance Tables

/-- The steps from phase to phase that lead to the current phase. -/
def WorkflowInstance.path (inst : WorkflowInstance) : List (Option String × Option String) :=
  (List.range inst.currentPhaseIdx).map fun j =>
    (inst.phaseStates[j]?.map (·.phaseId), inst.phaseStates[j + 1]?.map (·.phaseId))

/-- The logged steps of a workflow, in the order of their rows. -/
def Tables.logOf (t : Tables) (id : WorkflowId) : List (Option String × Option String) :=
  (t.workflowTransitions.filter (·.workflowId = id)).map fun row => (row.fromPhase, row.toPhase)

/-- The log of each workflow tells its path. -/
def Db.LogsPaths (db : Db) : Prop :=
  ∀ id inst, db.getWorkflow id = .ok (some inst) → inst.path.Sublist (db.logOf id)

/-- The command is no reconciliation that advances a workflow and is persisted: the workflow is
live, or its content hash is free. -/
def AdvancesNothing (db : Db) : Command → Prop
  | .reconcile id canopy forceAdvance files _ => ∀ inst task,
      db.getWorkflow id = .ok (some inst) → inst.answer canopy = some (.ok task) →
      inst.AdvancedBy forceAdvance files task →
      ¬ (inst.status.toString ∉ terminalStatuses ∨ db.HashFree id)
  | _ => True

/-! ## The rows of the log -/

/-- The row tells of the beginning or the end of a workflow. -/
def TransitionRow.AtEnds (row : TransitionRow) : Prop :=
  row.fromPhase = none ∨ row.toPhase = some "completed" ∨ row.toPhase = some "failed"

/-- No row of the log tells of a step between two phases. -/
def Db.LogsEnds (db : Db) : Prop := ∀ row ∈ db.workflowTransitions, row.AtEnds

section Rows

open Txn

variable {db : Db}

theorem keeps_execute {f : Tables → Tables}
    (hf : ∀ t, (f t).workflowTransitions = t.workflowTransitions) :
    Keeps Db.LogsEnds (execute f) :=
  .execute fun db _ h row hrow => h row (by rwa [← hf db.toTables])

theorem keeps_recordTransition {id : WorkflowId} {fromPhase toPhase reason : Option String}
    {now : DateTime} (h : fromPhase = none ∨ toPhase = some "completed" ∨
      toPhase = some "failed") :
    Keeps Db.LogsEnds (recordTransition id fromPhase toPhase reason now) := by
  refine .execute fun db _ hdb row hrow => ?_
  rcases List.mem_append.mp hrow with hold | hnew
  · exact hdb row hold
  · rw [List.mem_singleton.mp hnew]
    exact h

theorem keeps_updateWorkflowStatus {id : WorkflowId} {status : WorkflowStatus}
    {blockedOn : Option String} {now : DateTime} :
    Keeps Db.LogsEnds (updateWorkflowStatus id status blockedOn now) := by
  refine .bind (keeps_execute fun _ => rfl) fun _ => .bind .get fun db => ?_
  split_ifs
  · exact .throw _
  · exact .pure _

theorem keeps_updateCurrentPhaseIdx {id : WorkflowId} {idx : ℕ} {now : DateTime} :
    Keeps Db.LogsEnds (updateCurrentPhaseIdx id idx now) := by
  refine .bind (.liftExcept _) fun _ => .bind (keeps_execute fun _ => rfl) fun _ =>
    .bind .get fun db => ?_
  split_ifs
  · exact .throw _
  · exact .pure _

theorem keeps_upsertPhaseState {id : WorkflowId} {state : PhaseState} {order : ℕ} :
    Keeps Db.LogsEnds (upsertPhaseState id state order) :=
  .bind (.liftExcept _) fun _ => keeps_execute fun _ => rfl

theorem keeps_upsertPhaseStates {id : WorkflowId} {states : List PhaseState} {order : ℕ} :
    Keeps Db.LogsEnds (upsertPhaseStates id states order) := by
  induction states generalizing order with
  | nil => exact .pure _
  | cons state states ih => exact .bind keeps_upsertPhaseState fun _ => ih

theorem keeps_emitTerminalOutcome {inst : WorkflowInstance} {failure : Option FailureKind}
    {clk : Clock} : Keeps Db.LogsEnds (emitTerminalOutcome inst failure clk) := by
  unfold emitTerminalOutcome
  split
  · exact .throw _
  · exact keeps_execute fun _ => rfl

theorem keeps_findAndInsertWorkflowByHash {inst : WorkflowInstance} {contentHash : String} :
    Keeps Db.LogsEnds (findAndInsertWorkflowByHash inst contentHash) := by
  intro db r h hrun
  rcases findAndInsertWorkflowByHash_ok hrun with hsame | ⟨-, htables, -⟩
  · rw [hsame]
    exact h
  · have hlog : r.2.workflowTransitions = db.workflowTransitions := by rw [htables]; rfl
    intro row hrow
    exact h row (by rwa [← hlog])

/-- A store operation inside the transaction of a command. -/
theorem Txn.Keeps.liftStore {α : Type} {I : Db → Prop} {x : Txn StoreError α} (h : Keeps I x) :
    Keeps I (liftM x : Txn CommandError α) :=
  fun db r hdb hrun => h db r hdb (run_liftStore_ok.mp hrun)

end Rows

/-! ## One command -/

section Commands

open Txn

variable {db : Db}

theorem logsEnds_cancel (h : db.LogsEnds) (id : WorkflowId) (clk : Clock) :
    (cancel id clk db).2.LogsEnds := by
  unfold cancel
  split
  · exact h
  · exact h
  · split
    · exact h
    · exact h
    · exact h
    · refine Keeps.withTransaction ?_ h
      refine .bind (.liftStore keeps_updateWorkflowStatus) fun _ =>
        .bind (.liftStore keeps_updateCurrentPhaseIdx) fun _ =>
        .bind (.liftStore (keeps_recordTransition (.inl rfl))) fun _ =>
        .bind (.liftStore (.query _)) fun loaded => ?_
      split
      · exact .throw _
      · exact .liftStore keeps_emitTerminalOutcome

theorem logsEnds_finish (h : db.LogsEnds) {finisher : Finisher}
    (hstatus : finisher.status = .completed ∨ finisher.status = .failed) (id : WorkflowId)
    (clk : Clock) : (finish finisher id clk db).2.LogsEnds := by
  unfold finish
  split
  · exact h
  · exact h
  · split
    · split <;> exact h
    · split <;> exact h
    · split <;> exact h
    · split
      · exact h
      · refine Keeps.withTransaction ?_ h
        refine .bind (.liftStore keeps_updateWorkflowStatus) fun _ =>
          .bind (.liftStore keeps_updateCurrentPhaseIdx) fun _ =>
          .bind (.liftStore keeps_upsertPhaseStates) fun _ => ?_
        split
        · exact .throw _
        · refine .bind (.liftStore (keeps_recordTransition (.inr ?_))) fun _ =>
            .liftStore keeps_emitTerminalOutcome
          rcases hstatus with hs | hs <;> rw [hs]
          · exact .inl rfl
          · exact .inr rfl

theorem logsEnds_reconcile (h : db.LogsEnds) (id : WorkflowId) (canopy : CanopyClient)
    (forceAdvance : Bool) (files : Files) (clk : Clock) :
    (reconcile id canopy forceAdvance files clk db).2.LogsEnds := by
  unfold reconcile
  split
  · exact h
  · exact h
  · split
    · exact h
    · refine Keeps.withTransaction ?_ h
      exact .bind (.liftStore keeps_upsertPhaseStates) fun _ =>
        .bind (.liftStore keeps_updateWorkflowStatus) fun _ =>
        .liftStore keeps_updateCurrentPhaseIdx

theorem logsEnds_resume (h : db.LogsEnds) (id : WorkflowId) (clk : Clock) :
    (resume id clk db).2.LogsEnds := by
  unfold resume
  split
  · exact h
  · exact h
  · split
    · exact h
    · refine Keeps.withTransaction (.bind (.liftStore keeps_updateWorkflowStatus) fun _ => ?_) h
      split
      · exact .pure _
      · exact .liftStore keeps_upsertPhaseState

theorem logsEnds_dispatch (h : db.LogsEnds) (request : DispatchRequest) :
    (dispatch request db).2.LogsEnds := by
  unfold dispatch
  split
  · exact h
  split
  · exact h
  split
  · exact h
  next inst calls _ =>
  have hinsert : (withTransaction (findAndInsertWorkflowByHash inst request.contentHash)
      db).2.LogsEnds := keeps_findAndInsertWorkflowByHash.withTransaction h
  split
  next heq => rwa [heq] at hinsert
  next persisted db₁ heq =>
  rw [heq] at hinsert
  have hlog : (withTransaction (recordTransition persisted.workflowId none
      (persisted.phaseStates.head?.map (·.phaseId)) (some "initial dispatch") (request.clk 1))
      db₁).2.LogsEnds := (keeps_recordTransition (.inl rfl)).withTransaction hinsert
  split
  · next heq => rwa [heq] at hlog
  · next heq => rwa [heq] at hlog

theorem logsEnds_statement (config : SweepConfig) {s : SweepState} (h : s.db.LogsEnds) :
    (s.statement config).db.LogsEnds := by
  obtain ⟨pc, db⟩ := s
  cases pc with
  | listing | offlineQuery | finished | panicked => exact h
  | marking entries newlyOffline =>
    cases entries with
    | nil => exact h
    | cons entry rest =>
      by_cases hstale : config.Stale entry
      · rw [statement_stale hstale]
        exact h
      · rw [statement_fresh hstale]
        exact h
  | orphanQuery runtimeIds found => cases runtimeIds <;> exact h
  | reconcileQuery runtimeIds found => cases runtimeIds <;> exact h
  | failing orphans =>
    cases orphans with
    | nil => exact h
    | cons orphan rest =>
      rw [statement_failing]
      exact h
  | reconciling orphans =>
    cases orphans with
    | nil => exact h
    | cons orphan rest =>
      rw [statement_reconciling]
      exact h
  | gc =>
    unfold SweepState.statement
    dsimp only
    split
    · exact h
    · next threshold _ =>
      exact (keeps_execute (f := (·.gcOffline threshold)) fun _ => rfl).withTransaction h

/-- A sweep writes no log: none of its statements does. -/
theorem logsEnds_runSweep (h : db.LogsEnds) (heartbeatTimeout gcRetention : ℕ) (clk : Clock)
    (rows : RowOrder) : (runSweep heartbeatTimeout gcRetention clk rows db).2.LogsEnds := by
  let config : SweepConfig := ⟨heartbeatTimeout, gcRetention, clk, rows⟩
  obtain ⟨n, hn⟩ := reaches_runSweep config db
  have hrun : ∀ (n : ℕ) (s : SweepState), s.db.LogsEnds →
      (runSweepSteps config s (List.replicate n .statement)).db.LogsEnds := by
    intro n
    induction n with
    | zero => exact fun _ hs => hs
    | succ n ih => exact fun s hs => ih _ (logsEnds_statement config hs)
  have hend := hrun n (.start db) h
  rwa [hn] at hend

theorem logsEnds_step (h : db.LogsEnds) (cmd : Command) : (step db cmd).LogsEnds := by
  cases cmd with
  | dispatch request => exact logsEnds_dispatch h request
  | reconcile id canopy forceAdvance files clk => 
    exact logsEnds_reconcile h id canopy forceAdvance files clk
  | cancel id clk => exact logsEnds_cancel h id clk
  | fail id reason clk => exact logsEnds_finish h (.inr rfl) id clk
  | complete id clk => exact logsEnds_finish h (.inl rfl) id clk
  | resume id clk => exact logsEnds_resume h id clk
  | sweep heartbeatTimeout gcRetention clk rows => exact logsEnds_runSweep h _ _ _ _
  | heartbeat runtimeId now => 
    exact (keeps_execute (f := (·.heartbeat runtimeId now)) fun _ => rfl).withTransaction h

end Commands

/-! ## Paths and rows -/

section Reconciled

variable {inst out : WorkflowInstance} {forceAdvance : Bool} {files : Files}

theorem Reconciled.phaseIdx_of_advanced {task : TaskDetail}
    (h : Reconciled inst forceAdvance files (some (.ok task)) out)
    (hadv : inst.AdvancedBy forceAdvance files task) :
    out.currentPhaseIdx = inst.currentPhaseIdx + 1 := by
  obtain ⟨hc, hs, hf, ho⟩ := hadv
  cases h with
  | waiting _ hc' => simp [hc] at hc'
  | failed _ p' t hfailed => simp [not_failed_of_completed hc] at hfailed
  | stopped _ p' t hc' hs' => exact absurd hs hs'
  | finished _ p' t hc' hs' hp hf' => exact absurd hf' hf
  | entered | stranded => rfl
  | blocked _ p' t b hc' hs' hp hf' ho' => exact absurd ho ho'

theorem Reconciled.phaseIdx_of_not_advanced {answer : Option (Except DispatchError TaskDetail)}
    (h : Reconciled inst forceAdvance files answer out)
    (hadv : ∀ task, answer = some (.ok task) → ¬ inst.AdvancedBy forceAdvance files task) :
    out.currentPhaseIdx = inst.currentPhaseIdx := by
  cases h with
  | unasked | waiting | failed | stopped | finished | blocked => rfl
  | entered task p' next t t' log hc hs hp hf ho => exact absurd ⟨hc, hs, hf, ho⟩ (hadv task rfl)
  | stranded task p' t hc hs hp hf ho => exact absurd ⟨hc, hs, hf, ho⟩ (hadv task rfl)

end Reconciled

/-- The phases of every stored workflow are those of the built-in template. -/
def Db.Named (db : Db) : Prop :=
  ∀ id inst, db.getWorkflow id = .ok (some inst) →
    inst.phaseStates.map (·.phaseId) = implAuditDefault.phases.map (·.phaseId)

section Paths

variable {db : Db}

theorem named_step (h : db.Reached) (hnamed : db.Named) (cmd : Command) : (step db cmd).Named := by
  obtain ⟨ledger, ledger', hrep, -, hrep', -, hchange⟩ := h.step cmd
  intro id inst hload
  rw [getWorkflow_of_represents hrep', Except.ok.injEq] at hload
  obtain ⟨e', he', rfl⟩ := Option.map_eq_some_iff.mp hload
  have hid := hchange id
  rw [he'] at hid
  generalize hold : ledger id = old at hid
  have hids : ∀ e, old = some e →
      e.inst.phaseStates.map (·.phaseId) = implAuditDefault.phases.map (·.phaseId) :=
    fun e he => hnamed id e.inst (hrep.holds (hold.trans he)).getWorkflow
  cases hid with
  | kept => exact hids e' rfl
  | dispatched request inst _ hinst => exact hinst.phaseIds
  | reconciled canopy forceAdvance files clk e inst hr =>
    exact hr.sameFrame.phaseIds.trans (hids e rfl)
  | cancelled clk e => exact hids e rfl

/-- A workflow at its second phase has a step that no row tells of. -/
theorem not_sublist_of_second (hlog : db.LogsEnds) {id : WorkflowId} {inst : WorkflowInstance}
    (hids : inst.phaseStates.map (·.phaseId) = implAuditDefault.phases.map (·.phaseId))
    (hidx : inst.currentPhaseIdx = 1) : ¬ inst.path.Sublist (db.logOf id) := by
  have hpath : inst.path = [(some "implement", some "audit")] := by
    unfold path
    simp only [← List.getElem?_map, hids, hidx]
    rfl
  rw [hpath, List.singleton_sublist]
  intro hmem
  obtain ⟨row, hrow, hstep⟩ := List.mem_map.mp hmem
  obtain ⟨hfrom, hto⟩ := Prod.mk.inj hstep
  rcases hlog row (List.mem_filter.mp hrow).1 with hnone | hcompleted | hfailed
  · rw [hfrom] at hnone
    cases hnone
  · rw [hto] at hcompleted
    exact absurd hcompleted (by decide)
  · rw [hto] at hfailed
    exact absurd hfailed (by decide)

/-- The log tells the paths exactly when there are none to tell. -/
theorem logsPaths_iff (h : db.Reached) (hnamed : db.Named) (hlog : db.LogsEnds) :
    db.LogsPaths ↔
      ∀ id inst, db.getWorkflow id = .ok (some inst) → inst.currentPhaseIdx = 0 := by
  constructor
  · intro hpaths id inst hload
    obtain ⟨ledger, hrep, hcoh⟩ := h
    have hentry := hload
    rw [getWorkflow_of_represents hrep, Except.ok.injEq] at hentry
    obtain ⟨e, he, rfl⟩ := Option.map_eq_some_iff.mp hentry
    have hrange := (hcoh id e he).inst.inRange
    by_contra hne
    exact not_sublist_of_second hlog (hnamed id e.inst hload) (by omega) (hpaths id e.inst hload)
  · intro hzero id inst hload
    rw [path, hzero id inst hload]
    exact List.nil_sublist _

/-- A command that advances nothing leaves every workflow at its first phase. -/
theorem firstPhase_step (h : db.Reached) {cmd : Command} (hcmd : AdvancesNothing db cmd)
    (hzero : ∀ id inst, db.getWorkflow id = .ok (some inst) → inst.currentPhaseIdx = 0) :
    ∀ id inst, (step db cmd).getWorkflow id = .ok (some inst) → inst.currentPhaseIdx = 0 := by
  obtain ⟨ledger, ledger', hrep, hcoh, hrep', hcoh', hchange⟩ := h.step cmd
  intro id inst hload
  rw [getWorkflow_of_represents hrep', Except.ok.injEq] at hload
  obtain ⟨e', he', rfl⟩ := Option.map_eq_some_iff.mp hload
  have hid := hchange id
  rw [he'] at hid
  generalize hold : ledger id = old at hid
  have hidx : ∀ e, old = some e → e.inst.currentPhaseIdx = 0 :=
    fun e he => hzero id e.inst (hrep.holds (hold.trans he)).getWorkflow
  cases hid with
  | kept => exact hidx e' rfl
  | dispatched request inst _ hinst => exact hinst.currentPhaseIdx
  | cancelled clk e => exact hidx e rfl
  | reconciled canopy forceAdvance files clk e inst hr =>
    have hload : db.getWorkflow id = .ok (some e.inst) := (hrep.holds hold).getWorkflow
    refine (hr.phaseIdx_of_not_advanced fun task hans hadv => ?_).trans (hidx e rfl)
    have hrefused := not_or.mp (hcmd e.inst task hload hans hadv)
    -- the workflow would be live again beside the one that has its hash
    have hnext := (hcoh id e hold).inst.next_ne_none hadv.2.2.1
    have hlive : (e.reconciled inst clk).Live := by
      show inst.status.toString ∉ terminalStatuses
      rw [hans] at hr
      rw [hr.status_of_advanced hadv hnext]
      decide
    exact hrefused.2 (hashFree_of_reconciled hrep hrep' hchange hold he' hrefused.1 hlive rfl)

/-- An advance that is persisted is not in the log. -/
theorem not_logsPaths_of_advanced (h : db.Reached) (hnamed : db.Named) (hlog : db.LogsEnds)
    {id : WorkflowId} {canopy : CanopyClient} {inst : WorkflowInstance} {task : TaskDetail}
    {forceAdvance : Bool} {files : Files} (clk : Clock)
    (hload : db.getWorkflow id = .ok (some inst)) (hans : inst.answer canopy = some (.ok task))
    (hadv : inst.AdvancedBy forceAdvance files task)
    (hwrite : inst.status.toString ∉ terminalStatuses ∨ db.HashFree id) :
    ¬ (step db (.reconcile id canopy forceAdvance files clk)).LogsPaths := by
  set cmd : Command := .reconcile id canopy forceAdvance files clk with hcmd
  rw [logsPaths_iff (h.next cmd) (named_step h hnamed cmd) (logsEnds_step hlog cmd)]
  obtain ⟨ledger, hrep, hcoh⟩ := h
  rw [getWorkflow_of_represents hrep, Except.ok.injEq] at hload
  obtain ⟨e, he, rfl⟩ := Option.map_eq_some_iff.mp hload
  obtain ⟨inst, hrec, -, hrep'⟩ := hcoh.exists_reconciled hrep he hans (.inr hwrite) forceAdvance
    files clk
  intro hzero
  have hfirst := hzero id (e.reconciled inst clk).inst
    (hrep'.holds (Function.update_self id _ ledger)).getWorkflow
  exact absurd ((hrec.phaseIdx_of_advanced hadv).symm.trans hfirst) (Nat.succ_ne_zero _)

end Paths

/-! ## Every run -/

/-- What every reachable store keeps, whatever was logged. -/
structure Db.Tracked (db : Db) : Prop where
  reached : db.Reached
  named : db.Named
  logsEnds : db.LogsEnds

theorem Db.Tracked.next {db : Db} (h : db.Tracked) (cmd : Command) : (step db cmd).Tracked :=
  ⟨h.reached.next cmd, named_step h.reached h.named cmd, logsEnds_step h.logsEnds cmd⟩

theorem Db.tracked_run (cmds : List Command) : (runCommands Db.empty cmds).Tracked := by
  refine Runs.run_invariant (fun db cmd h => h.next cmd) ?_ cmds
  exact ⟨Db.reached_run [], fun id inst h => (by cases h), fun row h => nomatch h⟩

/-- **The transition log.** In every store along a sequence of commands the log tells how each
workflow got to its phase, exactly when no reconciliation of the sequence advances a workflow. -/
theorem logsPaths_iff_meets (cmds : List Command) :
    (∀ pre post, cmds = pre ++ post → (runCommands Db.empty pre).LogsPaths) ↔
      Runs.Meets step AdvancesNothing Db.empty cmds := by
  constructor
  · intro hpaths
    rw [Runs.meets_iff]
    intro pre cmd post hcmds
    have hafter := hpaths (pre ++ [cmd]) post (by rw [hcmds, List.append_assoc]; rfl)
    have hrun : runCommands Db.empty (pre ++ [cmd]) = step (runCommands Db.empty pre) cmd :=
      Runs.run_append Db.empty pre [cmd]
    rw [hrun] at hafter
    obtain ⟨hreached, hnamed, hlog⟩ := Db.tracked_run pre
    cases cmd with
    | reconcile id canopy forceAdvance files clk =>
      intro inst task hload hans hadv hwrite
      exact not_logsPaths_of_advanced hreached hnamed hlog clk hload hans hadv hwrite hafter
    | _ => trivial
  · rintro hmeets pre post rfl
    have hinv := Runs.run_invariant_of_meets
      (P := fun db => db.Tracked ∧
        ∀ id inst, db.getWorkflow id = .ok (some inst) → inst.currentPhaseIdx = 0)
      (fun db cmd h hcmd => ⟨h.1.next cmd, firstPhase_step h.1.reached hcmd h.2⟩)
      ⟨Db.tracked_run [], fun id inst h => by cases h⟩ (Runs.meets_append.mp hmeets).1
    exact (logsPaths_iff hinv.1.reached hinv.1.named hinv.1.logsEnds).mpr hinv.2

/-- A workflow that `reconcile` advanced is at its second phase, and its log says only that it was
dispatched. -/
theorem advance_not_logged :
    let db := runCommands Db.empty [.dispatch sampleDispatch,
      .reconcile "wf" completedCanopy false (fun _ => true) Int.ofNat]
    (db.workflow "wf").map (·.currentPhaseIdx) = some 1 ∧
      db.logOf "wf" = [(none, some "implement")] ∧ ¬ db.LogsPaths := by
  intro db
  have hlog : db.logOf "wf" = [(none, some "implement")] := by decide +kernel
  refine ⟨by decide +kernel, hlog, fun hpaths => ?_⟩
  have hpath : (db.getWorkflow "wf").map (Option.map (·.path)) =
      .ok (some [(some "implement", some "audit")]) := by decide +kernel
  rcases hload : db.getWorkflow "wf" with e | _ | inst
  · rw [hload] at hpath
    cases hpath
  · rw [hload] at hpath
    cases hpath
  · rw [hload] at hpath
    have hinst : inst.path = _ := Option.some.inj (Except.ok.inj hpath)
    have hlogged := hpaths "wf" inst hload
    rw [hinst, hlog, List.singleton_sublist] at hlogged
    exact absurd hlogged (by decide)

end Hymenium
