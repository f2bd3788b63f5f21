import Hymenium.Commands.Commands
import Hymenium.Store.Sweeps

/-!
# What one command does to the ledger

`Ledger.Effect` says, once, what a command can do to the ledger, and `step_effect` that it does
nothing else. The invariants of runs are read off `Effect`, never off the command handlers. A
command that fails, or finds nothing to do, leaves the ledger as it is.
-/

namespace Hymenium

open Tables

/-- Write one entry. -/
def Ledger.put (ledger : Ledger) (id : WorkflowId) (e : Entry) : Ledger :=
  Function.update ledger id (some e)

namespace Entry

variable (e : Entry)

/-- The entry after `status` and the phase index of `inst` were written. -/
def setProgress (status : WorkflowStatus) (inst : WorkflowInstance) (t t' : DateTime) : Entry :=
  (e.setStatus status none t).setPhaseIdx inst.currentPhaseIdx t'

/-- The entry a reconciliation persists. -/
def reconciled (inst : WorkflowInstance) (clk : Clock) : Entry :=
  (e.setPhases inst.phaseStates).setProgress inst.status inst (clk 5) (clk 6)

end Entry

/-- The ledger after a command, by what the command did. -/
inductive Ledger.Effect (ledger : Ledger) : Command → Ledger → Prop
  | quiet (cmd : Command) : Effect ledger cmd ledger
  | dispatched (request : DispatchRequest) (inst : WorkflowInstance)
      (hfresh : ledger request.workflowId = none)
      (h : FreshDispatch request.workflowId implAuditDefault inst) :
      Effect ledger (.dispatch request)
        (ledger.put request.workflowId ⟨inst, some request.contentHash, none⟩)
  | reconciled (id : WorkflowId) (canopy : CanopyClient) (forceAdvance : Bool) (files : Files)
      (clk : Clock) (e : Entry) (inst : WorkflowInstance) (he : ledger id = some e)
      (h : Reconciled e.inst forceAdvance files (e.inst.answer canopy) inst) :
      Effect ledger (.reconcile id canopy forceAdvance files clk) 
        (ledger.put id (e.reconciled inst clk))
  | cancelled (id : WorkflowId) (clk : Clock) (e : Entry) (outcome : WorkflowOutcome)
      (he : ledger id = some e) (hs : e.inst.status ∉ [.completed, .failed, .cancelled])
      (ho : outcome.terminalStatus = .cancelled) :
      Effect ledger (.cancel id clk) (ledger.put id
        ((e.setProgress .cancelled e.inst (clk 0) (clk 1)).setOutcome outcome))
  | failed (id : WorkflowId) (reason : String) (clk : Clock) (e : Entry) (inst : WorkflowInstance)
      (outcome : WorkflowOutcome) (he : ledger id = some e)
      (hs : e.inst.status ∉ [.completed, .failed, .cancelled])
      (h : e.inst.failPhase reason clk = (.ok (), inst))
      (ho : outcome.terminalStatus = inst.status.toTerminal) :
      Effect ledger (.fail id reason clk) (ledger.put id
        (((e.setProgress .failed inst (clk 2) (clk 3)).setPhases inst.phaseStates).setOutcome
          outcome))
  | completed (id : WorkflowId) (clk : Clock) (e : Entry) (inst : WorkflowInstance)
      (outcome : WorkflowOutcome) (he : ledger id = some e)
      (hs : e.inst.status ∉ [.completed, .failed, .cancelled])
      (h : e.inst.completeWorkflow clk = (.ok (), inst))
      (ho : outcome.terminalStatus = inst.status.toTerminal) :
      Effect ledger (.complete id clk) (ledger.put id
        (((e.setProgress .completed inst (clk 2) (clk 3)).setPhases inst.phaseStates).setOutcome
          outcome))
  | resumed (id : WorkflowId) (clk : Clock) (e : Entry) (inst : WorkflowInstance)
      (he : ledger id = some e) (h : e.inst.resumeFromUserInput clk = (.ok (), inst)) :
      Effect ledger (.resume id clk) (ledger.put id
        ((e.setStatus inst.status none (clk 1)).setPhases inst.phaseStates))
  | swept (heartbeatTimeout gcRetention : ℕ) (clk : Clock) (rows : RowOrder) (ledger' : Ledger)
      (h : ledger.Swept (clk 0) ledger') :
      Effect ledger (.sweep heartbeatTimeout gcRetention clk rows) ledger'

/-! ## Transactions of a command -/

/-- A transaction that commits ran its body; one that does not leaves the database alone. -/
theorem withTransaction_cases {ε α : Type} (body : Txn ε α) (db : Db) :
    (∃ e, withTransaction body db = (.error e, db)) ∨
      ∃ a db', body.run db = .ok (a, db') ∧ withTransaction body db = (.ok a, db') := by
  cases h : body.run db with
  | error e => exact .inl ⟨e, withTransaction_error h⟩
  | ok p => exact .inr ⟨p.1, p.2, rfl, withTransaction_ok h⟩

/-- A store operation inside the transaction of a command. -/
@[simp] theorem Txn.run_liftStore_ok {α : Type} {x : Txn StoreError α} {db : Db} {r : α × Db} :
    (liftM x : Txn CommandError α).run db = .ok r ↔ x.run db = .ok r := by
  show (x db).mapError CommandError.store = .ok r ↔ x db = .ok r
  cases x db <;> simp [Except.mapError]

/-! ## One command -/

section Commands

variable {db : Db} {ledger : Ledger}

theorem cancel_effect (h : db.Represents ledger) (id : WorkflowId) (clk : Clock) :
    ∃ ledger', ledger.Effect (.cancel id clk) ledger' ∧
      (cancel id clk db).2.Represents ledger' := by
  unfold cancel
  rw [getWorkflow_of_represents h]
  cases he : ledger id with
  | none => exact ⟨ledger, .quiet _, h⟩
  | some e =>
    simp only [Option.map_some]
    split
    · exact ⟨ledger, .quiet _, h⟩
    · exact ⟨ledger, .quiet _, h⟩
    · exact ⟨ledger, .quiet _, h⟩
    next hcompleted hfailed hcancelled =>
    rcases withTransaction_cases _ db with ⟨err, heq⟩ | ⟨u, db', hrun, heq⟩ <;> rw [heq]
    · exact ⟨ledger, .quiet _, h⟩
    simp only [Txn.run_bind_ok, Txn.run_liftStore_ok] at hrun
    obtain ⟨_, db₁, h₁, _, db₂, h₂, _, db₃, h₃, loaded, db₄, h₄, h₅⟩ := hrun
    have hedits := (((h.holds he).edits.updateWorkflowStatus h₁).updateCurrentPhaseIdx
      h₂).recordTransition h₃
    obtain ⟨hloaded, hdb⟩ := Txn.run_query_ok.mp h₄
    have hdb₄ : db₄ = db₃ := hdb
    have hload : Except.ok (some _) = Except.ok loaded :=
      hedits.holds.getWorkflow.symm.trans hloaded
    rw [hdb₄, ← Except.ok.inj hload] at h₅
    obtain ⟨outcome, hbuild, hedits⟩ := hedits.emitTerminalOutcome hedits.holds.workflowId_eq
      (Txn.run_liftStore_ok.mp h₅)
    refine ⟨_, .cancelled id clk e outcome he (by simpa using ⟨hcompleted, hfailed, hcancelled⟩) ?_,
      hedits.represents h⟩
    exact (WorkflowOutcome.build_spec hbuild).2

theorem finish_effect (h : db.Represents ledger) (finisher : Finisher)
    (hframe : ∀ inst clk, WorkflowInstance.SameFrame inst (finisher.engine inst clk).2)
    (id : WorkflowId) (clk : Clock) :
    (finish finisher id clk db).2.Represents ledger ∨
      ∃ e inst outcome, ledger id = some e ∧ e.inst.status ∉ [.completed, .failed, .cancelled] ∧
        finisher.engine e.inst clk = (.ok (), inst) ∧
        outcome.terminalStatus = inst.status.toTerminal ∧
        (finish finisher id clk db).2.Represents (ledger.put id
          (((e.setProgress finisher.status inst (clk 2) (clk 3)).setPhases
            inst.phaseStates).setOutcome outcome)) := by
  unfold finish
  rw [getWorkflow_of_represents h]
  cases he : ledger id with
  | none => exact .inl h
  | some e =>
    simp only [Option.map_some, (h.holds he).getOutcome]
    split
    · exact .inl h
    · exact .inl h
    · exact .inl h
    next hcompleted hcancelled hfailed =>
    have hsame := hframe e.inst clk
    cases hengine : finisher.engine e.inst clk with
    | mk result inst =>
    rw [hengine] at hsame
    cases result with
    | error err => exact .inl h
    | ok u =>
    simp only
    rcases withTransaction_cases _ db with ⟨err, heq⟩ | ⟨u, db', hrun, heq⟩ <;> rw [heq]
    · exact .inl h
    simp only [Txn.run_bind_ok, Txn.run_liftStore_ok] at hrun
    obtain ⟨_, db₁, h₁, _, db₂, h₂, _, db₃, h₃, hrest⟩ := hrun
    have hedits := (((h.holds he).edits.updateWorkflowStatus h₁).updateCurrentPhaseIdx
      h₂).upsertPhaseStates hsame.phaseIds h₃
    cases hphase : inst.currentPhase with
    | none =>
      rw [hphase] at hrest
      exact absurd hrest Txn.run_throw_ne_ok
    | some phase =>
      rw [hphase] at hrest
      simp only [Txn.run_bind_ok, Txn.run_liftStore_ok] at hrest
      obtain ⟨_, db₄, h₄, h₅⟩ := hrest
      obtain ⟨outcome, hbuild, hedits⟩ := (hedits.recordTransition h₄).emitTerminalOutcome
        (hsame.workflowId.trans (h.holds he).workflowId_eq) h₅
      exact .inr ⟨e, inst, outcome, rfl, by simpa using ⟨hcompleted, hfailed, hcancelled⟩, hengine,
        (WorkflowOutcome.build_spec hbuild).2, hedits.represents h⟩

theorem fail_effect (h : db.Represents ledger) (id : WorkflowId) (reason : String)
    (clk : Clock) : ∃ ledger', ledger.Effect (.fail id reason clk) ledger' ∧
      (fail id reason clk db).2.Represents ledger' := by
  rcases finish_effect h
    ⟨fun inst clk => inst.failPhase reason clk, "fail_phase", .failed, reason⟩
    (fun inst clk => (WorkflowInstance.failPhase_effect reason clk).sameFrame)
    id clk with hquiet | ⟨e, inst, outcome, he, hs, hengine, ho, hrep⟩
  · exact ⟨ledger, .quiet _, hquiet⟩
  · exact ⟨_, .failed id reason clk e inst outcome he hs hengine ho, hrep⟩

theorem complete_effect (h : db.Represents ledger) (id : WorkflowId) (clk : Clock) :
    ∃ ledger', ledger.Effect (.complete id clk) ledger' ∧
      (complete id clk db).2.Represents ledger' := by
  rcases finish_effect h
    ⟨fun inst clk => inst.completeWorkflow clk, "complete_workflow", .completed,
      "workflow completed successfully"⟩
    (fun inst clk => (WorkflowInstance.completeWorkflow_effect clk).sameFrame)
    id clk with hquiet | ⟨e, inst, outcome, he, hs, hengine, ho, hrep⟩
  · exact ⟨ledger, .quiet _, hquiet⟩
  · exact ⟨_, .completed id clk e inst outcome he hs hengine ho, hrep⟩

theorem persistReconciled_edits {id : WorkflowId} {e : Entry} (h : db.Holds id e)
    {inst : WorkflowInstance} (hsame : e.inst.SameFrame inst) {clk : Clock} {r : Unit × Db}
    (hrun : (persistReconciled id inst clk).run db = .ok r) :
    db.Edits id r.2.toTables (e.reconciled inst clk) := by
  unfold persistReconciled at hrun
  simp only [Txn.run_bind_ok, Txn.run_liftStore_ok] at hrun
  obtain ⟨_, db₁, h₁, _, db₂, h₂, h₃⟩ := hrun
  exact ((h.edits.upsertPhaseStates hsame.phaseIds h₁).updateWorkflowStatus
    h₂).updateCurrentPhaseIdx h₃

/-- The transaction commits unless an index is out of range or a live status meets a taken content
hash. -/
theorem exists_persistReconciled {id : WorkflowId} {row : WorkflowRow}
    (hrow : db.workflow id = some row) {inst : WorkflowInstance}
    (hlen : inst.phaseStates.length ≤ 2 ^ 63) (hidx : inst.currentPhaseIdx < 2 ^ 63)
    (hlive : inst.status.toString ∉ terminalStatuses → row.Live ∨ db.HashFree id) (clk : Clock) :
    ∃ r, (persistReconciled id inst clk).run db = .ok r := by
  have hmem : id ∈ db.workflowIds := by
    by_contra hid
    rw [workflow_eq_none_iff.mpr hid] at hrow
    cases hrow
  have hlen' : 0 + inst.phaseStates.length ≤ 2 ^ 63 := by omega
  obtain ⟨db₁, h₁⟩ := exists_upsertPhaseStates hmem hlen'
  have ht₁ := upsertPhaseStates_eq h₁
  have hrow₁ : db₁.workflow id = some row := by rw [ht₁]; exact hrow
  have hc₂ : (db₁.setStatus id inst.status none (clk 5)).Constraints := by
    refine db₁.constraints.setStatus none (clk 5) fun row' hrow' hs => ?_
    obtain rfl : row = row' := Option.some.inj (hrow₁.symm.trans hrow')
    rcases hlive hs with hl | hfree
    · exact .inl hl
    · refine .inr ?_
      rw [ht₁]
      exact hfree
  let db₂ : Db := ⟨_, hc₂⟩
  have hne₂ : db₂.workflow id ≠ none := by
    show (db₁.setStatus id inst.status none (clk 5)).workflow id ≠ none
    rw [workflow_setStatus, if_pos rfl, hrow₁]
    exact Option.some_ne_none _
  have hc₃ : (db₂.setPhaseIdx id inst.currentPhaseIdx (clk 6)).Constraints :=
    db₂.constraints.setPhaseIdx _ _
  refine ⟨((), ⟨_, hc₃⟩), ?_⟩
  unfold persistReconciled
  simp only [Txn.run_bind_ok, Txn.run_liftStore_ok]
  refine ⟨(), db₁, h₁, (), db₂, updateWorkflowStatus_ok.mpr ⟨hc₂, ?_, rfl⟩,
    updateCurrentPhaseIdx_ok.mpr ⟨hidx, hc₃, hne₂, rfl⟩⟩
  rw [hrow₁]
  exact Option.some_ne_none _

theorem reconcile_effect (h : db.Represents ledger) (id : WorkflowId) (canopy : CanopyClient)
    (forceAdvance : Bool) (files : Files) (clk : Clock) :
    ∃ ledger', ledger.Effect (.reconcile id canopy forceAdvance files clk) ledger' ∧
      (reconcile id canopy forceAdvance files clk db).2.Represents ledger' := by
  unfold reconcile
  rw [getWorkflow_of_represents h]
  cases he : ledger id with
  | none => exact ⟨ledger, .quiet _, h⟩
  | some e =>
    simp only [Option.map_some]
    cases hr : reconcilePhases e.inst canopy forceAdvance files clk with
    | error err => exact ⟨ledger, .quiet _, h⟩
    | ok result =>
      have hcase := reconcilePhases_reconciled hr
      simp only
      rcases withTransaction_cases (persistReconciled id result.inst clk) db with
        ⟨err, heq⟩ | ⟨u, db', hrun, heq⟩ <;> rw [heq]
      · exact ⟨ledger, .quiet _, h⟩
      have hedits := persistReconciled_edits (h.holds he) hcase.sameFrame hrun
      exact ⟨_, .reconciled id canopy forceAdvance files clk e result.inst he hcase,
        hedits.represents h⟩

/-- A reconciliation that computed an instance persists it, unless an index is out of range or a
live status meets a taken content hash. -/
theorem reconcile_persists (h : db.Represents ledger) {id : WorkflowId} {e : Entry}
    (he : ledger id = some e) {canopy : CanopyClient} {forceAdvance : Bool} {files : Files}
    {clk : Clock} {result : ReconcileResult}
    (hr : reconcilePhases e.inst canopy forceAdvance files clk = .ok result)
    (hlen : result.inst.phaseStates.length ≤ 2 ^ 63)
    (hidx : result.inst.currentPhaseIdx < 2 ^ 63)
    (hlive : result.inst.status.toString ∉ terminalStatuses → e.Live ∨ db.HashFree id) :
    (reconcile id canopy forceAdvance files clk db).2.Represents
      (ledger.put id (e.reconciled result.inst clk)) := by
  obtain ⟨row, hrow, henc⟩ := (h.holds he).row
  have hsame := (reconcilePhases_reconciled hr).sameFrame
  obtain ⟨r, hrun⟩ := exists_persistReconciled hrow hlen hidx
    (fun hs => (hlive hs).imp_left henc.live_iff.mpr) clk
  unfold reconcile
  simp only [getWorkflow_of_represents h, he, Option.map_some, hr]
  rw [withTransaction_ok hrun]
  exact (persistReconciled_edits (h.holds he) hsame hrun).represents h

/-- A resume that succeeds writes the current phase and the status, and nothing else. -/
theorem WorkflowInstance.resumeFromUserInput_ok {inst out : WorkflowInstance} {clk : Clock}
    (h : inst.resumeFromUserInput clk = (.ok (), out)) :
    inst.status = .awaitingUserInput ∧ ∃ p p', inst.currentPhase = some p ∧
      p'.phaseId = p.phaseId ∧ out.currentPhase = some p' ∧
      out.currentPhaseIdx = inst.currentPhaseIdx ∧
      out.phaseStates = inst.phaseStates.set inst.currentPhaseIdx p' := by
  unfold resumeFromUserInput at h
  split_ifs at h with hstatus
  · cases h
  cases hp : inst.currentPhase with
  | none => simp [hp] at h
  | some p =>
    simp only [hp] at h
    split_ifs at h with hpaused
    · cases h
    rw [modifyCurrent_eq _ hp] at h
    cases h
    refine ⟨not_not.mp hstatus, p, { p with pendingMessage := none, status := .active }, rfl, rfl,
      ?_, rfl, rfl⟩
    exact currentPhase_withCurrent hp _ (clk 0)

theorem resume_effect (h : db.Represents ledger) (id : WorkflowId) (clk : Clock) :
    ∃ ledger', ledger.Effect (.resume id clk) ledger' ∧
      (resume id clk db).2.Represents ledger' := by
  unfold resume
  rw [getWorkflow_of_represents h]
  cases he : ledger id with
  | none => exact ⟨ledger, .quiet _, h⟩
  | some e =>
    simp only [Option.map_some]
    cases hr : e.inst.resumeFromUserInput clk with
    | mk result inst =>
    cases result with
    | error err => exact ⟨ledger, .quiet _, h⟩
    | ok u =>
    obtain ⟨-, p, p', hp, hid, hcur, hidx, hstates⟩ := WorkflowInstance.resumeFromUserInput_ok hr
    simp only [hcur]
    rcases withTransaction_cases _ db with ⟨err, heq⟩ | ⟨u, db', hrun, heq⟩ <;> rw [heq]
    · exact ⟨ledger, .quiet _, h⟩
    simp only [Txn.run_bind_ok, Txn.run_liftStore_ok] at hrun
    obtain ⟨_, db₁, h₁, h₂⟩ := hrun
    rw [hidx] at h₂
    have hedits := ((h.holds he).edits.updateWorkflowStatus h₁).upsertPhaseState hp hid h₂
    refine ⟨_, .resumed id clk e inst he hr, ?_⟩
    rw [hstates]
    exact hedits.represents h

theorem recordTransition_represents (h : db.Represents ledger) (id : WorkflowId)
    (fromPhase toPhase reason : Option String) (now : DateTime) :
    (withTransaction (recordTransition id fromPhase toPhase reason now) db).2.Represents
      ledger :=
  withTransaction_execute_represents h fun id' => sameViews_addTransition _ _ id'

/-- Inserting a fresh instance by hash. -/
theorem findAndInsert_effect (h : db.Represents ledger) (request : DispatchRequest)
    {inst : WorkflowInstance} (hinst : FreshDispatch request.workflowId implAuditDefault inst)
    {q : WorkflowInstance × Db}
    (hrun : (findAndInsertWorkflowByHash inst request.contentHash).run db = .ok q) :
    ∃ ledger', ledger.Effect (.dispatch request) ledger' ∧ q.2.Represents ledger' := by
  rcases findAndInsertWorkflowByHash_ok hrun with hsame | ⟨hfresh, htables, -⟩
  · rw [hsame]
    exact ⟨ledger, .quiet _, h⟩
  have hnone : ledger inst.workflowId = none := by
    cases he : ledger inst.workflowId with
    | none => rfl
    | some e =>
      obtain ⟨row, hrow, -⟩ := (h.holds he).row
      rw [workflow_eq_none_iff.mpr hfresh] at hrow
      cases hrow
  have hnodup : (inst.phaseStates.map (·.phaseId)).Nodup := by
    rw [hinst.phaseIds]
    decide
  have hedits : db.Edits inst.workflowId q.2.toTables ⟨inst, some request.contentHash, none⟩ := by
    rw [htables]
    refine ⟨holds_insert db.constraints hfresh (h.absent hnone).2 hinst.transitions hnodup _,
      fun id' hne => ?_⟩
    exact (sameViews_insertWorkflow hne rfl hfresh).trans (sameViews_upsertPhases hne ..)
  rw [hinst.workflowId] at hnone hedits
  exact ⟨_, .dispatched request inst hnone hinst, hedits.represents h⟩

theorem dispatch_effect (h : db.Represents ledger) (request : DispatchRequest) :
    ∃ ledger', ledger.Effect (.dispatch request) ledger' ∧
      (dispatch request db).2.Represents ledger' := by
  unfold dispatch
  cases request.handoff with
  | error err => exact ⟨ledger, .quiet _, h⟩
  | ok brief =>
    simp only [implAuditDefault_validate]
    split
    · exact ⟨ledger, .quiet _, h⟩
    next inst calls hdispatch =>
    have hinst := dispatchWorkflow_ok hdispatch
    rcases withTransaction_cases (findAndInsertWorkflowByHash inst request.contentHash) db with
      ⟨err, heq⟩ | ⟨persisted, db₁, hrun, heq⟩ <;> rw [heq]
    · exact ⟨ledger, .quiet _, h⟩
    obtain ⟨ledger', heffect, hrep⟩ := findAndInsert_effect h request hinst hrun
    refine ⟨ledger', heffect, ?_⟩
    have hlog := recordTransition_represents hrep persisted.workflowId none
      (persisted.phaseStates.head?.map (·.phaseId)) (some "initial dispatch") (request.clk 1)
    simp only
    generalize withTransaction (recordTransition _ _ _ _ _) db₁ = out at hlog ⊢
    obtain ⟨result, db₂⟩ := out
    cases result with
    | error err => exact hlog
    | ok u => exact hlog

/-- **Refinement.** Every command does to the ledger what `Ledger.Effect` allows. -/
theorem step_effect (h : db.Represents ledger) (cmd : Command) :
    ∃ ledger', ledger.Effect cmd ledger' ∧ (step db cmd).Represents ledger' := by
  cases cmd with
  | dispatch request => exact dispatch_effect h request
  | reconcile id canopy forceAdvance files clk =>
    exact reconcile_effect h id canopy forceAdvance files clk
  | cancel id clk => exact cancel_effect h id clk
  | fail id reason clk => exact fail_effect h id reason clk
  | complete id clk => exact complete_effect h id clk
  | resume id clk => exact resume_effect h id clk
  | sweep heartbeatTimeout gcRetention clk rows =>
    obtain ⟨ledger', hswept, hrep⟩ := runSweep_represents h heartbeatTimeout gcRetention clk rows
    exact ⟨ledger', .swept heartbeatTimeout gcRetention clk rows ledger' hswept, hrep⟩
  | heartbeat runtimeId now => exact ⟨ledger, .quiet _, upsertHeartbeat_represents h runtimeId now⟩

end Commands

end Hymenium
