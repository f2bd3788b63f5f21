import Hymenium.Dispatch.Frame
import Hymenium.Monitor.Handler
import Hymenium.Store.Sweeper

/-!
# Checking the progress of a phase

`checkProgress` (`src/monitor/progress.rs`) and `reconcilePhases` both read the status string of the
task of the current phase. They agree on every answer but three: the monitor knows the failure status
"failed", the reconciliation "cancelled" and "canceled" (`statusReadersAgree_iff`).

Durations are in nanoseconds.
-/

namespace Hymenium

open WorkflowInstance

/-- The text of a dispatch error. -/
def DispatchError.toString : DispatchError → String
  | .canopyError msg => s!"canopy error: {msg}"
  | .taskCreationFailed msg => s!"task creation failed: {msg}"
  | .handoffNotFound msg => s!"handoff not found: {msg}"
  | .templateNotFound msg => s!"template not found: {msg}"
  | .invalidState msg => s!"invalid state: {msg}"

/-- Report from a completeness check on a handoff. -/
structure CompletenessReport where
  complete : Bool
  totalItems : ℕ
  completedItems : ℕ
  missing : List String
  deriving DecidableEq

/-- What Canopy answers to `get_task` and to `check_completeness`. -/
structure MonitorClient extends CanopyClient where
  checkCompleteness : String → Except DispatchError CompletenessReport

/-- Configuration for progress monitoring thresholds. -/
structure MonitorConfig where
  heartbeatTimeout : ℕ := 5 * 60 * 1000000000
  progressTimeout : ℕ := 30 * 60 * 1000000000

/-- A configured duration as a span of time. -/
def configSpan (field : String) (duration : ℕ) : Except MonitorError ℤ :=
  match fromStd duration with
  | some span => .ok span
  | none =>
    .error (.invalidConfig field "Source duration value is out of range for the target type")

/-- What the completeness of the handoff says about a phase that is `elapsed` old. -/
def checkHandoff (phaseId handoffPath : String) (started now : DateTime) (canopy : MonitorClient)
    (config : MonitorConfig) : Except MonitorError ProgressSignal :=
  match canopy.checkCompleteness handoffPath with
  | .error e => .error (.canopyError e.toString)
  | .ok completeness =>
    if completeness.complete then .ok (.phaseComplete phaseId)
    else match configSpan "progress_timeout" config.progressTimeout with
    | .error e => .error e
    | .ok progressTimeout =>
      let progressElapsed := progressTimeout < now - started
      if progressElapsed ∧ completeness.completedItems = 0 then
        .ok (.stalled phaseId started .noCodeDiff)
      else if progressElapsed ∧ 0 < completeness.completedItems ∧ ¬ completeness.complete then
        .ok (.stalled phaseId started .noPasteMarkerProgress)
      else .ok (.healthy phaseId now)

/-- The check of a phase whose task is not in a terminal state. -/
def checkActivity (phase : PhaseState) (task : TaskDetail) (handoffPath : String)
    (canopy : MonitorClient) (config : MonitorConfig) (now : DateTime) :
    Except MonitorError ProgressSignal :=
  match phase.startedAt with
  | none => .error (.invalidState
      s!"phase {phase.phaseId} is Active but has no started_at timestamp")
  | some started =>
    match configSpan "heartbeat_timeout" config.heartbeatTimeout with
    | .error e => .error e
    | .ok heartbeatTimeout =>
      let heartbeatElapsed := heartbeatTimeout < now - started
      if heartbeatElapsed ∧ (task.status = "pending" ∨ task.status = "assigned") then
        .ok (.stalled phase.phaseId started .heartbeatTimeout)
      else checkHandoff phase.phaseId handoffPath started now canopy config

/-- Evaluate the health of the current active phase. -/
def checkProgress (workflow : WorkflowInstance) (canopy : MonitorClient) (config : MonitorConfig)
    (now : DateTime) : Except MonitorError ProgressSignal :=
  match workflow.phaseStates[workflow.currentPhaseIdx]? with
  | none => .error (.invalidState s!"no phase at index {workflow.currentPhaseIdx}")
  | some phase =>
    if phase.status ≠ .active then
      .error (.phaseNotActive s!"phase {phase.phaseId} is {phase.status.debug}, not Active")
    else match phase.canopyTaskId with
    | none => .error (.invalidState s!"phase {phase.phaseId} has no canopy_task_id")
    | some taskId =>
      match canopy.getTask taskId with
      | .error e => .error (.canopyError e.toString)
      | .ok task =>
        if task.status = "completed" then .ok (.phaseComplete phase.phaseId)
        else if task.status = "failed" then
          .ok (.failed phase.phaseId s!"canopy task {taskId} failed")
        else checkActivity phase task workflow.handoffPath canopy config now

/-- Whether the signal indicates a stalled phase. -/
def isStalled : ProgressSignal → Bool
  | .stalled _ _ _ => true
  | .healthy _ _ | .phaseComplete _ | .gateSatisfied _ | .failed _ _ => false

/-! ## What a check can report -/

/-- The signals of a check on the activity of a phase. -/
inductive ActivitySignal (phaseId : String) (now : DateTime) : ProgressSignal → Prop
  | healthy : ActivitySignal phaseId now (.healthy phaseId now)
  | complete : ActivitySignal phaseId now (.phaseComplete phaseId)
  | stalled (started : DateTime) (reason : StallReason) (h : reason ≠ .statusChatterOnly) :
      ActivitySignal phaseId now (.stalled phaseId started reason)

section Signals

variable {phase : PhaseState} {task : TaskDetail} {phaseId handoffPath : String}
  {canopy : MonitorClient} {config : MonitorConfig} {started now : DateTime}
  {signal : ProgressSignal}

theorem checkHandoff_signal
    (h : checkHandoff phaseId handoffPath started now canopy config = .ok signal) :
    ActivitySignal phaseId now signal := by
  unfold checkHandoff at h
  cases hc : canopy.checkCompleteness handoffPath with
  | error e =>
    rw [hc] at h
    cases h
  | ok completeness =>
    rw [hc] at h
    dsimp only at h
    split_ifs at h with hcomplete
    · cases h
      exact .complete
    cases hspan : configSpan "progress_timeout" config.progressTimeout with
    | error e =>
      rw [hspan] at h
      cases h
    | ok progressTimeout =>
      rw [hspan] at h
      dsimp only at h
      split_ifs at h with hnone hsome
      · cases h
        exact .stalled started _ nofun
      · cases h
        exact .stalled started _ nofun
      · cases h
        exact .healthy

theorem checkActivity_signal
    (h : checkActivity phase task handoffPath canopy config now = .ok signal) :
    ActivitySignal phase.phaseId now signal := by
  unfold checkActivity at h
  cases hstarted : phase.startedAt with
  | none =>
    rw [hstarted] at h
    cases h
  | some started =>
    rw [hstarted] at h
    dsimp only at h
    cases hspan : configSpan "heartbeat_timeout" config.heartbeatTimeout with
    | error e =>
      rw [hspan] at h
      cases h
    | ok heartbeatTimeout =>
      rw [hspan] at h
      dsimp only at h
      split_ifs at h with hlate
      · cases h
        exact .stalled started _ nofun
      · exact checkHandoff_signal h

/-- A check on the activity reports no completion when the completeness is not known. -/
theorem checkActivity_ne_complete {e : DispatchError}
    (hc : canopy.checkCompleteness = fun _ => .error e) (id : String) :
    checkActivity phase task handoffPath canopy config now ≠ .ok (.phaseComplete id) := by
  unfold checkActivity checkHandoff
  simp only [hc]
  cases phase.startedAt with
  | none => nofun
  | some started =>
    dsimp only
    cases configSpan "heartbeat_timeout" config.heartbeatTimeout with
    | error e => nofun
    | ok heartbeatTimeout =>
      dsimp only
      split_ifs
      · nofun
      · nofun

/-- A check that reports a signal has found an active phase and its task. -/
theorem checkProgress_ok {workflow : WorkflowInstance}
    (h : checkProgress workflow canopy config now = .ok signal) :
    ∃ phase taskId task, workflow.currentPhase = some phase ∧ phase.status = .active ∧
      phase.canopyTaskId = some taskId ∧ canopy.getTask taskId = .ok task := by
  unfold checkProgress at h
  cases hp : workflow.phaseStates[workflow.currentPhaseIdx]? with
  | none =>
    rw [hp] at h
    cases h
  | some phase =>
    rw [hp] at h
    dsimp only at h
    split_ifs at h with hs
    cases ht : phase.canopyTaskId with
    | none =>
      rw [ht] at h
      cases h
    | some taskId =>
      rw [ht] at h
      dsimp only at h
      cases hans : canopy.getTask taskId with
      | error e =>
        rw [hans] at h
        cases h
      | ok task => exact ⟨phase, taskId, task, hp, not_not.mp hs, ht, hans⟩

end Signals

/-! ## The two readers of a task status -/

/-- The check reports that the phase has failed. -/
def ReportsFailed (inst : WorkflowInstance) (canopy : MonitorClient) (config : MonitorConfig)
    (now : DateTime) : Prop :=
  ∃ phaseId error, checkProgress inst canopy config now = .ok (.failed phaseId error)

/-- The check reports the phase complete because of the task status: whatever the completeness
is. -/
def ReportsComplete (inst : WorkflowInstance) (canopy : MonitorClient) (config : MonitorConfig)
    (now : DateTime) : Prop :=
  ∀ completeness, ∃ phaseId,
    checkProgress inst { canopy with checkCompleteness := completeness } config now =
      .ok (.phaseComplete phaseId)

/-- The reconciliation marks the current phase failed. -/
def MarksFailed (inst : WorkflowInstance) (canopy : CanopyClient) (forceAdvance : Bool)
    (files : Files) (clk : Clock) : Prop :=
  ∃ result phaseId reason, reconcilePhases inst canopy forceAdvance files clk = .ok result ∧
    result.outcomes[inst.currentPhaseIdx]? = some (.markedFailed phaseId reason)

/-- The reconciliation completes the current phase. -/
def MarksComplete (inst : WorkflowInstance) (canopy : CanopyClient) (forceAdvance : Bool)
    (files : Files) (clk : Clock) : Prop :=
  ∃ result phase, reconcilePhases inst canopy forceAdvance files clk = .ok result ∧
    result.inst.phaseStates[inst.currentPhaseIdx]? = some phase ∧ phase.status = .completed

section Readers

variable {inst : WorkflowInstance} {phase : PhaseState} {taskId : String}

theorem checkProgress_error (hp : inst.currentPhase = some phase) (hs : phase.status = .active)
    (ht : phase.canopyTaskId = some taskId) {canopy : MonitorClient} {e : DispatchError}
    (hans : canopy.getTask taskId = .error e) (config : MonitorConfig) (now : DateTime) :
    checkProgress inst canopy config now = .error (.canopyError e.toString) := by
  have hcur : inst.phaseStates[inst.currentPhaseIdx]? = some phase := hp
  unfold checkProgress
  simp only [hcur, hs, ne_eq, not_true_eq_false, if_false, ht, hans]

theorem checkProgress_task (hp : inst.currentPhase = some phase) (hs : phase.status = .active)
    (ht : phase.canopyTaskId = some taskId) {canopy : MonitorClient} {task : TaskDetail}
    (hans : canopy.getTask taskId = .ok task) (config : MonitorConfig) (now : DateTime) :
    checkProgress inst canopy config now =
      if task.status = "completed" then .ok (.phaseComplete phase.phaseId)
      else if task.status = "failed" then
        .ok (.failed phase.phaseId s!"canopy task {taskId} failed")
      else checkActivity phase task inst.handoffPath canopy config now := by
  have hcur : inst.phaseStates[inst.currentPhaseIdx]? = some phase := hp
  unfold checkProgress
  simp only [hcur, hs, ne_eq, not_true_eq_false, if_false, ht, hans]

theorem reportsFailed_iff (hp : inst.currentPhase = some phase) (hs : phase.status = .active)
    (ht : phase.canopyTaskId = some taskId) (canopy : MonitorClient) (config : MonitorConfig)
    (now : DateTime) :
    ReportsFailed inst canopy config now ↔
      ∃ task, canopy.getTask taskId = .ok task ∧ task.status = "failed" := by
  unfold ReportsFailed
  cases hans : canopy.getTask taskId with
  | error e =>
    rw [checkProgress_error hp hs ht hans]
    apply iff_of_false
    · rintro ⟨phaseId, error, h⟩
      cases h
    · rintro ⟨task, h, -⟩
      cases h
  | ok task =>
    rw [checkProgress_task hp hs ht hans]
    constructor
    · rintro ⟨phaseId, error, h⟩
      split_ifs at h with hcompleted hfailed
      · cases h
      · exact ⟨task, rfl, hfailed⟩
      · cases checkActivity_signal h
    · rintro ⟨task', heq, hfailed⟩
      cases heq
      have hne : task.status ≠ "completed" := by
        rw [hfailed]
        decide
      exact ⟨_, _, by rw [if_neg hne, if_pos hfailed]⟩

theorem reportsComplete_iff (hp : inst.currentPhase = some phase) (hs : phase.status = .active)
    (ht : phase.canopyTaskId = some taskId) (canopy : MonitorClient) (config : MonitorConfig)
    (now : DateTime) :
    ReportsComplete inst canopy config now ↔
      ∃ task, canopy.getTask taskId = .ok task ∧ task.status = "completed" := by
  constructor
  · intro h
    -- a completeness that cannot be checked leaves the status only
    let blind : MonitorClient :=
      { canopy with checkCompleteness := fun _ => .error (.canopyError "") }
    obtain ⟨phaseId, heq⟩ := h blind.checkCompleteness
    cases hans : canopy.getTask taskId with
    | error e =>
      have herr : blind.getTask taskId = .error e := hans
      cases heq.symm.trans (checkProgress_error hp hs ht herr config now)
    | ok task =>
      have hok : blind.getTask taskId = .ok task := hans
      have hcheck := heq.symm.trans (checkProgress_task hp hs ht hok config now)
      split_ifs at hcheck with hcompleted hfailed
      · exact ⟨task, rfl, hcompleted⟩
      · cases hcheck
      · exact absurd hcheck.symm (checkActivity_ne_complete rfl phaseId)
  · rintro ⟨task, hans, hcompleted⟩ completeness
    have hok : ({ canopy with checkCompleteness := completeness } : MonitorClient).getTask taskId =
        .ok task := hans
    rw [checkProgress_task hp hs ht hok, if_pos hcompleted]
    exact ⟨_, rfl⟩

variable {forceAdvance : Bool} {files : Files} {clk : Clock}

theorem Settled.marksFailed_iff {task : TaskDetail} {outcome : PhaseReconcileOutcome}
    {out : WorkflowInstance}
    (h : Settled inst phase taskId task forceAdvance files clk outcome out) :
    (∃ phaseId reason, outcome = .markedFailed phaseId reason) ↔
      isFailedStatus task.status = true := by
  cases h with
  | stopped p' t signal hc | advanced p' t hc =>
    rw [not_failed_of_completed hc]
    apply iff_of_false _ Bool.false_ne_true
    rintro ⟨phaseId, reason, heq⟩
    cases heq
  | failed p' t hf => exact iff_of_true ⟨_, _, rfl⟩ hf
  | waiting hc hf =>
    rw [hf]
    apply iff_of_false _ Bool.false_ne_true
    rintro ⟨phaseId, reason, heq⟩
    cases heq

theorem marksFailed_iff (hp : inst.currentPhase = some phase)
    (hs : phase.status.isTerminal = false) (ht : phase.canopyTaskId = some taskId)
    (canopy : CanopyClient) :
    MarksFailed inst canopy forceAdvance files clk ↔
      ∃ task, canopy.getTask taskId = .ok task ∧ isFailedStatus task.status = true := by
  unfold MarksFailed
  cases hans : canopy.getTask taskId with
  | error e =>
    rw [reconcilePhases_fetchError (openTask_of_open hp ht hs) hans]
    apply iff_of_false
    · rintro ⟨result, phaseId, reason, h, -⟩
      cases h
    · rintro ⟨task, h, -⟩
      cases h
  | ok task =>
    obtain ⟨outcome, result, hr, houtcome, hsettled⟩ :=
      reconcilePhases_settled hp hs ht hans forceAdvance files clk
    rw [hr]
    constructor
    · rintro ⟨result', phaseId, reason, heq, hfailed⟩
      cases heq
      rw [houtcome] at hfailed
      exact ⟨task, rfl, hsettled.marksFailed_iff.mp ⟨phaseId, reason, Option.some.inj hfailed⟩⟩
    · rintro ⟨task', heq, hfailed⟩
      cases heq
      obtain ⟨phaseId, reason, heq⟩ := hsettled.marksFailed_iff.mpr hfailed
      exact ⟨result, phaseId, reason, rfl, by rw [houtcome, heq]⟩

/-- The current phase is complete after a reconciliation when its task was. -/
theorem Reconciled.completes {out : WorkflowInstance} {task : TaskDetail}
    (h : Reconciled inst forceAdvance files (some (.ok task)) out)
    (hp : inst.currentPhase = some phase) (hs : phase.status ≠ .completed) :
    (∃ p, out.phaseStates[inst.currentPhaseIdx]? = some p ∧ p.status = .completed) ↔
      isCompletedStatus task.status = true := by
  have hcur : inst.phaseStates[inst.currentPhaseIdx]? = some phase := hp
  have hset : ∀ p', (inst.phaseStates.set inst.currentPhaseIdx p')[inst.currentPhaseIdx]? =
      some p' := fun p' => List.getElem?_set_self (List.getElem?_eq_some_iff.mp hcur).1
  cases h with
  | waiting _ hc =>
    rw [hc]
    apply iff_of_false _ Bool.false_ne_true
    rintro ⟨p, heq, hcompleted⟩
    rw [hcur] at heq
    cases heq
    exact hs hcompleted
  | failed _ p' t hf hfailed =>
    apply iff_of_false
    · rintro ⟨p, heq, hcompleted⟩
      cases (hset p').symm.trans heq
      cases hfailed.symm.trans hcompleted
    · intro hc
      rw [not_failed_of_completed hc] at hf
      cases hf
  | stopped _ p' t hc _ hcompleted | finished _ p' t hc _ hcompleted
  | entered _ p' _ t _ _ hc _ hcompleted | stranded _ p' t hc _ hcompleted
  | blocked _ p' t _ hc _ hcompleted => exact iff_of_true ⟨p', hset p', hcompleted⟩ hc

theorem marksComplete_iff (hp : inst.currentPhase = some phase)
    (hs : phase.status.isTerminal = false) (ht : phase.canopyTaskId = some taskId)
    (canopy : CanopyClient) :
    MarksComplete inst canopy forceAdvance files clk ↔
      ∃ task, canopy.getTask taskId = .ok task ∧ isCompletedStatus task.status = true := by
  unfold MarksComplete
  cases hans : canopy.getTask taskId with
  | error e =>
    rw [reconcilePhases_fetchError (openTask_of_open hp ht hs) hans]
    apply iff_of_false
    · rintro ⟨result, p, h, -⟩
      cases h
    · rintro ⟨task, h, -⟩
      cases h
  | ok task =>
    have hok : ∃ result, reconcilePhases inst canopy forceAdvance files clk = .ok result ∧
        Reconciled inst forceAdvance files (some (.ok task)) result.inst :=
      reconcilePhases_answered forceAdvance files clk (openTask_of_open hp ht hs) hans
    obtain ⟨result, hr, hcase⟩ := hok
    rw [hr]
    have hne : phase.status ≠ .completed := by
      rintro heq
      rw [heq] at hs
      cases hs
    have hcompletes := hcase.completes hp hne
    constructor
    · rintro ⟨result', p, heq, hcurrent, hcompleted⟩
      cases heq
      exact ⟨task, rfl, hcompletes.mp ⟨p, hcurrent, hcompleted⟩⟩
    · rintro ⟨task', heq, hc⟩
      cases heq
      obtain ⟨p, hcurrent, hcompleted⟩ := hcompletes.mpr hc
      exact ⟨result, p, rfl, hcurrent, hcompleted⟩

end Readers

/-- The monitor and the reconciliation read the same out of one answer. -/
def StatusReadersAgree (inst : WorkflowInstance) (canopy : MonitorClient) (config : MonitorConfig)
    (now : DateTime) (forceAdvance : Bool) (files : Files) (clk : Clock) : Prop :=
  (ReportsFailed inst canopy config now ↔
      MarksFailed inst canopy.toCanopyClient forceAdvance files clk) ∧
    (ReportsComplete inst canopy config now ↔
      MarksComplete inst canopy.toCanopyClient forceAdvance files clk)

/-- No text is a failure for both readers. -/
theorem failure_texts (status : String) :
    (status = "failed" ↔ isFailedStatus status = true) ↔
      status ∉ ["failed", "cancelled", "canceled"] := by
  have htexts : isFailedStatus status = true ↔ status = "cancelled" ∨ status = "canceled" := by
    simp [isFailedStatus]
  by_cases hf : status = "failed"
  · rw [hf]
    decide
  · rw [iff_false_left hf, htexts]
    simp [hf]

/-- **Two readers of one status.** On an active phase with a task the monitor and the reconciliation
read the same, exactly when the status is none of the three texts for a failure. -/
theorem statusReadersAgree_iff (inst : WorkflowInstance) (phase : PhaseState) (taskId : String)
    (canopy : MonitorClient) (config : MonitorConfig) (now : DateTime) (forceAdvance : Bool)
    (files : Files) (clk : Clock) (hp : inst.currentPhase = some phase)
    (hs : phase.status = .active) (ht : phase.canopyTaskId = some taskId) :
    StatusReadersAgree inst canopy config now forceAdvance files clk ↔
      ∀ task, canopy.getTask taskId = .ok task →
        task.status ∉ ["failed", "cancelled", "canceled"] := by
  have hopen : phase.status.isTerminal = false := by rw [hs]; rfl
  unfold StatusReadersAgree
  rw [reportsFailed_iff hp hs ht, marksFailed_iff hp hopen ht, reportsComplete_iff hp hs ht,
    marksComplete_iff hp hopen ht]
  cases hans : canopy.getTask taskId with
  | error e => simp
  | ok task =>
    simp only [Except.ok.injEq, exists_eq_left', forall_eq', failure_texts, and_iff_left_iff_imp]
    intro _
    exact beq_iff_eq.symm

/-- A workflow at work on its first phase. -/
def activeWorkflow : WorkflowInstance :=
  let inst := new "wf" implAuditDefault "handoff.md" 0
  { inst with
    status := .dispatched
    phaseStates := inst.phaseStates.set 0 { PhaseState.new "implement" .worker with
      status := .active, canopyTaskId := some "task-1", startedAt := some 0 } }

/-- Canopy reports the task in this status, and nothing of the handoff done. -/
def monitored (status : String) : MonitorClient :=
  { (reporting status).first with checkCompleteness := fun _ => .ok ⟨false, 3, 0, []⟩ }

theorem statusReadersAgree_iff_completed :
    StatusReadersAgree activeWorkflow (monitored "completed") {} 0 true (fun _ => true) Int.ofNat ↔
      ∀ task, (monitored "completed").getTask "task-1" = .ok task →
        task.status ∉ ["failed", "cancelled", "canceled"] :=
  statusReadersAgree_iff activeWorkflow _ "task-1" (monitored "completed") {} 0 true
    (fun _ => true) Int.ofNat (by rfl) (by rfl) (by rfl)

/-- A cancelled task: the reconciliation fails the phase, the monitor finds it healthy. -/
theorem cancelled_is_healthy :
    checkProgress activeWorkflow (monitored "cancelled") {} 0 = .ok (.healthy "implement" 0) ∧
      ∃ result, reconcilePhases activeWorkflow (monitored "cancelled").toCanopyClient true
          (fun _ => true) Int.ofNat = .ok result ∧
        result.outcomes[activeWorkflow.currentPhaseIdx]? =
          some (.markedFailed "implement" "Canopy task task-1 was cancelled") ∧
        ¬ StatusReadersAgree activeWorkflow (monitored "cancelled") {} 0 true (fun _ => true)
          Int.ofNat := by
  have hhealthy : checkProgress activeWorkflow (monitored "cancelled") {} 0 =
      .ok (.healthy "implement" 0) := by decide +kernel
  refine ⟨hhealthy, _, rfl, rfl, ?_⟩
  intro hagree
  obtain ⟨phaseId, error, h⟩ := hagree.1.mpr ⟨_, _, _, rfl, rfl⟩
  cases hhealthy.symm.trans h

end Hymenium
