import Hymenium.Workflow.Steps

/-!
# Reconciling phases against Canopy

`reconcilePhases` (`src/dispatch/mod.rs`): the phase loop, the fetch of the current phase's task,
the stop signal, the advance under the evidence or the permissive evaluator.

`Settled` says what the loop body does with a fetched task (`reconcilePhases_ok_cases`).
`Reconciled` lists the instances a reconciliation can leave behind, by the answer it received, and
`reconcilePhases_reconciled` proves that the list is complete.
-/

namespace Hymenium

/-- Outcome of reconciling a single phase against Canopy. -/
inductive PhaseReconcileOutcome where
  | noTaskId
  | stillActive
  | markedCompleted (phaseId : String) (advanced : Bool)
  | markedFailed (phaseId reason : String)
  | alreadyTerminal (phaseId : String)
  | stoppedByAgentSignal (phaseId : String) (nextAction : Option NextAction)
  deriving DecidableEq

/-- Result of reconciling all phases in a workflow against Canopy. -/
structure ReconcileResult where
  inst : WorkflowInstance
  outcomes : List PhaseReconcileOutcome
  deriving DecidableEq

/-- What Canopy answers to `get_task` during one reconciliation. -/
structure CanopyClient where
  getTask : String → Except DispatchError TaskDetail

/-- Completed, failed and skipped phases are done. -/
def PhaseStatus.isTerminal : PhaseStatus → Bool
  | .completed | .failed | .skipped => true
  | .pending | .active | .awaitingUserInput => false

/-- The gate evaluator of a reconciliation. -/
def reconcileEvaluator (forceAdvance : Bool) (task : TaskDetail) : GateEvaluator :=
  if forceAdvance then permissiveGateEvaluator else evidenceGateEvaluator task

/-- Try to advance, and set the workflow status by the result. -/
def advanceReconciled (inst : WorkflowInstance) (evaluator : GateEvaluator) (files : Files)
    (clk : Clock) : WorkflowInstance × Bool :=
  match inst.advance evaluator files clk with
  | (.ok _, inst) => ({ inst with status := .dispatched }, true)
  | (.error .alreadyAtFinalPhase, inst) => ({ inst with status := .completed }, true)
  | (.error _, inst) => (inst, false)

/-- The loop body for the current phase. The completion takes at most three clock readings, the
advance takes the ones after them. -/
def reconcileCurrent (inst : WorkflowInstance) (phase : PhaseState) (canopy : CanopyClient)
    (forceAdvance : Bool) (files : Files) (clk : Clock) :
    Except DispatchError (PhaseReconcileOutcome × WorkflowInstance) :=
  match phase.canopyTaskId with
  | none => .ok (.noTaskId, inst)
  | some taskId =>
    if phase.status.isTerminal then .ok (.alreadyTerminal phase.phaseId, inst)
    else match canopy.getTask taskId with
    | .error e => .error e
    | .ok task =>
      if isCompletedStatus task.status then
        match inst.reconcileCompleteCurrentPhase clk with
        | (.error e, _) => .error (.invalidState
            s!"reconcile complete failed for phase {phase.phaseId}: {e.toString}")
        | (.ok (), inst) =>
          match task.stopSignal with
          | some signal =>
            .ok (.stoppedByAgentSignal phase.phaseId signal.nextAction,
              { inst with status := .completed })
          | none =>
            let (inst, advanced) := advanceReconciled inst (reconcileEvaluator forceAdvance task)
              files fun k => clk (k + 3)
            .ok (.markedCompleted phase.phaseId advanced, inst)
      else if isFailedStatus task.status then
        let reason := s!"Canopy task {taskId} was {task.status}"
        match inst.reconcileFailCurrentPhase reason clk with
        | (.error e, _) => .error (.invalidState
            s!"reconcile fail for phase {phase.phaseId}: {e.toString}")
        | (.ok (), inst) => .ok (.markedFailed phase.phaseId reason, inst)
      else .ok (.stillActive, inst)

/-- The phase loop over the remaining indices. The current index is read once, before the loop. -/
def reconcileLoop (canopy : CanopyClient) (forceAdvance : Bool) (files : Files) (clk : Clock)
    (currentIdx : ℕ) : List ℕ → WorkflowInstance → Except DispatchError ReconcileResult
  | [], inst => .ok ⟨inst, []⟩
  | idx :: rest, inst => do
    let (outcome, inst) ←
      if idx ≠ currentIdx then .ok (.noTaskId, inst)
      else match inst.phaseStates[idx]? with
        | none => .ok (.noTaskId, inst)
        | some phase => reconcileCurrent inst phase canopy forceAdvance files clk
    let result ← reconcileLoop canopy forceAdvance files clk currentIdx rest inst
    return { result with outcomes := outcome :: result.outcomes }

/-- Reconcile in-flight workflow phases against their Canopy task statuses. -/
def reconcilePhases (inst : WorkflowInstance) (canopy : CanopyClient) (forceAdvance : Bool)
    (files : Files) (clk : Clock) : Except DispatchError ReconcileResult :=
  reconcileLoop canopy forceAdvance files clk inst.currentPhaseIdx
    (List.range inst.phaseStates.length) inst

/-! ## The loop is one phase -/

section Loop

variable {inst : WorkflowInstance} {canopy : CanopyClient} {forceAdvance : Bool} {files : Files}
  {clk : Clock} {currentIdx : ℕ}

theorem reconcileLoop_skip {l : List ℕ} (h : currentIdx ∉ l) :
    reconcileLoop canopy forceAdvance files clk currentIdx l inst =
      .ok ⟨inst, List.replicate l.length .noTaskId⟩ := by
  induction l with
  | nil => rfl
  | cons idx rest ih =>
    rw [List.mem_cons, not_or] at h
    unfold reconcileLoop
    rw [if_pos (Ne.symm h.1)]
    simp only [bind, Except.bind, ih h.2]
    rfl

/-- Only the current phase is reconciled; the others yield `noTaskId`. -/
theorem reconcileLoop_split {pre post : List ℕ} {phase : PhaseState} (hpre : currentIdx ∉ pre)
    (hpost : currentIdx ∉ post) (hp : inst.phaseStates[currentIdx]? = some phase) :
    reconcileLoop canopy forceAdvance files clk currentIdx (pre ++ currentIdx :: post) inst =
      (reconcileCurrent inst phase canopy forceAdvance files clk).map fun out =>
        ⟨out.2, List.replicate pre.length .noTaskId ++
          out.1 :: List.replicate post.length .noTaskId⟩ := by
  induction pre with
  | nil =>
    rw [List.nil_append, reconcileLoop]
    simp only [ne_eq, not_true_eq_false, if_false, hp]
    cases reconcileCurrent inst phase canopy forceAdvance files clk with
    | error e => rfl
    | ok out =>
      simp only [bind, Except.bind, reconcileLoop_skip hpost]
      rfl
  | cons idx rest ih =>
    rw [List.mem_cons, not_or] at hpre
    rw [List.cons_append, reconcileLoop, if_pos (Ne.symm hpre.1)]
    simp only [bind, Except.bind, ih hpre.2]
    cases reconcileCurrent inst phase canopy forceAdvance files clk <;> rfl

/-- The indices before and after one of them. -/
theorem range_eq_of_lt {i n : ℕ} (h : i < n) :
    List.range n = List.range i ++ i :: (List.range (n - (i + 1))).map (i + 1 + ·) := by
  obtain ⟨m, hm⟩ := Nat.exists_eq_add_of_lt h
  have hrest : n - (i + 1) = m := by omega
  rw [hrest, hm, Nat.add_assoc, Nat.add_comm m 1, ← Nat.add_assoc, List.range_add,
    List.range_succ, List.append_assoc, List.singleton_append]

theorem reconcilePhases_none (h : inst.currentPhase = none) :
    reconcilePhases inst canopy forceAdvance files clk =
      .ok ⟨inst, List.replicate inst.phaseStates.length .noTaskId⟩ := by
  unfold reconcilePhases
  have hle : inst.phaseStates.length ≤ inst.currentPhaseIdx := List.getElem?_eq_none_iff.mp h
  rw [reconcileLoop_skip (by simpa using hle), List.length_range]

theorem reconcilePhases_some {phase : PhaseState} (h : inst.currentPhase = some phase) :
    reconcilePhases inst canopy forceAdvance files clk =
      (reconcileCurrent inst phase canopy forceAdvance files clk).map fun out =>
        ⟨out.2, List.replicate inst.currentPhaseIdx .noTaskId ++
          out.1 :: List.replicate (inst.phaseStates.length - (inst.currentPhaseIdx + 1))
            .noTaskId⟩ := by
  unfold reconcilePhases
  have hlt : inst.currentPhaseIdx < inst.phaseStates.length :=
    (List.getElem?_eq_some_iff.mp h).1
  rw [range_eq_of_lt hlt, reconcileLoop_split (by simp) (by simp; omega) h]
  simp only [List.length_range, List.length_map]

end Loop

/-! ## The answer for the current phase -/

namespace WorkflowInstance

/-- The task a reconciliation fetches: `none` when there is no current phase, when it is done, or
when it has no task id. -/
def openTask (inst : WorkflowInstance) : Option String :=
  inst.currentPhase.bind fun phase =>
    if phase.status.isTerminal then none else phase.canopyTaskId

/-- The answer a reconciliation receives, `none` when it asks nothing. -/
def answer (inst : WorkflowInstance) (canopy : CanopyClient) :
    Option (Except DispatchError TaskDetail) :=
  inst.openTask.map canopy.getTask

theorem openTask_of_open {inst : WorkflowInstance} {phase : PhaseState} {taskId : String}
    (h : inst.currentPhase = some phase) (ht : phase.canopyTaskId = some taskId)
    (hs : phase.status.isTerminal = false) : inst.openTask = some taskId := by
  simp [openTask, h, ht, hs]

theorem openTask_of_terminal {inst : WorkflowInstance} {phase : PhaseState}
    (h : inst.currentPhase = some phase) (hs : phase.status.isTerminal = true) :
    inst.openTask = none := by
  simp [openTask, h, hs]

/-- A reconciliation asks about a current phase that is not done and has a task. -/
theorem currentPhase_of_openTask {inst : WorkflowInstance} {taskId : String}
    (h : inst.openTask = some taskId) :
    ∃ phase, inst.currentPhase = some phase ∧ phase.canopyTaskId = some taskId ∧
      phase.status.isTerminal = false := by
  obtain ⟨phase, hp, hif⟩ := Option.bind_eq_some_iff.mp h
  split_ifs at hif with hs
  exact ⟨phase, hp, hif, by simpa using hs⟩

theorem answer_none {inst : WorkflowInstance} {canopy : CanopyClient}
    (h : inst.openTask = none) : inst.answer canopy = none := by
  rw [answer, h]; rfl

theorem answer_some {inst : WorkflowInstance} {canopy : CanopyClient} {taskId : String}
    (h : inst.openTask = some taskId) : inst.answer canopy = some (canopy.getTask taskId) := by
  rw [answer, h]; rfl

/-- The instance with `p'` as the state of its current phase. -/
def withCurrent (inst : WorkflowInstance) (p' : PhaseState) (t : DateTime) : WorkflowInstance :=
  { inst with phaseStates := inst.phaseStates.set inst.currentPhaseIdx p', updatedAt := t }

section Completion

variable {inst : WorkflowInstance} {phase : PhaseState}

theorem reconcileComplete_spec (h : inst.currentPhase = some phase)
    (hs : phase.status.isTerminal = false) (clk : Clock) :
    ∃ p' t, p'.status = .completed ∧ p'.phaseId = phase.phaseId ∧
      p'.canopyTaskId = phase.canopyTaskId ∧
      inst.reconcileCompleteCurrentPhase clk = (.ok (), inst.withCurrent p' t) := by
  unfold reconcileCompleteCurrentPhase withCurrent
  simp only [h]
  cases hp : phase.status with
  | pending =>
    refine ⟨(phase.markActive (clk 0)).markCompleted (clk 1), clk 2, rfl, rfl, rfl, ?_⟩
    simp only [modifyCurrent_eq _ h]
  | active | awaitingUserInput =>
    refine ⟨phase.markCompleted (clk 0), clk 1, rfl, rfl, rfl, ?_⟩
    simp only [modifyCurrent_eq _ h]
  | completed | failed | skipped => simp [hp, PhaseStatus.isTerminal] at hs

theorem reconcileFail_spec (h : inst.currentPhase = some phase)
    (hs : phase.status.isTerminal = false) (reason : String) (clk : Clock) :
    ∃ p' t, p'.status = .failed ∧ p'.phaseId = phase.phaseId ∧
      p'.canopyTaskId = phase.canopyTaskId ∧
      inst.reconcileFailCurrentPhase reason clk =
        (.ok (), { inst.withCurrent p' t with status := .failed }) := by
  unfold reconcileFailCurrentPhase withCurrent
  simp only [h]
  cases hp : phase.status with
  | pending =>
    refine ⟨({ phase.markActive (clk 0) with failureReason := some reason }).markFailed (clk 1),
      clk 2, rfl, rfl, rfl, ?_⟩
    simp only [modifyCurrent_eq _ h]
  | active | awaitingUserInput =>
    refine ⟨({ phase with failureReason := some reason }).markFailed (clk 0), clk 1, rfl, rfl,
      rfl, ?_⟩
    simp only [modifyCurrent_eq _ h]
  | completed | failed | skipped => simp [hp, PhaseStatus.isTerminal] at hs

theorem currentPhase_withCurrent (h : inst.currentPhase = some phase) (p' : PhaseState)
    (t : DateTime) : (inst.withCurrent p' t).currentPhase = some p' := by
  have hlt : inst.currentPhaseIdx < inst.phaseStates.length :=
    (List.getElem?_eq_some_iff.mp h).1
  unfold currentPhase withCurrent
  simp [hlt]

/-- The gates read the id of the current phase and nothing else of its state. -/
theorem gatesOpen_withCurrent (h : inst.currentPhase = some phase) {p' : PhaseState}
    (hid : p'.phaseId = phase.phaseId) {t : DateTime} {evaluator : GateEvaluator}
    {files : Files} :
    (inst.withCurrent p' t).GatesOpen evaluator files ↔ inst.GatesOpen evaluator files := by
  unfold GatesOpen
  rw [currentPhase_withCurrent h]
  constructor
  · rintro ⟨current, p, next, hc, hp, hn, hexit, hart, hentry⟩
    obtain rfl := Option.some.inj hc
    exact ⟨phase, p, next, h, hp, hn, by rw [← hid]; exact hexit, hart, hentry⟩
  · rintro ⟨current, p, next, hc, hp, hn, hexit, hart, hentry⟩
    obtain rfl := Option.some.inj (h.symm.trans hc)
    exact ⟨p', p, next, rfl, hp, hn, by rw [hid]; exact hexit, hart, hentry⟩

end Completion

end WorkflowInstance

/-! ## The instances a reconciliation can leave behind -/

open WorkflowInstance

/-- The instance left behind, by the answer received for the current phase. -/
inductive Reconciled (inst : WorkflowInstance) (forceAdvance : Bool) (files : Files) :
    Option (Except DispatchError TaskDetail) → WorkflowInstance → Prop
  | unasked : Reconciled inst forceAdvance files none inst
  | waiting (task : TaskDetail) (hc : isCompletedStatus task.status = false)
      (hf : isFailedStatus task.status = false) :
      Reconciled inst forceAdvance files (some (.ok task)) inst
  | failed (task : TaskDetail) (p' : PhaseState) (t : DateTime)
      (hf : isFailedStatus task.status = true) (hp : p'.status = .failed)
      (hid : inst.currentPhase.map (·.phaseId) = some p'.phaseId) :
      Reconciled inst forceAdvance files (some (.ok task))
        { inst.withCurrent p' t with status := .failed }
  | stopped (task : TaskDetail) (p' : PhaseState) (t : DateTime)
      (hc : isCompletedStatus task.status = true) (hs : task.stopSignal ≠ none)
      (hp : p'.status = .completed) (hid : inst.currentPhase.map (·.phaseId) = some p'.phaseId) :
      Reconciled inst forceAdvance files (some (.ok task))
        { inst.withCurrent p' t with status := .completed }
  | finished (task : TaskDetail) (p' : PhaseState) (t : DateTime)
      (hc : isCompletedStatus task.status = true) (hs : task.stopSignal = none)
      (hp : p'.status = .completed) (hf : inst.AtFinal)
      (hid : inst.currentPhase.map (·.phaseId) = some p'.phaseId) :
      Reconciled inst forceAdvance files (some (.ok task))
        { inst.withCurrent p' t with status := .completed }
  | entered (task : TaskDetail) (p' next : PhaseState) (t t' : DateTime) (log : PhaseTransition)
      (hc : isCompletedStatus task.status = true) (hs : task.stopSignal = none)
      (hp : p'.status = .completed) (hf : ¬ inst.AtFinal)
      (ho : inst.GatesOpen (reconcileEvaluator forceAdvance task) files)
      (hn : inst.phaseStates[inst.currentPhaseIdx + 1]? = some next)
      (hid : inst.currentPhase.map (·.phaseId) = some p'.phaseId) :
      Reconciled inst forceAdvance files (some (.ok task))
        { inst.withCurrent p' t with
          currentPhaseIdx := inst.currentPhaseIdx + 1
          transitions := inst.transitions ++ [log]
          status := .dispatched
          updatedAt := t' }
  | stranded (task : TaskDetail) (p' : PhaseState) (t : DateTime)
      (hc : isCompletedStatus task.status = true) (hs : task.stopSignal = none)
      (hp : p'.status = .completed) (hf : ¬ inst.AtFinal)
      (ho : inst.GatesOpen (reconcileEvaluator forceAdvance task) files)
      (hn : inst.phaseStates[inst.currentPhaseIdx + 1]? = none)
      (hid : inst.currentPhase.map (·.phaseId) = some p'.phaseId) :
      Reconciled inst forceAdvance files (some (.ok task))
        { inst.withCurrent p' t with currentPhaseIdx := inst.currentPhaseIdx + 1 }
  | blocked (task : TaskDetail) (p' : PhaseState) (t : DateTime) (b : Option String)
      (hc : isCompletedStatus task.status = true) (hs : task.stopSignal = none)
      (hp : p'.status = .completed) (hf : ¬ inst.AtFinal)
      (ho : ¬ inst.GatesOpen (reconcileEvaluator forceAdvance task) files)
      (hid : inst.currentPhase.map (·.phaseId) = some p'.phaseId) :
      Reconciled inst forceAdvance files (some (.ok task))
        { inst.withCurrent p' t with blockedOn := b }

theorem phaseIds_withCurrent {inst : WorkflowInstance} {p' : PhaseState} (t : DateTime)
    (hid : inst.currentPhase.map (·.phaseId) = some p'.phaseId) :
    (inst.withCurrent p' t).phaseStates.map (·.phaseId) =
      inst.phaseStates.map (·.phaseId) := by
  obtain ⟨phase, hphase, hsame⟩ := Option.map_eq_some_iff.mp hid
  exact map_phaseId_set hphase hsame.symm

/-- A reconciliation writes no frame field. -/
theorem Reconciled.sameFrame {inst out : WorkflowInstance} {forceAdvance : Bool} {files : Files}
    {answer : Option (Except DispatchError TaskDetail)}
    (h : Reconciled inst forceAdvance files answer out) : SameFrame inst out := by
  cases h with
  | unasked | waiting => exact ⟨rfl, rfl, rfl, rfl, rfl⟩
  | failed task p' t hf hp hid =>
    exact ⟨rfl, rfl, rfl, rfl, phaseIds_withCurrent t hid⟩
  | stopped task p' t hc hs hp hid =>
    exact ⟨rfl, rfl, rfl, rfl, phaseIds_withCurrent t hid⟩
  | finished task p' t hc hs hp hf hid =>
    exact ⟨rfl, rfl, rfl, rfl, phaseIds_withCurrent t hid⟩
  | entered task p' next t t' log hc hs hp hf ho hn hid =>
    exact ⟨rfl, rfl, rfl, rfl, phaseIds_withCurrent t hid⟩
  | stranded task p' t hc hs hp hf ho hn hid =>
    exact ⟨rfl, rfl, rfl, rfl, phaseIds_withCurrent t hid⟩
  | blocked task p' t b hc hs hp hf ho hid =>
    exact ⟨rfl, rfl, rfl, rfl, phaseIds_withCurrent t hid⟩

/-! ## The status a reconciliation leaves behind -/

/-- The answer ends the workflow: its task failed, or it is complete with nothing to advance to. -/
def WorkflowInstance.EndedBy (inst : WorkflowInstance) (task : TaskDetail) : Prop :=
  isFailedStatus task.status = true ∨
    isCompletedStatus task.status = true ∧ (task.stopSignal ≠ none ∨ inst.AtFinal)

/-- The answer moves the workflow to its next phase. -/
def WorkflowInstance.AdvancedBy (inst : WorkflowInstance) (forceAdvance : Bool) (files : Files)
    (task : TaskDetail) : Prop :=
  isCompletedStatus task.status = true ∧ task.stopSignal = none ∧ ¬ inst.AtFinal ∧
    inst.GatesOpen (reconcileEvaluator forceAdvance task) files

section Status

variable {inst out : WorkflowInstance} {forceAdvance : Bool} {files : Files} {task : TaskDetail}

theorem Reconciled.status_of_ended
    (h : Reconciled inst forceAdvance files (some (.ok task)) out) (hends : inst.EndedBy task) :
    out.status = .completed ∨ out.status = .failed := by
  unfold EndedBy at hends
  cases h with
  | waiting _ hc hf => simp [hc, hf] at hends
  | failed => exact .inr rfl
  | stopped => exact .inl rfl
  | finished => exact .inl rfl
  | entered _ p' next t t' log hc hs hp hf =>
    simp [not_failed_of_completed hc, hs, hf] at hends
  | stranded _ p' t hc hs hp hf => simp [not_failed_of_completed hc, hs, hf] at hends
  | blocked _ p' t b hc hs hp hf => simp [not_failed_of_completed hc, hs, hf] at hends

theorem Reconciled.status_of_advanced
    (h : Reconciled inst forceAdvance files (some (.ok task)) out)
    (hadv : inst.AdvancedBy forceAdvance files task)
    (hnext : inst.phaseStates[inst.currentPhaseIdx + 1]? ≠ none) : out.status = .dispatched := by
  obtain ⟨hc, hs, hf, ho⟩ := hadv
  cases h with
  | waiting _ hc' => simp [hc] at hc'
  | failed _ p' t hfailed => simp [not_failed_of_completed hc] at hfailed
  | stopped _ p' t hc' hs' => exact absurd hs hs'
  | finished _ p' t hc' hs' hp hf' => exact absurd hf' hf
  | entered => rfl
  | stranded _ p' t hc' hs' hp hf' ho' hn => exact absurd hn hnext
  | blocked _ p' t b hc' hs' hp hf' ho' => exact absurd ho ho'

/-- An answer that does not end the workflow keeps the status, or advances it. -/
theorem Reconciled.status_of_not_ended {answer : Option (Except DispatchError TaskDetail)}
    (h : Reconciled inst forceAdvance files answer out)
    (hends : ∀ task, answer = some (.ok task) → ¬ inst.EndedBy task) :
    out.status = inst.status ∨ out.status = .dispatched ∧
      ∃ task, answer = some (.ok task) ∧ inst.AdvancedBy forceAdvance files task := by
  cases h with
  | unasked | waiting | blocked | stranded => exact .inl rfl
  | failed task p' t hf => exact absurd (.inl hf) (hends task rfl)
  | stopped task p' t hc hs => exact absurd (.inr ⟨hc, .inl hs⟩) (hends task rfl)
  | finished task p' t hc hs hp hf => exact absurd (.inr ⟨hc, .inr hf⟩) (hends task rfl)
  | entered task p' next t t' log hc hs hp hf ho => exact .inr ⟨rfl, task, rfl, hc, hs, hf, ho⟩

end Status

/-! ## A fetched task -/

/-- The loop body for the current phase, after the task was fetched. -/
def settleCurrent (inst : WorkflowInstance) (phase : PhaseState) (taskId : String)
    (task : TaskDetail) (forceAdvance : Bool) (files : Files) (clk : Clock) :
    Except DispatchError (PhaseReconcileOutcome × WorkflowInstance) :=
  if isCompletedStatus task.status then
    match inst.reconcileCompleteCurrentPhase clk with
    | (.error e, _) => .error (.invalidState
        s!"reconcile complete failed for phase {phase.phaseId}: {e.toString}")
    | (.ok (), inst) =>
      match task.stopSignal with
      | some signal =>
        .ok (.stoppedByAgentSignal phase.phaseId signal.nextAction,
          { inst with status := .completed })
      | none =>
        let (inst, advanced) := advanceReconciled inst (reconcileEvaluator forceAdvance task)
          files fun k => clk (k + 3)
        .ok (.markedCompleted phase.phaseId advanced, inst)
  else if isFailedStatus task.status then
    let reason := s!"Canopy task {taskId} was {task.status}"
    match inst.reconcileFailCurrentPhase reason clk with
    | (.error e, _) => .error (.invalidState
        s!"reconcile fail for phase {phase.phaseId}: {e.toString}")
    | (.ok (), inst) => .ok (.markedFailed phase.phaseId reason, inst)
  else .ok (.stillActive, inst)

/-- What the loop body leaves behind for a fetched task, and its outcome. -/
inductive Settled (inst : WorkflowInstance) (phase : PhaseState) (taskId : String)
    (task : TaskDetail) (forceAdvance : Bool) (files : Files) (clk : Clock) :
    PhaseReconcileOutcome → WorkflowInstance → Prop
  | stopped (p' : PhaseState) (t : DateTime) (signal : CompletionSignal)
      (hc : isCompletedStatus task.status = true) (hs : task.stopSignal = some signal)
      (hp : p'.status = .completed) (hid : p'.phaseId = phase.phaseId)
      (hop : applyOp inst (.reconcileComplete clk) = inst.withCurrent p' t) :
      Settled inst phase taskId task forceAdvance files clk
        (.stoppedByAgentSignal phase.phaseId signal.nextAction)
        { inst.withCurrent p' t with status := .completed }
  | advanced (p' : PhaseState) (t : DateTime) (hc : isCompletedStatus task.status = true)
      (hs : task.stopSignal = none) (hp : p'.status = .completed)
      (hid : p'.phaseId = phase.phaseId)
      (hop : applyOp inst (.reconcileComplete clk) = inst.withCurrent p' t) :
      Settled inst phase taskId task forceAdvance files clk
        (.markedCompleted phase.phaseId (advanceReconciled (inst.withCurrent p' t)
          (reconcileEvaluator forceAdvance task) files fun k => clk (k + 3)).2)
        (advanceReconciled (inst.withCurrent p' t) (reconcileEvaluator forceAdvance task) files
          fun k => clk (k + 3)).1
  | failed (p' : PhaseState) (t : DateTime) (hf : isFailedStatus task.status = true)
      (hp : p'.status = .failed) (hid : p'.phaseId = phase.phaseId)
      (hop : applyOp inst (.reconcileFail s!"Canopy task {taskId} was {task.status}" clk) =
        { inst.withCurrent p' t with status := .failed }) :
      Settled inst phase taskId task forceAdvance files clk
        (.markedFailed phase.phaseId s!"Canopy task {taskId} was {task.status}")
        { inst.withCurrent p' t with status := .failed }
  | waiting (hc : isCompletedStatus task.status = false)
      (hf : isFailedStatus task.status = false) :
      Settled inst phase taskId task forceAdvance files clk .stillActive inst

section Settling

variable {inst : WorkflowInstance} {phase : PhaseState} {taskId : String} {task : TaskDetail}
  {canopy : CanopyClient} {forceAdvance : Bool} {files : Files} {clk : Clock}

/-- The loop body is the fetch, and what follows it. -/
theorem reconcileCurrent_fetched {taskId : String} {task : TaskDetail}
    (ht : phase.canopyTaskId = some taskId) (hs : phase.status.isTerminal = false)
    (hans : canopy.getTask taskId = .ok task) :
    reconcileCurrent inst phase canopy forceAdvance files clk =
      settleCurrent inst phase taskId task forceAdvance files clk := by
  unfold reconcileCurrent
  simp only [ht, hs, hans, Bool.false_eq_true, if_false]
  rfl

theorem settleCurrent_settled (h : inst.currentPhase = some phase)
    (hs : phase.status.isTerminal = false) :
    ∃ outcome out, settleCurrent inst phase taskId task forceAdvance files clk =
        .ok (outcome, out) ∧
      Settled inst phase taskId task forceAdvance files clk outcome out := by
  unfold settleCurrent
  cases hc : isCompletedStatus task.status with
  | true =>
    obtain ⟨p', t, hp, hid, -, hrc⟩ := reconcileComplete_spec h hs clk
    have hop : applyOp inst (.reconcileComplete clk) = inst.withCurrent p' t := by
      rw [applyOp, hrc]
    simp only [if_true, hrc]
    cases hstop : task.stopSignal with
    | some signal => exact ⟨_, _, rfl, .stopped p' t signal hc hstop hp hid hop⟩
    | none => exact ⟨_, _, rfl, .advanced p' t hc hstop hp hid hop⟩
  | false =>
    cases hf : isFailedStatus task.status with
    | true =>
      obtain ⟨p', t, hp, hid, -, hrf⟩ := reconcileFail_spec h hs
        s!"Canopy task {taskId} was {task.status}" clk
      simp only [if_true, Bool.false_eq_true, if_false, hrf]
      exact ⟨_, _, rfl, .failed p' t hf hp hid (by rw [applyOp, hrf])⟩
    | false =>
      simp only [Bool.false_eq_true, if_false]
      exact ⟨_, _, rfl, .waiting hc hf⟩

/-- A reconciliation whose fetch succeeds, and the outcome at the index of the current phase. -/
theorem reconcilePhases_settled (h : inst.currentPhase = some phase)
    (hs : phase.status.isTerminal = false) (ht : phase.canopyTaskId = some taskId)
    (hans : canopy.getTask taskId = .ok task) (forceAdvance : Bool) (files : Files)
    (clk : Clock) :
    ∃ outcome result, reconcilePhases inst canopy forceAdvance files clk = .ok result ∧
      result.outcomes[inst.currentPhaseIdx]? = some outcome ∧
      Settled inst phase taskId task forceAdvance files clk outcome result.inst := by
  have hturn : ∃ outcome out,
      reconcileCurrent inst phase canopy forceAdvance files clk = .ok (outcome, out) ∧
      Settled inst phase taskId task forceAdvance files clk outcome out := by
    rw [reconcileCurrent_fetched ht hs hans]
    exact settleCurrent_settled h hs
  obtain ⟨outcome, out, hout, hsettled⟩ := hturn
  rw [reconcilePhases_some h, hout]
  refine ⟨outcome, _, rfl, ?_, hsettled⟩
  simp only [List.getElem?_append_right, List.length_replicate, le_refl, Nat.sub_self,
    List.getElem?_cons_zero]

end Settling

section Cases

variable {inst : WorkflowInstance} {canopy : CanopyClient} {forceAdvance : Bool} {files : Files}
  {phase : PhaseState} {task : TaskDetail}

/-- The advance of a just completed phase: at the final phase, through open gates, or blocked. -/
theorem advanceReconciled_reconciled {p' : PhaseState} {t : DateTime}
    (h : inst.currentPhase = some phase) (hid : p'.phaseId = phase.phaseId)
    (hp : p'.status = .completed) (hc : isCompletedStatus task.status = true)
    (hs : task.stopSignal = none) (clk : Clock) :
    Reconciled inst forceAdvance files (some (.ok task))
      (advanceReconciled (inst.withCurrent p' t) (reconcileEvaluator forceAdvance task) files
        clk).1 := by
  have hcur := currentPhase_withCurrent h p' t
  have hsame : inst.currentPhase.map (·.phaseId) = some p'.phaseId := by rw [h, hid]; rfl
  unfold advanceReconciled
  by_cases hf : inst.AtFinal
  · rw [advance_final hcur hp hf]
    exact .finished task p' t hc hs hp hf hsame
  by_cases ho : inst.GatesOpen (reconcileEvaluator forceAdvance task) files
  · rw [advance_open hcur hp hf ((gatesOpen_withCurrent h hid).mpr ho)]
    have hset : (inst.withCurrent p' t).phaseStates[inst.currentPhaseIdx + 1]? =
        inst.phaseStates[inst.currentPhaseIdx + 1]? := by
      simp [withCurrent]
    cases hn : inst.phaseStates[inst.currentPhaseIdx + 1]? with
    | none =>
      unfold enterPhase currentPhase
      simp only [withCurrent] at hset ⊢
      rw [hset, hn]
      exact .stranded task p' t hc hs hp hf ho hn hsame
    | some next =>
      unfold enterPhase currentPhase
      simp only [withCurrent] at hset ⊢
      rw [hset, hn]
      exact .entered task p' next t _ _ hc hs hp hf ho hn hsame
  · obtain ⟨e, b, he, hadv⟩ := advance_shut clk hcur hp hf
      (fun hopen => ho ((gatesOpen_withCurrent h hid).mp hopen))
    rw [hadv]
    cases e with
    | alreadyAtFinalPhase => exact absurd rfl he
    | _ => exact .blocked task p' t b hc hs hp hf ho hsame

/-- With nothing to ask, the loop body leaves the instance as it is. -/
theorem reconcileCurrent_unasked (h : inst.currentPhase = some phase) (ht : inst.openTask = none)
    (clk : Clock) :
    ∃ outcome, reconcileCurrent inst phase canopy forceAdvance files clk = .ok (outcome, inst) := by
  unfold reconcileCurrent
  cases htask : phase.canopyTaskId with
  | none => exact ⟨_, rfl⟩
  | some taskId =>
    cases hs : phase.status.isTerminal with
    | true => exact ⟨_, rfl⟩
    | false => cases ht.symm.trans (openTask_of_open h htask hs)

/-- A failed fetch is the error of the loop body. -/
theorem reconcileCurrent_fetchError {taskId : String} {e : DispatchError}
    (ht : phase.canopyTaskId = some taskId) (hs : phase.status.isTerminal = false)
    (hans : canopy.getTask taskId = .error e) (clk : Clock) :
    reconcileCurrent inst phase canopy forceAdvance files clk = .error e := by
  unfold reconcileCurrent
  simp only [ht, hs, hans, Bool.false_eq_true, if_false]

/-- **Case lemma.** On a fetched task the loop body leaves one of the listed instances behind. -/
theorem Settled.reconciled {taskId : String} {outcome : PhaseReconcileOutcome}
    {out : WorkflowInstance} (h : inst.currentPhase = some phase) {clk : Clock}
    (hsettled : Settled inst phase taskId task forceAdvance files clk outcome out) :
    Reconciled inst forceAdvance files (some (.ok task)) out := by
  cases hsettled with
  | stopped p' t signal hc hs hp hid =>
    exact .stopped task p' t hc (by simp [hs]) hp (by rw [h, hid]; rfl)
  | advanced p' t hc hs hp hid => exact advanceReconciled_reconciled h hid hp hc hs _
  | failed p' t hf hp hid => exact .failed task p' t hf hp (by rw [h, hid]; rfl)
  | waiting hc hf => exact .waiting task hc hf

/-- With nothing to ask, the reconciliation leaves the instance as it is. -/
theorem reconcilePhases_unasked (canopy : CanopyClient) (forceAdvance : Bool) (files : Files)
    (clk : Clock) (ht : inst.openTask = none) :
    ∃ r, reconcilePhases inst canopy forceAdvance files clk = .ok r ∧ r.inst = inst := by
  cases h : inst.currentPhase with
  | none => exact ⟨_, reconcilePhases_none h, rfl⟩
  | some phase =>
    obtain ⟨outcome, hout⟩ := reconcileCurrent_unasked h ht clk
    rw [reconcilePhases_some h, hout]
    exact ⟨_, rfl, rfl⟩

/-- A failed fetch is the error of the reconciliation. -/
theorem reconcilePhases_fetchError {taskId : String} {e : DispatchError}
    (ht : inst.openTask = some taskId) (hans : canopy.getTask taskId = .error e) (clk : Clock) :
    reconcilePhases inst canopy forceAdvance files clk = .error e := by
  obtain ⟨phase, h, htask, hs⟩ := currentPhase_of_openTask ht
  rw [reconcilePhases_some h, reconcileCurrent_fetchError htask hs hans]
  rfl

/-- A good answer makes the reconciliation succeed. -/
theorem reconcilePhases_answered (forceAdvance : Bool) (files : Files) (clk : Clock)
    {taskId : String} (ht : inst.openTask = some taskId)
    (hans : canopy.getTask taskId = .ok task) :
    ∃ r, reconcilePhases inst canopy forceAdvance files clk = .ok r ∧
      Reconciled inst forceAdvance files (some (.ok task)) r.inst := by
  obtain ⟨phase, h, htask, hs⟩ := currentPhase_of_openTask ht
  obtain ⟨outcome, r, hr, -, hsettled⟩ :=
    reconcilePhases_settled h hs htask hans forceAdvance files clk
  exact ⟨r, hr, hsettled.reconciled h⟩

theorem exists_reconciled_of_answer (forceAdvance : Bool) (files : Files) (clk : Clock)
    (h : inst.answer canopy = some (.ok task)) :
    ∃ r, reconcilePhases inst canopy forceAdvance files clk = .ok r ∧
      Reconciled inst forceAdvance files (some (.ok task)) r.inst := by
  obtain ⟨taskId, ht, hans⟩ := Option.map_eq_some_iff.mp h
  exact reconcilePhases_answered forceAdvance files clk ht hans

/-- A reconciliation that succeeds asked nothing, or it settled the task it fetched. -/
theorem reconcilePhases_ok_cases {r : ReconcileResult} {clk : Clock}
    (hr : reconcilePhases inst canopy forceAdvance files clk = .ok r) :
    (inst.answer canopy = none ∧ r.inst = inst) ∨
      ∃ phase taskId task outcome, inst.currentPhase = some phase ∧
        inst.answer canopy = some (.ok task) ∧
        Settled inst phase taskId task forceAdvance files clk outcome r.inst := by
  cases ht : inst.openTask with
  | none =>
    obtain ⟨r', hr', hout⟩ := reconcilePhases_unasked canopy forceAdvance files clk ht
    cases hr.symm.trans hr'
    exact .inl ⟨answer_none ht, hout⟩
  | some taskId =>
    rw [answer_some ht]
    obtain ⟨phase, h, htask, hs⟩ := currentPhase_of_openTask ht
    cases hans : canopy.getTask taskId with
    | error e => cases hr.symm.trans (reconcilePhases_fetchError ht hans clk)
    | ok task =>
      obtain ⟨outcome, r', hr', -, hsettled⟩ :=
        reconcilePhases_settled h hs htask hans forceAdvance files clk
      cases hr.symm.trans hr'
      exact .inr ⟨phase, taskId, task, outcome, h, rfl, hsettled⟩

/-- A reconciliation that succeeds leaves one of the listed instances behind. -/
theorem reconcilePhases_reconciled {r : ReconcileResult} {clk : Clock}
    (hr : reconcilePhases inst canopy forceAdvance files clk = .ok r) :
    Reconciled inst forceAdvance files (inst.answer canopy) r.inst := by
  rcases reconcilePhases_ok_cases hr with
    ⟨hnone, hout⟩ | ⟨phase, taskId, task, outcome, h, hans, hsettled⟩
  · rw [hnone, hout]
    exact .unasked
  · rw [hans]
    exact hsettled.reconciled h

/-- A reconciliation fails with the error of the fetch, and with no other. -/
theorem reconcilePhases_error_iff {e : DispatchError} {clk : Clock} :
    reconcilePhases inst canopy forceAdvance files clk = .error e ↔
      inst.answer canopy = some (.error e) := by
  cases ht : inst.openTask with
  | none =>
    obtain ⟨r, hr, -⟩ := reconcilePhases_unasked canopy forceAdvance files clk ht
    simp [hr, answer_none ht]
  | some taskId =>
    rw [answer_some ht]
    cases hans : canopy.getTask taskId with
    | error e' => simp [reconcilePhases_fetchError ht hans clk]
    | ok task =>
      obtain ⟨r, hr, -⟩ := reconcilePhases_answered forceAdvance files clk ht hans
      simp [hr]

end Cases

end Hymenium
