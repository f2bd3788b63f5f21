import Hymenium.Dispatch.Reconcile
import Hymenium.Workflow.Pause

/-!
# Pauses under reconciliation

`reconcilePhases` runs one reconciling operation of the engine, tries to advance, and writes the
workflow status itself. A run of engine operations and reconciliations records its pauses coherently
exactly as long as no paused phase is settled by either.
-/

namespace Hymenium

open WorkflowInstance

/-- What can happen to an instance: an operation of the engine, or a reconciliation. -/
inductive EngineStep where
  | op (op : Op)
  | reconcilePhases (canopy : CanopyClient) (forceAdvance : Bool) (files : Files) (clk : Clock)

/-- The instance a step leaves behind. A reconciliation that fails drops the one it worked on. -/
def engineStep (inst : WorkflowInstance) : EngineStep → WorkflowInstance
  | .op op => applyOp inst op
  | .reconcilePhases canopy forceAdvance files clk =>
    match reconcilePhases inst canopy forceAdvance files clk with
    | .ok result => result.inst
    | .error _ => inst

/-- The task is completed or failed. -/
def TaskDetail.Settled (task : TaskDetail) : Prop :=
  isCompletedStatus task.status = true ∨ isFailedStatus task.status = true

/-- The step settles no paused phase. -/
def LeavesPause (inst : WorkflowInstance) : EngineStep → Prop
  | .op op => inst.KeepsPause op
  | .reconcilePhases canopy _ _ _ =>
    inst.OnPaused → ∀ task, inst.answer canopy = some (.ok task) → ¬ task.Settled

section Reconciliation

variable {inst : WorkflowInstance} {canopy : CanopyClient} {forceAdvance : Bool} {files : Files}
  {clk : Clock}

/-- An advance writes no status but `dispatched`. -/
theorem status_advance (evaluator : GateEvaluator) :
    (inst.advance evaluator files clk).2.status = inst.status ∨
      (inst.advance evaluator files clk).2.status = .dispatched := by
  cases hp : inst.currentPhase with
  | none => exact .inl (by rw [advance_none hp])
  | some p =>
    by_cases hs : p.status = .completed
    · by_cases hf : inst.AtFinal
      · exact .inl (by rw [advance_final hp hs hf])
      · by_cases ho : inst.GatesOpen evaluator files
        · rw [advance_open hp hs hf ho]
          unfold enterPhase
          dsimp only
          split
          · exact .inl rfl
          · exact .inr rfl
        · obtain ⟨e, b, -, h⟩ := advance_shut clk hp hs hf ho
          exact .inl (by rw [h])
    · obtain ⟨msg, h⟩ := advance_not_completed evaluator files clk hp hs
      exact .inl (by rw [h])

/-- A reconciling operation writes no status but `failed`. -/
theorem status_reconciles {op : Op} (hop : op.Reconciles) :
    (applyOp inst op).status = inst.status ∨ (applyOp inst op).status = .failed := by
  cases op with
  | reconcileComplete clk =>
    unfold applyOp reconcileCompleteCurrentPhase
    dsimp only
    split
    · exact .inl rfl
    · split <;> exact .inl rfl
  | reconcileFail reason clk =>
    unfold applyOp reconcileFailCurrentPhase
    dsimp only
    split
    · exact .inl rfl
    · split <;> first | exact .inl rfl | exact .inr rfl
  | _ => exact absurd hop id

/-- An advance under reconciliation is an advance, and a workflow status that is no pause. -/
theorem advanceReconciled_cases (evaluator : GateEvaluator) :
    (advanceReconciled inst evaluator files clk).1 = (inst.advance evaluator files clk).2 ∨
      ∃ ws ≠ .awaitingUserInput, (advanceReconciled inst evaluator files clk).1 =
        { (inst.advance evaluator files clk).2 with status := ws } := by
  unfold advanceReconciled
  split
  · next heq => exact .inr ⟨.dispatched, by simp, by rw [heq]⟩
  · next heq => exact .inr ⟨.completed, by simp, by rw [heq]⟩
  · next heq => exact .inl (by rw [heq])

/-- The loop body waits, or it reconciles the current phase with a settled task, tries to advance or
not, and writes a status that is no pause or none. -/
theorem Settled.cases {phase : PhaseState} {taskId : String} {task : TaskDetail}
    {outcome : PhaseReconcileOutcome} {out : WorkflowInstance}
    (h : Settled inst phase taskId task forceAdvance files clk outcome out) :
    (out = inst ∧ ¬ task.Settled) ∨
      ∃ op inst', task.Settled ∧ op.Reconciles ∧
        (inst' = applyOp inst op ∨ ∃ evaluator files clk,
          inst' = ((applyOp inst op).advance evaluator files clk).2) ∧
        (out = inst' ∨ ∃ ws ≠ .awaitingUserInput, out = { inst' with status := ws }) := by
  cases h with
  | stopped p' t signal hc hs hp hid hop =>
    rw [← hop]
    exact .inr ⟨.reconcileComplete clk, _, .inl hc, trivial, .inl rfl,
      .inr ⟨.completed, by simp, rfl⟩⟩
  | advanced p' t hc hs hp hid hop =>
    rw [← hop]
    exact .inr ⟨.reconcileComplete clk, _, .inl hc, trivial,
      .inr ⟨reconcileEvaluator forceAdvance task, files, fun k => clk (k + 3), rfl⟩,
      advanceReconciled_cases _⟩
  | failed p' t hf hp hid hop =>
    exact .inr ⟨.reconcileFail _ clk, _, .inr hf, trivial, .inl hop.symm, .inl rfl⟩
  | waiting hc hf =>
    refine .inl ⟨rfl, ?_⟩
    unfold TaskDetail.Settled
    simp [hc, hf]

theorem reconcilePhases_cases {result : ReconcileResult}
    (hr : reconcilePhases inst canopy forceAdvance files clk = .ok result) :
    (result.inst = inst ∧ ∀ task, inst.answer canopy = some (.ok task) → ¬ task.Settled) ∨
      ∃ task op inst', inst.answer canopy = some (.ok task) ∧ task.Settled ∧ op.Reconciles ∧
        (inst' = applyOp inst op ∨ ∃ evaluator files clk,
          inst' = ((applyOp inst op).advance evaluator files clk).2) ∧
        (result.inst = inst' ∨
          ∃ ws ≠ .awaitingUserInput, result.inst = { inst' with status := ws }) := by
  rcases reconcilePhases_ok_cases hr with
    ⟨hnone, hout⟩ | ⟨phase, taskId, task, outcome, -, hans, hsettled⟩
  · exact .inl ⟨hout, fun task hans => by simp [hnone] at hans⟩
  · rcases hsettled.cases with ⟨hout, hwaits⟩ | ⟨op, inst', htask, hop, hinst', hresult⟩
    · refine .inl ⟨hout, fun task' hans' => ?_⟩
      cases hans.symm.trans hans'
      exact hwaits
    · exact .inr ⟨task, op, inst', hans, htask, hop, hinst', hresult⟩

end Reconciliation

/-! ## Runs -/

variable {inst : WorkflowInstance}

/-- Outside a pause a status that is no pause may be written. -/
theorem WorkflowInstance.PauseInvariant.setStatus (h : inst.PauseInvariant)
    (hnot : inst.status ≠ .awaitingUserInput) {ws : WorkflowStatus} (hws : ws ≠ .awaitingUserInput) :
    PauseInvariant { inst with status := ws } :=
  ⟨⟨iff_of_false hws (mt h.status.mpr hnot), h.message⟩, h.elsewhere⟩

/-- **Step lemma.** A step that settles no paused phase keeps the records of a pause in agreement. -/
theorem WorkflowInstance.PauseInvariant.next (h : inst.PauseInvariant) {s : EngineStep}
    (hs : LeavesPause inst s) : (engineStep inst s).PauseInvariant := by
  cases s with
  | op op => exact h.operate hs
  | reconcilePhases canopy forceAdvance files clk =>
    unfold engineStep
    dsimp only
    cases hr : reconcilePhases inst canopy forceAdvance files clk with
    | error e => exact h
    | ok result =>
      rcases reconcilePhases_cases hr with ⟨hsame, -⟩ | ⟨task, op, inst', hans, hsettled, hop,
        hinst', hresult⟩
      · exact hsame ▸ h
      have hnot : ¬ inst.OnPaused := fun hpaused => hs hpaused task hans hsettled
      have hstatus : inst.status ≠ .awaitingUserInput := mt h.status.mp hnot
      have hop' : (applyOp inst op).PauseInvariant := h.operate fun _ => hnot
      have hopStatus : (applyOp inst op).status ≠ .awaitingUserInput := by
        have hcases : (applyOp inst op).status = inst.status ∨ _ := status_reconciles hop
        rcases hcases with heq | heq <;> rw [heq]
        · exact hstatus
        · simp
      have hinv : inst'.PauseInvariant ∧ inst'.status ≠ .awaitingUserInput := by
        rcases hinst' with rfl | ⟨evaluator, files', clk', rfl⟩
        · exact ⟨hop', hopStatus⟩
        · have hadvance : (applyOp inst op).KeepsPause (.advance evaluator files' clk') :=
            fun hrec => absurd hrec id
          refine ⟨hop'.operate hadvance, ?_⟩
          have hcases : ((applyOp inst op).advance evaluator files' clk').2.status = _ ∨ _ :=
            status_advance evaluator
          rcases hcases with heq | heq <;> rw [heq]
          · exact hopStatus
          · simp
      rcases hresult with heq | ⟨ws, hws, heq⟩ <;> simp only [heq]
      · exact hinv.1
      · exact hinv.1.setStatus hinv.2 hws

/-- No step clears a message that was left behind. -/
theorem WorkflowInstance.StaleMessage.next (h : inst.StaleMessage) (s : EngineStep) :
    (engineStep inst s).StaleMessage := by
  cases s with
  | op op => exact h.effect (applyOp_effect inst op)
  | reconcilePhases canopy forceAdvance files clk =>
    unfold engineStep
    dsimp only
    cases hr : reconcilePhases inst canopy forceAdvance files clk with
    | error e => exact h
    | ok result =>
      rcases reconcilePhases_cases hr with ⟨hsame, -⟩ | ⟨task, op, inst', -, -, -, hinst',
        hresult⟩
      · exact hsame ▸ h
      have hop := h.effect (applyOp_effect inst op)
      have hinst : inst'.StaleMessage := by
        rcases hinst' with rfl | ⟨evaluator, files', clk', rfl⟩
        · exact hop
        · exact hop.effect (advance_effect evaluator files' clk')
      rcases hresult with heq | ⟨ws, -, heq⟩ <;> simp only [heq] <;> exact hinst

/-- A step that settles a paused phase leaves its message behind. -/
theorem WorkflowInstance.PauseCoherent.staleMessage_step (h : inst.PauseCoherent) {s : EngineStep}
    (hs : ¬ LeavesPause inst s) : (engineStep inst s).StaleMessage := by
  cases s with
  | op op =>
    simp only [LeavesPause, KeepsPause, not_forall, not_not] at hs
    obtain ⟨hop, hpaused⟩ := hs
    exact h.staleMessage hop hpaused
  | reconcilePhases canopy forceAdvance files clk =>
    simp only [LeavesPause, not_forall, not_not] at hs
    obtain ⟨hpaused, task, hans, hsettled⟩ := hs
    obtain ⟨result, hr, -⟩ := exists_reconciled_of_answer forceAdvance files clk hans
    unfold engineStep
    simp only [hr]
    rcases reconcilePhases_cases hr with ⟨-, hwaits⟩ | ⟨task', op, inst', hans', -, hop, hinst',
      hresult⟩
    · exact absurd hsettled (hwaits task hans)
    have hstale := h.staleMessage hop hpaused
    have hinst : inst'.StaleMessage := by
      rcases hinst' with rfl | ⟨evaluator, files', clk', rfl⟩
      · exact hstale
      · exact hstale.effect (advance_effect evaluator files' clk')
    rcases hresult with heq | ⟨ws, -, heq⟩ <;> simp only [heq] <;> exact hinst

/-- **Pauses.** The instance a run of engine operations and reconciliations reaches from a new one
records its pause coherently exactly when no step of the run settles a paused phase. -/
theorem pauseCoherent_iff (workflowId : WorkflowId) (template : WorkflowTemplate)
    (handoffPath : String) (now : DateTime) (steps : List EngineStep) :
    (Runs.run engineStep (new workflowId template handoffPath now) steps).PauseCoherent ↔
      Runs.Meets engineStep LeavesPause (new workflowId template handoffPath now) steps := by
  have hnew := pauseInvariant_new workflowId template handoffPath now
  generalize new workflowId template handoffPath now = inst at hnew ⊢
  induction steps generalizing inst with
  | nil => exact iff_of_true hnew.toPauseCoherent trivial
  | cons s steps ih =>
    by_cases hs : LeavesPause inst s
    · exact (ih _ (hnew.next hs)).trans (and_iff_right hs).symm
    · -- the message left behind here stays
      refine iff_of_false ?_ fun hmeets => hs hmeets.1
      refine StaleMessage.not_coherent ?_
      exact Runs.run_invariant (P := StaleMessage) (fun _ s h => h.next s)
        (hnew.staleMessage_step hs) steps

/-- A pause that Canopy ends with a completed task: the workflow still waits for its user, at a
phase that is completed and has a message. -/
theorem reconciled_pause_incoherent :
    let steps : List EngineStep := [.op (.startPhase (fun _ => true) Int.ofNat),
      .op (.handoffToUserPhase "Which database?" false Int.ofNat),
      .op (.reconcileComplete Int.ofNat)]
    let inst := Runs.run engineStep (new "wf" implAuditDefault "handoff.md" 0) steps
    inst.status = .awaitingUserInput ∧ inst.currentPhase.map (·.status) = some .completed ∧
      inst.currentPhase.map (·.pendingMessage) = some (some "Which database?") ∧
      ¬ inst.PauseCoherent := by
  refine ⟨by decide, by decide, by decide, fun h => ?_⟩
  have hstatus := h.status
  revert hstatus
  decide

end Hymenium
