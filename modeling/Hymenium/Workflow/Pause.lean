import Hymenium.Workflow.Steps

/-!
# Pauses

`handoffToUserPhase` writes a pause down three times: in the workflow status, in the status of the
current phase, and as the message of that phase. `resumeFromUserInput` takes all three back. The two
reconciling operations leave a paused phase as well, and leave its message where it is. Every other
operation keeps the three records in agreement (`PauseInvariant.operate`).
-/

namespace Hymenium

/-- The operation settles the current phase whether or not it was started. -/
def Op.Reconciles : Op → Prop
  | .reconcileComplete _ | .reconcileFail _ _ => True
  | _ => False

namespace WorkflowInstance

/-- The current phase waits for the user. -/
def OnPaused (inst : WorkflowInstance) : Prop :=
  inst.currentPhase.map (·.status) = some .awaitingUserInput

instance (inst : WorkflowInstance) : Decidable inst.OnPaused :=
  inferInstanceAs (Decidable (_ = _))

/-- The three records of a pause agree. -/
structure PauseCoherent (inst : WorkflowInstance) : Prop where
  status : inst.status = .awaitingUserInput ↔ inst.OnPaused
  message : ∀ p ∈ inst.phaseStates, p.pendingMessage.isSome ↔ p.status = .awaitingUserInput

/-- A paused phase is not reconciled. -/
def KeepsPause (inst : WorkflowInstance) (op : Op) : Prop := op.Reconciles → ¬ inst.OnPaused

/-- Coherent, and no phase but the current one is paused. -/
structure PauseInvariant (inst : WorkflowInstance) : Prop extends PauseCoherent inst where
  elsewhere : ∀ i ≠ inst.currentPhaseIdx, ∀ p, inst.phaseStates[i]? = some p →
    p.status ≠ .awaitingUserInput

/-- A phase that is done still has the message of a pause. -/
def StaleMessage (inst : WorkflowInstance) : Prop :=
  ∃ (i : ℕ) (p : PhaseState), inst.phaseStates[i]? = some p ∧ p.pendingMessage.isSome ∧
    (p.status = .completed ∨ p.status = .failed)

variable {inst out : WorkflowInstance} {op : Op} {p p' : PhaseState} {ws ws' : WorkflowStatus}

theorem onPaused_iff (hp : inst.currentPhase = some p) :
    inst.OnPaused ↔ p.status = .awaitingUserInput := by
  unfold OnPaused
  rw [hp, Option.map_some, Option.some.injEq]

/-! ## Edits of the current phase -/

/-- An edit of a phase that is not paused writes all three records of a pause, or none. -/
theorem Edit.pause_records (he : Edit p ws p' ws') (hs : p.status ≠ .awaitingUserInput)
    (hm : p.pendingMessage = none) (hw : ws ≠ .awaitingUserInput) :
    (ws' = .awaitingUserInput ↔ p'.status = .awaitingUserInput) ∧
      (p'.pendingMessage.isSome ↔ p'.status = .awaitingUserInput) := by
  cases he with
  | start | completePending | failPending =>
    simp [PhaseState.markActive, PhaseState.markCompleted, PhaseState.markFailed, hm, hw]
  | complete | fail | terminate =>
    simp [PhaseState.markCompleted, PhaseState.markFailed, hm, hw]
  | retry | pause => simp [hs, hm, hw]
  | count counter _ hc => rcases hc with rfl | rfl <;>
      simp [toolFailureCounter, requestCounter, hs, hm, hw]
  | exceed counter _ _ _ hc => rcases hc with rfl | rfl <;>
      simp [toolFailureCounter, requestCounter, PhaseState.markFailed, hm]
  | resume h => exact absurd h hs

/-- A phase that is done is not edited. -/
theorem Edit.not_done (he : Edit p ws p' ws') : p.status ≠ .completed ∧ p.status ≠ .failed := by
  cases he with
  | complete t h | fail reason t h => rcases h with h | h <;> simp [h]
  | start t h | completePending _ _ h | failPending _ _ _ h | retry h | count _ h | exceed _ _ _ h
  | pause _ h | terminate _ _ h | resume h => simp [h]

namespace PauseInvariant

/-- The current phase is replaced by one whose records agree. -/
theorem edited (h : inst.PauseInvariant) (hp : inst.currentPhase = some p)
    (hstatus : ws = .awaitingUserInput ↔ p'.status = .awaitingUserInput)
    (hmessage : p'.pendingMessage.isSome ↔ p'.status = .awaitingUserInput) (t : DateTime) :
    PauseInvariant { inst with
      phaseStates := inst.phaseStates.set inst.currentPhaseIdx p'
      status := ws
      updatedAt := t } := by
  obtain ⟨hlt, -⟩ := List.getElem?_eq_some_iff.mp hp
  refine ⟨⟨hstatus.trans (onPaused_iff ?_).symm, fun q hq => ?_⟩, fun i hi q hq => ?_⟩
  · simp [currentPhase, hlt]
  · rcases List.mem_or_eq_of_mem_set hq with hold | rfl
    · exact h.message q hold
    · exact hmessage
  · have hne : inst.currentPhaseIdx ≠ i := Ne.symm hi
    exact h.elsewhere i hi q (by simpa [List.getElem?_set, hne] using hq)

/-- Outside a pause no phase has a message. -/
theorem message_none (h : inst.PauseInvariant) (hp : inst.currentPhase = some p)
    (hs : p.status ≠ .awaitingUserInput) : p.pendingMessage = none := by
  cases hm : p.pendingMessage with
  | none => rfl
  | some m =>
    exact absurd ((h.message p (List.mem_of_getElem? hp)).mp (by simp [hm])) hs

/-- Outside a pause no phase at all is paused. -/
theorem not_awaiting (h : inst.PauseInvariant) (hnot : ¬ inst.OnPaused) {i : ℕ} {q : PhaseState}
    (hq : inst.phaseStates[i]? = some q) : q.status ≠ .awaitingUserInput := by
  by_cases hi : i = inst.currentPhaseIdx
  · subst hi
    exact mt (onPaused_iff hq).mpr hnot
  · exact h.elsewhere i hi q hq

/-- Outside a pause the index can move to any phase. -/
theorem entered (h : inst.PauseInvariant) (hnot : ¬ inst.OnPaused) (fromPhaseId : String)
    (idx : ℕ) (clk : Clock) : (inst.enterPhase fromPhaseId idx clk).2.PauseInvariant := by
  have hstatus : inst.status ≠ .awaitingUserInput := mt h.status.mp hnot
  have hnot' : ¬ OnPaused { inst with currentPhaseIdx := idx } := by
    intro hpaused
    obtain ⟨q, hq, hqs⟩ := Option.map_eq_some_iff.mp hpaused
    exact h.not_awaiting hnot hq hqs
  unfold enterPhase
  dsimp only
  split
  · exact ⟨⟨iff_of_false hstatus hnot', h.message⟩, fun i _ q => h.not_awaiting hnot⟩
  · exact ⟨⟨iff_of_false (by simp) hnot', h.message⟩, fun i _ q => h.not_awaiting hnot⟩

/-- No operation breaks the records of an instance that is not paused. -/
theorem effect (h : inst.PauseInvariant) (hnot : ¬ inst.OnPaused) (he : Effect inst op out) :
    out.PauseInvariant := by
  have hstatus : inst.status ≠ .awaitingUserInput := mt h.status.mp hnot
  cases he with
  | refused | touched => exact ⟨⟨h.status, h.message⟩, h.elsewhere⟩
  | refailed | finished => exact ⟨⟨iff_of_false (by simp) hnot, h.message⟩, h.elsewhere⟩
  | edited _ p p' ws' t hp he =>
    have hs : p.status ≠ .awaitingUserInput := mt (onPaused_iff hp).mpr hnot
    obtain ⟨hws, hmessage⟩ := he.pause_records hs (h.message_none hp hs) hstatus
    exact h.edited hp hws hmessage t
  | entered evaluator files clk p hp hs hf ho => exact h.entered hnot _ _ clk

end PauseInvariant

/-! ## Operations on a paused phase -/

/-- A paused phase refuses everything but a resume and the reconciling operations. -/
theorem applyOp_paused (hp : inst.currentPhase = some p) (hs : p.status = .awaitingUserInput)
    (hop : ¬ op.Reconciles) :
    applyOp inst op = inst ∨ ∃ t, applyOp inst op = { inst with
      phaseStates := inst.phaseStates.set inst.currentPhaseIdx
        { p with pendingMessage := none, status := .active }
      status := .inProgress
      updatedAt := t } := by
  cases op with
  | startPhase => exact .inl (by simp [applyOp, startPhase, hp, hs])
  | completePhase => exact .inl (by simp [applyOp, completePhase, hp, hs])
  | reconcileComplete => exact absurd trivial hop
  | reconcileFail => exact absurd trivial hop
  | failPhase => exact .inl (by simp [applyOp, failPhase, hp, hs])
  | incrementRetryCount => exact .inl (by simp [applyOp, incrementRetryCount, hp, hs])
  | recordToolFailure =>
    exact .inl (by simp [applyOp, recordToolFailure, recordAgainst, hp, hs])
  | recordRequest => exact .inl (by simp [applyOp, recordRequest, recordAgainst, hp, hs])
  | advance => exact .inl (by simp [applyOp, advance, hp, hs])
  | completeWorkflow => exact .inl (by simp [applyOp, completeWorkflow, hp, hs])
  | handoffToUserPhase => exact .inl (by simp [applyOp, handoffToUserPhase, hp, hs])
  | resumeFromUserInput clk =>
    by_cases hw : inst.status = .awaitingUserInput
    · refine .inr ⟨clk 0, ?_⟩
      simp only [applyOp, resumeFromUserInput, hw, hp, hs, modifyCurrent_eq _ hp, ne_eq,
        not_true_eq_false, if_false]
    · exact .inl (by simp [applyOp, resumeFromUserInput, hw])

/-- **Step lemma.** An operation that reconciles no paused phase keeps the records in agreement. -/
theorem PauseInvariant.operate (h : inst.PauseInvariant) (hop : inst.KeepsPause op) :
    (applyOp inst op).PauseInvariant := by
  by_cases hpaused : inst.OnPaused
  · obtain ⟨p, hp, hs⟩ := Option.map_eq_some_iff.mp hpaused
    rcases applyOp_paused hp hs (fun hrec => hop hrec hpaused) with heq | ⟨t, heq⟩ <;> rw [heq]
    · exact h
    · exact h.edited hp (by simp) (by simp) t
  · exact h.effect hpaused (applyOp_effect inst op)

/-- A reconciled pause leaves its message behind. -/
theorem PauseCoherent.staleMessage (h : inst.PauseCoherent) (hop : op.Reconciles)
    (hpaused : inst.OnPaused) : (applyOp inst op).StaleMessage := by
  obtain ⟨p, hp, hs⟩ := Option.map_eq_some_iff.mp hpaused
  have hmessage : p.pendingMessage.isSome := (h.message p (List.mem_of_getElem? hp)).mpr hs
  obtain ⟨hlt, -⟩ := List.getElem?_eq_some_iff.mp hp
  cases op with
  | reconcileComplete clk =>
    refine ⟨inst.currentPhaseIdx, p.markCompleted (clk 0), ?_, hmessage, .inl rfl⟩
    simp [applyOp, reconcileCompleteCurrentPhase, hp, hs, modifyCurrent_eq _ hp, hlt]
  | reconcileFail reason clk =>
    refine ⟨inst.currentPhaseIdx, ({ p with failureReason := some reason }).markFailed (clk 0), ?_,
      hmessage, .inr rfl⟩
    simp [applyOp, reconcileFailCurrentPhase, hp, hs, modifyCurrent_eq _ hp, hlt]
  | _ => exact absurd hop id

/-- No operation clears a message that was left behind. -/
theorem StaleMessage.effect (h : inst.StaleMessage) (he : Effect inst op out) :
    out.StaleMessage := by
  obtain ⟨i, q, hq, hmessage, hdone⟩ := h
  cases he with
  | refused | touched | refailed | finished => exact ⟨i, q, hq, hmessage, hdone⟩
  | entered =>
    unfold enterPhase
    dsimp only
    split <;> exact ⟨i, q, hq, hmessage, hdone⟩
  | edited _ p p' ws' t hp he =>
    refine ⟨i, q, ?_, hmessage, hdone⟩
    have hne : inst.currentPhaseIdx ≠ i := by
      rintro rfl
      obtain rfl : p = q := Option.some.inj (hp.symm.trans hq)
      rcases hdone with hdone | hdone
      · exact he.not_done.1 hdone
      · exact he.not_done.2 hdone
    simpa [List.getElem?_set, hne] using hq

theorem StaleMessage.not_coherent (h : inst.StaleMessage) : ¬ inst.PauseCoherent := by
  intro hcoherent
  obtain ⟨i, p, hp, hmessage, hdone⟩ := h
  have hs := (hcoherent.message p (List.mem_of_getElem? hp)).mp hmessage
  rw [hs] at hdone
  simp at hdone

/-! ## New instances -/

theorem pauseInvariant_new (workflowId : WorkflowId) (template : WorkflowTemplate)
    (handoffPath : String) (now : DateTime) :
    (new workflowId template handoffPath now).PauseInvariant := by
  have hphase : ∀ p ∈ (new workflowId template handoffPath now).phaseStates,
      p.pendingMessage = none ∧ p.status = .pending := by
    intro p hp
    obtain ⟨phase, -, rfl⟩ := List.mem_map.mp hp
    exact ⟨rfl, rfl⟩
  refine ⟨⟨iff_of_false (by simp [new]) fun hpaused => ?_, fun p hp => ?_⟩, fun i _ p hp => ?_⟩
  · obtain ⟨p, hp, hs⟩ := Option.map_eq_some_iff.mp hpaused
    simp [(hphase p (List.mem_of_getElem? hp)).2] at hs
  · simp [hphase p hp]
  · simp [(hphase p (List.mem_of_getElem? hp)).2]

end WorkflowInstance

end Hymenium
