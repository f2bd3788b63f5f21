import Hymenium.Workflow.Refusal

/-!
# Final states

Only `resumeFromUserInput` tests the workflow status. That a completed, failed or user-terminated
workflow stays as it is follows from the status of its current phase (`EndInvariant`), which every
operation does test. `reconcileFailCurrentPhase` takes a failed phase for its own work, and writes
the workflow status over a termination by the user (`sameEnd_run_iff`).
-/

namespace Hymenium

/-- Completed, failed, or terminated by the user. -/
def WorkflowStatus.IsFinal (ws : WorkflowStatus) : Prop :=
  ws = .completed ∨ ws = .failed ∨ ws = .userTerminated

instance (ws : WorkflowStatus) : Decidable ws.IsFinal :=
  inferInstanceAs (Decidable (_ ∨ _ ∨ _))

/-- The operation fails the current phase on behalf of Canopy. -/
def Op.ReconcilesFail : Op → Prop
  | .reconcileFail _ _ => True
  | _ => False

instance : DecidablePred Op.ReconcilesFail
  | .reconcileFail _ _ => isTrue trivial
  | .startPhase _ _ | .completePhase _ | .reconcileComplete _ | .failPhase _ _
  | .incrementRetryCount _ | .recordToolFailure _ _ | .recordRequest _ _ | .advance _ _ _
  | .completeWorkflow _ | .handoffToUserPhase _ _ _ | .resumeFromUserInput _ => isFalse id

namespace WorkflowInstance

/-- Workflow status, index and status of the current phase are the same. -/
structure SameEnd (a b : WorkflowInstance) : Prop where
  status : b.status = a.status
  index : b.currentPhaseIdx = a.currentPhaseIdx
  phase : b.currentPhase.map (·.status) = a.currentPhase.map (·.status)

theorem SameEnd.refl (a : WorkflowInstance) : SameEnd a a := ⟨rfl, rfl, rfl⟩

theorem SameEnd.trans {a b c : WorkflowInstance} (h : SameEnd a b) (h' : SameEnd b c) :
    SameEnd a c :=
  ⟨h'.status.trans h.status, h'.index.trans h.index, h'.phase.trans h.phase⟩

/-- A final workflow status stands over a current phase that is done. -/
structure EndInvariant (inst : WorkflowInstance) : Prop where
  aligned : inst.Aligned
  completed : inst.status = .completed →
    inst.currentPhase.map (·.status) = some .completed ∧ inst.AtFinal
  failed : inst.status = .failed ∨ inst.status = .userTerminated →
    inst.currentPhase.map (·.status) = some .failed

variable {inst : WorkflowInstance} {op : Op} {p : PhaseState}

theorem endInvariant_new (workflowId : WorkflowId) (template : WorkflowTemplate)
    (handoffPath : String) (now : DateTime) :
    (new workflowId template handoffPath now).EndInvariant :=
  ⟨aligned_new workflowId template handoffPath now, nofun, fun h => h.elim nofun nofun⟩

/-! ## The invariant -/

/-- An edit is made to a phase that is not done. -/
theorem Edit.status_open {p' : PhaseState} {ws ws' : WorkflowStatus} (h : Edit p ws p' ws') :
    p.status ≠ .completed ∧ p.status ≠ .failed := by
  cases h with
  | complete _ hs | fail _ _ hs => rcases hs with hs | hs <;> rw [hs] <;> exact ⟨nofun, nofun⟩
  | start _ hs | completePending _ _ hs | failPending _ _ _ hs | retry hs | count _ hs
  | exceed _ _ _ hs | pause _ hs | terminate _ _ hs | resume hs => rw [hs]; exact ⟨nofun, nofun⟩

/-- An edit writes a final status together with a failed phase, or keeps the status. -/
theorem Edit.final {p' : PhaseState} {ws ws' : WorkflowStatus} (h : Edit p ws p' ws') :
    ws' = ws ∨ ¬ ws'.IsFinal ∨ ws' ≠ .completed ∧ p'.status = .failed := by
  cases h with
  | complete | completePending | retry | count => exact .inl rfl
  | start | pause | resume => exact .inr (.inl (by decide))
  | fail | failPending | exceed | terminate => exact .inr (.inr ⟨nofun, rfl⟩)

/-- The current phase after the edited one is put in its place. -/
theorem currentPhase_set (hp : inst.currentPhase = some p) (p' : PhaseState) :
    (inst.phaseStates.set inst.currentPhaseIdx p')[inst.currentPhaseIdx]? = some p' := by
  have hlt : inst.currentPhaseIdx < inst.phaseStates.length := (List.getElem?_eq_some_iff.mp hp).1
  rw [List.getElem?_set_self hlt]

theorem EndInvariant.edit (h : inst.EndInvariant) {p' : PhaseState} {ws' : WorkflowStatus}
    (hp : inst.currentPhase = some p) (he : Edit p inst.status p' ws') (t : DateTime)
    (haligned : Aligned { inst with
      phaseStates := inst.phaseStates.set inst.currentPhaseIdx p', status := ws', updatedAt := t }) :
    EndInvariant { inst with
      phaseStates := inst.phaseStates.set inst.currentPhaseIdx p', status := ws', updatedAt := t } := by
  obtain ⟨hcompleted, hfailed⟩ := he.status_open
  -- the status before the edit is not final, since the phase is not done
  have hopen : ¬ inst.status.IsFinal := by
    rintro (heq | heq)
    · have hphase := (h.completed heq).1
      rw [hp, Option.map_some, Option.some.injEq] at hphase
      exact hcompleted hphase
    · have hphase := h.failed heq
      rw [hp, Option.map_some, Option.some.injEq] at hphase
      exact hfailed hphase
  have hcur : currentPhase { inst with
      phaseStates := inst.phaseStates.set inst.currentPhaseIdx p', status := ws', updatedAt := t } =
      some p' := currentPhase_set hp p'
  rcases he.final with heq | hnot | ⟨hne, hs⟩
  · subst heq
    exact ⟨haligned, fun heq => absurd (.inl heq) hopen, fun heq => absurd (.inr heq) hopen⟩
  · exact ⟨haligned, fun heq => absurd (.inl heq) hnot, fun heq => absurd (.inr heq) hnot⟩
  · refine ⟨haligned, fun heq => absurd heq hne, fun _ => ?_⟩
    rw [hcur, Option.map_some, hs]

/-- Every effect of an operation keeps the invariant. -/
theorem EndInvariant.effect (h : inst.EndInvariant) {out : WorkflowInstance}
    (he : Effect inst op out) : out.EndInvariant := by
  have haligned := h.aligned.sameFrame he.sameFrame
  cases he with
  | refused | touched => exact ⟨haligned, h.completed, h.failed⟩
  | refailed _ p t hp hs =>
    refine ⟨haligned, nofun, fun _ => ?_⟩
    show inst.currentPhase.map (·.status) = some .failed
    rw [hp, Option.map_some, hs]
  | finished _ p t hp hs hf =>
    refine ⟨haligned, fun _ => ⟨?_, Nat.le_of_eq hf.symm⟩, fun heq => heq.elim nofun nofun⟩
    show inst.currentPhase.map (·.status) = some .completed
    rw [hp, Option.map_some, hs]
  | edited _ p p' ws' t hp he => exact h.edit hp he t haligned
  | entered evaluator files clk p hp hs hf ho =>
    have hlt : inst.currentPhaseIdx + 1 < inst.phaseStates.length := by
      unfold AtFinal at hf
      rw [h.aligned.length_eq]
      omega
    rw [enterPhase_some (List.getElem?_eq_getElem hlt)] at haligned ⊢
    exact ⟨haligned, nofun, fun heq => heq.elim nofun nofun⟩

theorem EndInvariant.reached (h : inst.EndInvariant) (ops : List Op) :
    (runOps inst ops).EndInvariant :=
  Runs.run_invariant (P := EndInvariant) (fun _ op hs => hs.effect (applyOp_effect _ op)) h ops

/-! ## One step from a final state -/

/-- Over a failed phase every operation is refused, but for the one that reports it failed. -/
theorem applyOp_failed (hp : inst.currentPhase = some p) (hs : p.status = .failed)
    (hop : ¬ op.ReconcilesFail) : applyOp inst op = inst := by
  cases op with
  | reconcileFail reason clk => exact absurd trivial hop
  | recordToolFailure | recordRequest =>
    simp [applyOp, recordToolFailure, recordRequest, recordAgainst, hp, hs]
  | advance evaluator files clk =>
    obtain ⟨msg, heq⟩ := advance_not_completed evaluator files clk hp (by rw [hs]; nofun)
    show (inst.advance evaluator files clk).2 = inst
    rw [heq]
  | resumeFromUserInput clk =>
    simp only [applyOp, resumeFromUserInput, hp, hs]
    rw [if_pos (show PhaseStatus.failed ≠ .awaitingUserInput by decide)]
    split_ifs <;> rfl
  | startPhase | completePhase | reconcileComplete | failPhase | incrementRetryCount
  | completeWorkflow | handoffToUserPhase =>
    simp [applyOp, startPhase, completePhase, reconcileCompleteCurrentPhase, failPhase,
      incrementRetryCount, completeWorkflow, handoffToUserPhase, hp, hs]

/-- Over a failed phase, reporting it failed writes the workflow status. -/
theorem applyOp_refail (hp : inst.currentPhase = some p) (hs : p.status = .failed)
    (hop : op.ReconcilesFail) :
    ∃ t, applyOp inst op = { inst with status := .failed, updatedAt := t } := by
  cases op with
  | reconcileFail reason clk =>
    refine ⟨clk 0, ?_⟩
    show (inst.reconcileFailCurrentPhase reason clk).2 = _
    unfold reconcileFailCurrentPhase
    simp only [hp, hs]
  | _ => exact absurd hop id

/-- A finished workflow is finished again, or touched, or left alone. -/
theorem applyOp_finished (hp : inst.currentPhase = some p) (hs : p.status = .completed)
    (hf : inst.AtFinal) (hw : inst.status = .completed) (op : Op) :
    ∃ t, applyOp inst op = { inst with updatedAt := t } := by
  have hkept : applyOp inst op = inst → ∃ t, applyOp inst op = { inst with updatedAt := t } :=
    fun heq => ⟨inst.updatedAt, heq⟩
  cases op with
  | reconcileComplete clk =>
    refine ⟨clk 0, ?_⟩
    show (inst.reconcileCompleteCurrentPhase clk).2 = _
    unfold reconcileCompleteCurrentPhase
    simp only [hp, hs]
  | completeWorkflow clk =>
    show ∃ t, (inst.completeWorkflow clk).2 = _
    unfold completeWorkflow
    simp only [hp, hs, ne_eq, not_true_eq_false, if_false]
    split_ifs with hidx
    · refine ⟨clk 0, ?_⟩
      rw [← hw]
    · exact ⟨inst.updatedAt, rfl⟩
  | advance evaluator files clk =>
    apply hkept
    show (inst.advance evaluator files clk).2 = inst
    rw [advance_final hp hs hf]
  | recordToolFailure | recordRequest =>
    apply hkept
    simp [applyOp, recordToolFailure, recordRequest, recordAgainst, hp, hs]
  | resumeFromUserInput clk =>
    apply hkept
    simp [applyOp, resumeFromUserInput, hw]
  | startPhase | completePhase | reconcileFail | failPhase | incrementRetryCount
  | handoffToUserPhase =>
    apply hkept
    simp [applyOp, startPhase, completePhase, reconcileFailCurrentPhase, failPhase,
      incrementRetryCount, handoffToUserPhase, hp, hs]

/-- The operation does not report a phase failed that the user terminated. -/
def SparesTermination (inst : WorkflowInstance) (op : Op) : Prop :=
  inst.status = .userTerminated → ¬ op.ReconcilesFail

/-- **Step lemma.** In a final state an operation changes nothing of the end, unless it reports a
phase failed that the user terminated. -/
theorem EndInvariant.sameEnd_step (h : inst.EndInvariant) (hfinal : inst.status.IsFinal)
    (hspares : inst.SparesTermination op) : SameEnd inst (applyOp inst op) := by
  rcases hfinal with hw | hw
  · obtain ⟨hphase, hf⟩ := h.completed hw
    obtain ⟨p, hp, hs⟩ := Option.map_eq_some_iff.mp hphase
    obtain ⟨t, heq⟩ := applyOp_finished hp hs hf hw op
    rw [heq]
    exact ⟨rfl, rfl, rfl⟩
  · obtain ⟨p, hp, hs⟩ := Option.map_eq_some_iff.mp (h.failed hw)
    by_cases hop : op.ReconcilesFail
    · have hfailed : inst.status = .failed := hw.resolve_right fun heq => hspares heq hop
      obtain ⟨t, heq⟩ := applyOp_refail hp hs hop
      rw [heq]
      exact ⟨hfailed.symm, rfl, rfl⟩
    · rw [applyOp_failed hp hs hop]
      exact .refl inst

/-- Reporting the phase failed takes the termination by the user away. -/
theorem EndInvariant.not_sameEnd (h : inst.EndInvariant) (hw : inst.status = .userTerminated)
    (hop : op.ReconcilesFail) : ¬ SameEnd inst (applyOp inst op) := by
  intro hsame
  obtain ⟨p, hp, hs⟩ := Option.map_eq_some_iff.mp (h.failed (.inr hw))
  obtain ⟨t, heq⟩ := applyOp_refail hp hs hop
  have hstatus := hsame.status
  rw [heq, hw] at hstatus
  cases hstatus

/-! ## Runs from a final state -/

/-- The end stays as it is at every moment of a run exactly when no operation of the run reports a
phase failed that the user terminated. -/
theorem EndInvariant.sameEnd_iff (h : inst.EndInvariant) (hfinal : inst.status.IsFinal)
    (more : List Op) :
    (∀ pre, pre <+: more → SameEnd inst (runOps inst pre)) ↔
      (inst.status = .userTerminated → ∀ op ∈ more, ¬ op.ReconcilesFail) := by
  induction more generalizing inst with
  | nil =>
    refine iff_of_true (fun pre hpre => ?_) fun _ op hop => absurd hop List.not_mem_nil
    rw [List.prefix_nil.mp hpre]
    exact .refl inst
  | cons op more ih =>
    have hstep := h.effect (applyOp_effect inst op)
    constructor
    · intro hall hw
      have hfirst : SameEnd inst (applyOp inst op) := hall [op] (List.prefix_append [op] more)
      have hw' : (applyOp inst op).status = .userTerminated := hfirst.status.trans hw
      have hrest := (ih hstep (.inr (.inr hw'))).mp (fun pre hpre => ?_) hw'
      · intro op' hop'
        rcases List.mem_cons.mp hop' with rfl | hmem
        · exact fun hop => h.not_sameEnd hw hop hfirst
        · exact hrest op' hmem
      · have hlong : SameEnd inst (runOps inst (op :: pre)) :=
          hall (op :: pre) (List.cons_prefix_cons.mpr ⟨rfl, hpre⟩)
        exact ⟨hlong.status.trans hfirst.status.symm, hlong.index.trans hfirst.index.symm,
          hlong.phase.trans hfirst.phase.symm⟩
    · intro hspares pre hpre
      have hfirst : SameEnd inst (applyOp inst op) :=
        h.sameEnd_step hfinal fun hw => hspares hw op List.mem_cons_self
      cases pre with
      | nil => exact .refl inst
      | cons op' pre =>
        obtain ⟨rfl, hrest⟩ := List.cons_prefix_cons.mp hpre
        have hfinal' : (applyOp inst op').status.IsFinal := by
          rw [hfirst.status]
          exact hfinal
        refine hfirst.trans ((ih hstep hfinal').mpr (fun hw => ?_) pre hrest)
        intro op hop
        exact hspares (hfirst.status.symm.trans hw) op (List.mem_cons_of_mem _ hop)

/-- **Finality.** Once a run has reached a completed, failed or user-terminated workflow, no
continuation of the run changes the workflow status, the index or the status of the current phase at
any moment, exactly when no operation of the continuation of a user-terminated workflow reports its
phase failed on behalf of Canopy. -/
theorem sameEnd_run_iff (workflowId : WorkflowId) (template : WorkflowTemplate)
    (handoffPath : String) (now : DateTime) (ops more : List Op)
    (hfinal : (runOps (new workflowId template handoffPath now) ops).status.IsFinal) :
    (∀ pre, pre <+: more → SameEnd (runOps (new workflowId template handoffPath now) ops)
        (runOps (new workflowId template handoffPath now) (ops ++ pre))) ↔
      ((runOps (new workflowId template handoffPath now) ops).status = .userTerminated →
        ∀ op ∈ more, ¬ op.ReconcilesFail) := by
  simp only [Runs.run_append]
  exact ((endInvariant_new workflowId template handoffPath now).reached ops).sameEnd_iff hfinal more

/-- The user breaks out of the first phase. -/
def breakout : List Op :=
  [.startPhase (fun _ => true) Int.ofNat, .handoffToUserPhase "stop here" true Int.ofNat]

theorem sameEnd_run_iff_breakout :
    let more : List Op := [.completePhase Int.ofNat, .resumeFromUserInput Int.ofNat]
    (∀ pre, pre <+: more → SameEnd (runOps (new "wf" implAuditDefault "handoff.md" 0) breakout)
        (runOps (new "wf" implAuditDefault "handoff.md" 0) (breakout ++ pre))) ↔
      ((runOps (new "wf" implAuditDefault "handoff.md" 0) breakout).status = .userTerminated →
        ∀ op ∈ more, ¬ op.ReconcilesFail) :=
  sameEnd_run_iff "wf" implAuditDefault "handoff.md" 0 breakout _ (by decide +kernel)

/-- Canopy reports the task cancelled after the user terminated the workflow. -/
theorem termination_overwritten :
    let inst := runOps (new "wf" implAuditDefault "handoff.md" 0) breakout
    inst.status = .userTerminated ∧
      (applyOp inst (.reconcileFail "Canopy task task-1 was cancelled" Int.ofNat)).status =
        .failed := by
  decide +kernel

end WorkflowInstance

end Hymenium
