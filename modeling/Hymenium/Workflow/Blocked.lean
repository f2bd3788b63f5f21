import Hymenium.Workflow.Refusal

/-!
# The note of missing artifacts

`blockedOn` is documented to hold the failing gate while the workflow status is `blockedOnGate`. The
engine writes the note without that status, and no success removes it. So the note agrees with the
status exactly up to the first step that finds required artifacts missing (`blockedTruth_iff`).
-/

namespace Hymenium

namespace WorkflowInstance

/-- The note is there if and only if the status says so. -/
def BlockedTruth (inst : WorkflowInstance) : Prop :=
  inst.blockedOn.isSome ↔ inst.status = .blockedOnGate

instance (inst : WorkflowInstance) : Decidable inst.BlockedTruth :=
  inferInstanceAs (Decidable (_ ↔ _))

/-- The exit gate of the current phase is open, and required artifacts of the next one are
missing. -/
def NextArtifactsMissing (inst : WorkflowInstance) (evaluator : GateEvaluator) (files : Files) :
    Prop :=
  ∃ current p next, inst.currentPhase = some current ∧ inst.currentTemplatePhase = some p ∧
    inst.template.phases[inst.currentPhaseIdx + 1]? = some next ∧
    evaluator.Passes p.exitGate ⟨inst.workflowId, current.phaseId⟩ ∧ ¬ next.ArtifactsExist files

/-- The operation comes as far as the artifacts of the phase it starts or enters, and finds required
ones missing. -/
def FindsMissing (inst : WorkflowInstance) : Op → Prop
  | .startPhase files _ => ∃ p phase, inst.currentPhase = some p ∧ p.status = .pending ∧
      inst.currentTemplatePhase = some phase ∧ ¬ phase.ArtifactsExist files
  | .advance evaluator files _ => inst.currentPhase.map (·.status) = some .completed ∧
      inst.NextArtifactsMissing evaluator files
  | _ => False

variable {inst : WorkflowInstance} {op : Op} {p : PhaseState}

/-! ## Who writes the note -/

theorem checkArtifactPrerequisites_error_iff {phase : Phase} {files : Files} :
    (∃ errors, checkArtifactPrerequisites phase none files = .error errors) ↔
      ¬ phase.ArtifactsExist files := by
  rw [← checkArtifactPrerequisites_ok_iff]
  cases checkArtifactPrerequisites phase none files <;> simp

theorem startPhase_missing {files : Files} {clk : Clock}
    (h : inst.FindsMissing (.startPhase files clk)) :
    (inst.startPhase files clk).2.blockedOn ≠ none := by
  obtain ⟨p, phase, hp, hs, ht, hmissing⟩ := h
  obtain ⟨errors, hc⟩ := checkArtifactPrerequisites_error_iff.mpr hmissing
  unfold startPhase
  simp only [hp, hs, ne_eq, not_true_eq_false, if_false, ht, hc]
  exact Option.some_ne_none _

theorem startPhase_keeps {files : Files} {clk : Clock}
    (h : ¬ inst.FindsMissing (.startPhase files clk)) :
    (inst.startPhase files clk).2.blockedOn = inst.blockedOn := by
  unfold startPhase
  cases hp : inst.currentPhase with
  | none => rfl
  | some p =>
    dsimp only
    by_cases hs : p.status ≠ .pending
    · rw [if_pos hs]
    · rw [if_neg hs]
      cases ht : inst.currentTemplatePhase with
      | none => rfl
      | some phase =>
        dsimp only
        cases hc : checkArtifactPrerequisites phase none files with
        | ok warnings => rfl
        | error errors =>
          exact absurd ⟨p, phase, hp, not_not.mp hs, ht,
            checkArtifactPrerequisites_error_iff.mp ⟨errors, hc⟩⟩ h

section Advance

variable {evaluator : GateEvaluator} {files : Files} {clk : Clock}

theorem advance_missing (hp : inst.currentPhase = some p) (hs : p.status = .completed)
    (h : inst.NextArtifactsMissing evaluator files) :
    ∃ b, inst.advance evaluator files clk =
      ((inst.advance evaluator files clk).1, { inst with blockedOn := some b }) := by
  obtain ⟨current, phase, next, hcur, ht, hn, hexit, hmissing⟩ := h
  obtain rfl : p = current := Option.some.inj (hp.symm.trans hcur)
  obtain ⟨errors, hc⟩ := checkArtifactPrerequisites_error_iff.mpr hmissing
  have hlt : inst.currentPhaseIdx + 1 < inst.template.phases.length :=
    (List.getElem?_eq_some_iff.mp hn).1
  have hf : ¬ inst.template.phases.length - 1 ≤ inst.currentPhaseIdx := by omega
  refine ⟨joinErrors errors, ?_⟩
  unfold advance
  simp only [hp, hs, ne_eq, not_true_eq_false, if_false, if_neg hf,
    (canAdvance_true_iff hp ht).mpr hexit, hn, hc]

theorem advance_keeps (hp : inst.currentPhase = some p)
    (h : ¬ inst.NextArtifactsMissing evaluator files) :
    (inst.advance evaluator files clk).2.blockedOn = inst.blockedOn := by
  unfold advance
  simp only [hp]
  split_ifs with hs hf
  · rfl
  · rfl
  cases hcan : inst.canAdvance evaluator with
  | error err => rfl
  | ok passed =>
    cases passed with
    | false => rfl
    | true =>
      dsimp only
      cases hn : inst.template.phases[inst.currentPhaseIdx + 1]? with
      | none => rfl
      | some next =>
        dsimp only
        cases hc : checkArtifactPrerequisites next none files with
        | error errors =>
          have hlt : inst.currentPhaseIdx < inst.template.phases.length := by omega
          have ht : inst.currentTemplatePhase = some inst.template.phases[inst.currentPhaseIdx] :=
            List.getElem?_eq_getElem hlt
          exact absurd ⟨p, _, next, hp, ht, hn, (canAdvance_true_iff hp ht).mp hcan,
            checkArtifactPrerequisites_error_iff.mp ⟨errors, hc⟩⟩ h
        | ok warnings =>
          dsimp only
          cases inst.checkEntryGate evaluator next with
          | error err => rfl
          | ok u =>
            unfold enterPhase
            dsimp only
            split <;> rfl

end Advance

/-- An operation that finds artifacts missing leaves the note. -/
theorem blockedOn_of_missing (h : inst.FindsMissing op) : (applyOp inst op).blockedOn ≠ none := by
  cases op with
  | startPhase files clk => exact startPhase_missing h
  | advance evaluator files clk =>
    obtain ⟨hs, hmissing⟩ := h
    obtain ⟨p, hp, hs⟩ := Option.map_eq_some_iff.mp hs
    have hnoted : ∃ b, inst.advance evaluator files clk = (_, { inst with blockedOn := some b }) :=
      advance_missing hp hs hmissing
    obtain ⟨b, heq⟩ := hnoted
    show (inst.advance evaluator files clk).2.blockedOn ≠ none
    rw [heq]
    exact Option.some_ne_none _
  | _ => exact absurd h id

theorem recordAgainst_blockedOn (counter : CeilingCounter) (ceiling : UInt32) (clk : Clock) :
    (inst.recordAgainst counter ceiling clk).2.blockedOn = inst.blockedOn := by
  unfold recordAgainst
  cases inst.currentPhase with
  | none => rfl
  | some p => dsimp only; split_ifs <;> rfl

/-- Every other operation keeps what was noted. -/
theorem blockedOn_applyOp (h : ¬ inst.FindsMissing op) :
    (applyOp inst op).blockedOn = inst.blockedOn := by
  cases op with
  | startPhase files clk => exact startPhase_keeps h
  | advance evaluator files clk =>
    show (inst.advance evaluator files clk).2.blockedOn = inst.blockedOn
    cases hp : inst.currentPhase with
    | none => rw [advance_none hp]
    | some p =>
      by_cases hs : p.status = .completed
      · exact advance_keeps hp fun hmissing => h ⟨by rw [hp, Option.map_some, hs], hmissing⟩
      · obtain ⟨msg, heq⟩ := advance_not_completed evaluator files clk hp hs
        rw [heq]
  | recordToolFailure ceiling clk => exact recordAgainst_blockedOn _ ceiling clk
  | recordRequest ceiling clk => exact recordAgainst_blockedOn _ ceiling clk
  | completePhase clk | failPhase reason clk | incrementRetryCount clk | completeWorkflow clk
  | handoffToUserPhase message breakout clk =>
    simp only [applyOp, completePhase, failPhase, incrementRetryCount, completeWorkflow,
      handoffToUserPhase]
    cases inst.currentPhase with
    | none => rfl
    | some p => dsimp only; split_ifs <;> rfl
  | reconcileComplete clk | reconcileFail reason clk =>
    simp only [applyOp, reconcileCompleteCurrentPhase, reconcileFailCurrentPhase]
    cases inst.currentPhase with
    | none => rfl
    | some p => cases hs : p.status <;> simp only [hs] <;> rfl
  | resumeFromUserInput clk =>
    simp only [applyOp, resumeFromUserInput]
    cases inst.currentPhase with
    | none => split_ifs <;> rfl
    | some p => dsimp only; split_ifs <;> rfl

/-! ## Runs -/

/-- No operation takes the note back. -/
theorem blockedOn_ne_none (h : inst.blockedOn ≠ none) (op : Op) :
    (applyOp inst op).blockedOn ≠ none := by
  by_cases hm : inst.FindsMissing op
  · exact blockedOn_of_missing hm
  · rw [blockedOn_applyOp hm]
    exact h

theorem Edit.status_ne_blocked {p p' : PhaseState} {ws ws' : WorkflowStatus}
    (h : Edit p ws p' ws') (hw : ws ≠ .blockedOnGate) : ws' ≠ .blockedOnGate := by
  cases h with
  | complete | completePending | retry | count => exact hw
  | start | fail | failPending | exceed | pause | terminate | resume => nofun

/-- No operation writes the status that the note belongs to. -/
theorem status_ne_blocked (h : inst.status ≠ .blockedOnGate) (op : Op) :
    (applyOp inst op).status ≠ .blockedOnGate := by
  have heff := applyOp_effect inst op
  generalize applyOp inst op = out at heff
  cases heff with
  | refused | touched => exact h
  | refailed | finished => nofun
  | edited _ p p' ws' t hp he => exact he.status_ne_blocked h
  | entered evaluator files clk p hp hs hf ho =>
    unfold enterPhase
    dsimp only
    split
    · exact h
    · nofun

/-- **The note of missing artifacts.** In the state a run reaches from a new instance, `blockedOn` is
set if and only if the status is `blockedOnGate`, exactly when no step of the run found required
artifacts missing. -/
theorem blockedTruth_iff (workflowId : WorkflowId) (template : WorkflowTemplate)
    (handoffPath : String) (now : DateTime) (ops : List Op) :
    (runOps (new workflowId template handoffPath now) ops).BlockedTruth ↔
      Runs.Meets applyOp (fun inst op => ¬ inst.FindsMissing op)
        (new workflowId template handoffPath now) ops := by
  have hstatus : (new workflowId template handoffPath now).status ≠ .blockedOnGate := nofun
  have hclear : (new workflowId template handoffPath now).blockedOn = none := rfl
  generalize new workflowId template handoffPath now = inst at hstatus hclear ⊢
  induction ops generalizing inst with
  | nil =>
    apply iff_of_true _ trivial
    show inst.blockedOn.isSome ↔ inst.status = .blockedOnGate
    rw [hclear]
    exact iff_of_false nofun hstatus
  | cons op ops ih =>
    by_cases hm : inst.FindsMissing op
    · refine iff_of_false (fun htruth => ?_) fun hmeets => hmeets.1 hm
      -- the note stays to the end of the run, and the status never agrees
      have hnote : (runOps (applyOp inst op) ops).blockedOn ≠ none :=
        Runs.run_invariant (P := fun s : WorkflowInstance => s.blockedOn ≠ none)
          (fun _ op h => blockedOn_ne_none h op) (blockedOn_of_missing hm) ops
      have hnever : (runOps (applyOp inst op) ops).status ≠ .blockedOnGate :=
        Runs.run_invariant (P := fun s : WorkflowInstance => s.status ≠ .blockedOnGate)
          (fun _ op h => status_ne_blocked h op) (status_ne_blocked hstatus op) ops
      exact hnever (htruth.mp (Option.isSome_iff_ne_none.mpr hnote))
    · have hclear' : (applyOp inst op).blockedOn = none := (blockedOn_applyOp hm).trans hclear
      exact (ih _ (status_ne_blocked hstatus op) hclear').trans (and_iff_right hm).symm

/-- The plan is missing at the first start, and there at the second. -/
theorem note_outlives_success :
    let ops : List Op :=
      [.startPhase (fun _ => false) Int.ofNat, .startPhase (fun _ => true) Int.ofNat]
    let inst := runOps (new "wf" plannedTemplate "handoff.md" 0) ops
    inst.status = .inProgress ∧ ¬ inst.BlockedTruth := by
  decide +kernel

end WorkflowInstance

end Hymenium
