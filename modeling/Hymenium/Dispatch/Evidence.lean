import Hymenium.Dispatch.Reconcile

/-!
# Evidence and reconciliation

Two laws of `reconcilePhases` without `forceAdvance`, each with the exact condition under which the
code obeys it.

Completion with evidence: a workflow becomes Completed at its final phase, on evidence that passes
the exit gate of that phase. `advance` tests for the final phase before it evaluates the exit gate,
so the law holds unless a final phase whose exit gate is not met is reported completed.

Late evidence: a first answer that is completed but lacks evidence is made good by a second answer
that has it. The first call marks the phase completed, and a completed phase is never fetched again,
so the second call does nothing.
-/

namespace Hymenium

open WorkflowInstance

variable {inst : WorkflowInstance} {canopy : CanopyClient} {files : Files} {clk : Clock}

/-! ## Completion with evidence -/

namespace WorkflowInstance

/-- The current phase is the final phase of the template, and the evidence of `task` passes every
condition of its exit gate. -/
def FinalGatePassed (inst : WorkflowInstance) (task : TaskDetail) : Prop :=
  inst.currentPhaseIdx + 1 = inst.template.phases.length ∧
    ∃ phase p, inst.currentPhase = some phase ∧ inst.currentTemplatePhase = some p ∧
      (evidenceGateEvaluator task).Passes p.exitGate ⟨inst.workflowId, phase.phaseId⟩

/-- The task of the current phase is fetched and found completed at the final phase. -/
def ReportedAtFinal (inst : WorkflowInstance) (task : TaskDetail) : Prop :=
  inst.openTask.isSome = true ∧ isCompletedStatus task.status = true ∧ inst.AtFinal

end WorkflowInstance

/-- **Completion with evidence.** For an answer without a stop signal, completion of a workflow
implies evidence exactly when a final phase reported completed has its exit gate passed. -/
theorem completed_with_evidence_iff (inst : WorkflowInstance) (canopy : CanopyClient)
    (task : TaskDetail) (files : Files) (clk : Clock) (hstatus : inst.status ≠ .completed)
    (hanswer : ∀ taskId, inst.openTask = some taskId → canopy.getTask taskId = .ok task)
    (hstop : task.stopSignal = none) :
    (∀ r, reconcilePhases inst canopy false files clk = .ok r → r.inst.status = .completed →
        inst.FinalGatePassed task) ↔
      (inst.ReportedAtFinal task → inst.FinalGatePassed task) := by
  constructor
  · rintro h ⟨hopen, hc, hf⟩
    obtain ⟨taskId, ht⟩ := Option.isSome_iff_exists.mp hopen
    obtain ⟨r, hr, hcase⟩ := reconcilePhases_answered false files clk ht (hanswer taskId ht)
    refine h r hr ?_
    generalize r.inst = out at hcase ⊢
    cases hcase with
    | finished => rfl
    | waiting _ hc' => simp [hc] at hc'
    | failed _ _ _ hf' => simp [not_failed_of_completed hc] at hf'
    | stopped _ _ _ _ hs => exact absurd hstop hs
    | entered _ _ _ _ _ _ _ _ _ hf' => exact absurd hf hf'
    | stranded _ _ _ _ _ _ hf' => exact absurd hf hf'
    | blocked _ _ _ _ _ _ _ hf' => exact absurd hf hf'
  · intro h r hr hcompleted
    cases ht : inst.openTask with
    | none =>
      obtain ⟨r', hr', hout⟩ := reconcilePhases_unasked canopy false files clk ht
      cases hr.symm.trans hr'
      rw [hout] at hcompleted
      exact absurd hcompleted hstatus
    | some taskId =>
      have hcase := reconcilePhases_reconciled hr
      rw [answer_some ht, hanswer taskId ht] at hcase
      generalize r.inst = out at hcase hcompleted
      cases hcase with
      | finished _ _ _ hc _ _ hf => exact h ⟨by simp [ht], hc, hf⟩
      | waiting => exact absurd hcompleted hstatus
      | failed => cases hcompleted
      | stopped _ _ _ _ hs => exact absurd hstop hs
      | entered => cases hcompleted
      | stranded => exact absurd hcompleted hstatus
      | blocked => exact absurd hcompleted hstatus

/-- The built-in workflow at its audit phase, dispatched as task `"t"`. -/
def auditDispatched : WorkflowInstance :=
  { new "wf" implAuditDefault "handoff.md" 0 with
    status := .dispatched
    currentPhaseIdx := 1
    phaseStates := [
      (PhaseState.new "implement" .worker).markCompleted 0,
      { PhaseState.new "audit" .outputVerifier with canopyTaskId := some "t" }] }

/-- A completed task with code diff and verification evidence, and no audit verdict. -/
def completedTask : TaskDetail where
  taskId := "t"
  title := "Audit"
  status := "completed"
  hasCodeDiff := true
  hasVerificationPassed := true

/-- The audit gate asks for a clean audit; the reconciliation completes the workflow without. -/
theorem completed_without_evidence :
    auditDispatched.status ≠ .completed ∧ completedTask.stopSignal = none ∧
      (∃ r, reconcilePhases auditDispatched ⟨fun _ => .ok completedTask⟩ false (fun _ => true)
        Int.ofNat = .ok r ∧ r.inst.status = .completed) ∧
      ¬ auditDispatched.FinalGatePassed completedTask := by
  refine ⟨by decide, rfl, ⟨_, rfl, rfl⟩, ?_⟩
  rintro ⟨-, phase, p, hphase, hp, hpass⟩
  cases hphase
  cases hp
  revert hpass
  decide

theorem completed_with_evidence_audit :
    (∀ r, reconcilePhases auditDispatched ⟨fun _ => .ok completedTask⟩ false (fun _ => true)
        Int.ofNat = .ok r → r.inst.status = .completed →
        auditDispatched.FinalGatePassed completedTask) ↔
      (auditDispatched.ReportedAtFinal completedTask →
        auditDispatched.FinalGatePassed completedTask) :=
  completed_with_evidence_iff auditDispatched ⟨fun _ => .ok completedTask⟩ completedTask
    (fun _ => true) Int.ofNat (by decide) (fun _ _ => rfl) rfl

/-! ## Late evidence -/

namespace WorkflowInstance

/-- A reconciliation leaves index and status alone: it asks nothing, or the task it asks about is
not failed and, if completed, neither stops, finishes nor advances the workflow. -/
def Idle (inst : WorkflowInstance) (canopy : CanopyClient) (files : Files) : Prop :=
  ∀ taskId, inst.openTask = some taskId → ∃ task, canopy.getTask taskId = .ok task ∧
    isFailedStatus task.status = false ∧
    (isCompletedStatus task.status = true → task.stopSignal = none ∧ ¬ inst.AtFinal ∧
      ¬ inst.GatesOpen (evidenceGateEvaluator task) files)

/-- The instance as the next phase finds it. -/
def atNext (inst : WorkflowInstance) : WorkflowInstance :=
  { inst with currentPhaseIdx := inst.currentPhaseIdx + 1 }

end WorkflowInstance

/-- `Idle` says when a reconciliation of an unfinished workflow moves nothing. -/
theorem idle_iff (hfailed : inst.status ≠ .failed) (hcompleted : inst.status ≠ .completed) :
    (∃ r, reconcilePhases inst canopy false files clk = .ok r ∧
        r.inst.currentPhaseIdx = inst.currentPhaseIdx ∧ r.inst.status = inst.status) ↔
      inst.Idle canopy files := by
  constructor
  · rintro ⟨r, hr, hidx, hst⟩ taskId ht
    cases hans : canopy.getTask taskId with
    | error e => cases hr.symm.trans (reconcilePhases_fetchError ht hans clk)
    | ok task =>
      have hcase := reconcilePhases_reconciled hr
      rw [answer_some ht, hans] at hcase
      generalize r.inst = out at hcase hidx hst
      refine ⟨task, rfl, ?_⟩
      cases hcase with
      | waiting _ hc hf => exact ⟨hf, by simp [hc]⟩
      | blocked _ _ _ _ hc hs _ hf ho =>
        exact ⟨not_failed_of_completed hc, fun _ => ⟨hs, hf, ho⟩⟩
      | failed => exact absurd hst.symm hfailed
      | stopped | finished => exact absurd hst.symm hcompleted
      | entered | stranded =>
        have hidx' : inst.currentPhaseIdx + 1 = inst.currentPhaseIdx := hidx
        omega
  · intro hidle
    cases ht : inst.openTask with
    | none =>
      obtain ⟨r, hr, hout⟩ := reconcilePhases_unasked canopy false files clk ht
      exact ⟨r, hr, by rw [hout], by rw [hout]⟩
    | some taskId =>
      obtain ⟨task, hans, hfail, hcomp⟩ := hidle taskId ht
      obtain ⟨r, hr, hcase⟩ := reconcilePhases_answered false files clk ht hans
      refine ⟨r, hr, ?_⟩
      generalize r.inst = out at hcase
      cases hcase with
      | waiting | blocked => exact ⟨rfl, rfl⟩
      | failed _ _ _ hf => simp [hfail] at hf
      | stopped _ _ _ hc hs => exact absurd (hcomp hc).1 hs
      | finished _ _ _ hc _ _ hf => exact absurd hf (hcomp hc).2.1
      | entered _ _ _ _ _ _ hc _ _ _ ho => exact absurd ho (hcomp hc).2.2
      | stranded _ _ _ hc _ _ _ ho => exact absurd ho (hcomp hc).2.2

/-- `Idle` reads the template, the workflow id and the current phase. -/
theorem idle_congr {a b : WorkflowInstance} (hid : a.workflowId = b.workflowId)
    (htemplate : a.template = b.template) (hidx : a.currentPhaseIdx = b.currentPhaseIdx)
    (hphase : a.currentPhase = b.currentPhase) :
    a.Idle canopy files ↔ b.Idle canopy files := by
  unfold Idle openTask AtFinal GatesOpen currentTemplatePhase
  rw [hid, htemplate, hidx, hphase]

section LateEvidence

variable {phase : PhaseState} {taskId : String} {task : TaskDetail}

/-- A first call with open gates moves to the next phase. -/
theorem reconcile_open (clk : Clock) (ht : inst.openTask = some taskId)
    (hans : canopy.getTask taskId = .ok task) (hc : isCompletedStatus task.status = true)
    (hs : task.stopSignal = none)
    (hf : ¬ inst.AtFinal) (ho : inst.GatesOpen (evidenceGateEvaluator task) files) :
    ∃ r, reconcilePhases inst canopy false files clk = .ok r ∧
      r.inst.workflowId = inst.workflowId ∧ r.inst.template = inst.template ∧
      r.inst.currentPhaseIdx = inst.currentPhaseIdx + 1 ∧
      r.inst.currentPhase = inst.atNext.currentPhase ∧
      r.inst.status = (if inst.atNext.currentPhase = none then inst.status else .dispatched) := by
  obtain ⟨r, hr, hcase⟩ := reconcilePhases_answered false files clk ht hans
  refine ⟨r, hr, ?_⟩
  generalize r.inst = out at hcase
  cases hcase with
  | waiting _ hc' => simp [hc] at hc'
  | failed _ _ _ hf' => simp [not_failed_of_completed hc] at hf'
  | stopped _ _ _ _ hs' => exact absurd hs hs'
  | finished _ _ _ _ _ _ hf' => exact absurd hf' hf
  | blocked _ _ _ _ _ _ _ _ ho' => exact absurd ho ho'
  | entered _ p' next t _ _ _ _ _ _ _ hn =>
    refine ⟨rfl, rfl, rfl, ?_, ?_⟩
    · simp [currentPhase, atNext, withCurrent]
    · simp [currentPhase, atNext, hn]
  | stranded _ p' t _ _ _ _ _ hn =>
    refine ⟨rfl, rfl, rfl, ?_, ?_⟩
    · simp [currentPhase, atNext, withCurrent]
    · simp [currentPhase, atNext, hn, withCurrent]

/-- A first call with shut gates stays, and leaves nothing to fetch. -/
theorem reconcile_shut (clk : Clock) (h : inst.currentPhase = some phase)
    (ht : inst.openTask = some taskId) (hans : canopy.getTask taskId = .ok task)
    (hc : isCompletedStatus task.status = true)
    (hs : task.stopSignal = none) (hf : ¬ inst.AtFinal)
    (ho : ¬ inst.GatesOpen (evidenceGateEvaluator task) files) :
    ∃ r, reconcilePhases inst canopy false files clk = .ok r ∧
      r.inst.currentPhaseIdx = inst.currentPhaseIdx ∧ r.inst.openTask = none := by
  obtain ⟨r, hr, hcase⟩ := reconcilePhases_answered false files clk ht hans
  refine ⟨r, hr, ?_⟩
  generalize r.inst = out at hcase
  cases hcase with
  | waiting _ hc' => simp [hc] at hc'
  | failed _ _ _ hf' => simp [not_failed_of_completed hc] at hf'
  | stopped _ _ _ _ hs' => exact absurd hs hs'
  | finished _ _ _ _ _ _ hf' => exact absurd hf' hf
  | entered _ _ _ _ _ _ _ _ _ _ ho' => exact absurd ho' ho
  | stranded _ _ _ _ _ _ _ ho' => exact absurd ho' ho
  | blocked _ p' t b _ _ hp =>
    have hcur : ({ inst.withCurrent p' t with blockedOn := b } : WorkflowInstance).currentPhase =
        some p' := currentPhase_withCurrent h p' t
    exact ⟨rfl, openTask_of_terminal hcur (by rw [hp]; rfl)⟩

/-- A second call, on an instance that has just entered a phase of `inst`, moves nothing when it is
idle. A template longer than the list of phase states leaves nothing to fetch. -/
theorem reconcile_again_iff {entered : WorkflowInstance} (canopy : CanopyClient) (files : Files)
    (clk : Clock) (hcur : entered.currentPhase = inst.atNext.currentPhase)
    (hst : entered.status =
      if inst.atNext.currentPhase = none then inst.status else .dispatched) :
    (∃ r, reconcilePhases entered canopy false files clk = .ok r ∧
        r.inst.currentPhaseIdx = entered.currentPhaseIdx ∧ r.inst.status = entered.status) ↔
      entered.Idle canopy files := by
  by_cases hn : inst.atNext.currentPhase = none
  · have hnone : entered.openTask = none := by
      unfold openTask
      rw [hcur, hn]
      rfl
    obtain ⟨r, hr, hout⟩ := reconcilePhases_unasked canopy false files clk hnone
    constructor
    · intro _ taskId ht
      cases hnone.symm.trans ht
    · intro _
      exact ⟨r, hr, by rw [hout], by rw [hout]⟩
  · rw [if_neg hn] at hst
    apply idle_iff
    · rw [hst]; decide
    · rw [hst]; decide

/-- **Late evidence.** Reconciling with `a` and then with `b` ends where `b` alone ends exactly when
`a` already opens the gates and the second call finds the next phase idle. -/
theorem late_evidence_iff (inst : WorkflowInstance) (phase : PhaseState) (taskId : String)
    (a b : TaskDetail) (canopyA canopyB : CanopyClient) (filesA filesB files : Files)
    (clkA clkB clk : Clock) (hphase : inst.currentPhase = some phase)
    (htask : phase.canopyTaskId = some taskId)
    (hopen : phase.status = .pending ∨ phase.status = .active ∨
      phase.status = .awaitingUserInput)
    (hfinal : ¬ inst.AtFinal)
    (ha : canopyA.getTask taskId = .ok a) (hb : canopyB.getTask taskId = .ok b)
    (hac : isCompletedStatus a.status = true) (hbc : isCompletedStatus b.status = true)
    (has : a.stopSignal = none) (hbs : b.stopSignal = none)
    (hgates : inst.GatesOpen (evidenceGateEvaluator b) files) :
    (∃ rA rAB rB, reconcilePhases inst canopyA false filesA clkA = .ok rA ∧
        reconcilePhases rA.inst canopyB false filesB clkB = .ok rAB ∧
        reconcilePhases inst canopyB false files clk = .ok rB ∧
        rAB.inst.currentPhaseIdx = rB.inst.currentPhaseIdx ∧
        rAB.inst.status = rB.inst.status) ↔
      inst.GatesOpen (evidenceGateEvaluator a) filesA ∧ inst.atNext.Idle canopyB filesB := by
  have hs : phase.status.isTerminal = false := by
    rcases hopen with h | h | h <;> rw [h] <;> rfl
  have ht := openTask_of_open hphase htask hs
  obtain ⟨rB, hrB, -, -, hidxB, -, hstB⟩ :=
    reconcile_open clk ht hb hbc hbs hfinal hgates
  by_cases ho : inst.GatesOpen (evidenceGateEvaluator a) filesA
  · obtain ⟨rA, hrA, hid, htemplate, hidxA, hcurA, hstA⟩ :=
      reconcile_open clkA ht ha hac has hfinal ho
    have hidle : rA.inst.Idle canopyB filesB ↔ inst.atNext.Idle canopyB filesB :=
      idle_congr hid htemplate hidxA hcurA
    have hsecond := reconcile_again_iff canopyB filesB clkB hcurA hstA
    constructor
    · rintro ⟨rA', rAB, rB', hrA', hrAB, hrB', hidx, hst⟩
      cases hrA.symm.trans hrA'
      cases hrB.symm.trans hrB'
      refine ⟨ho, hidle.mp (hsecond.mp ⟨rAB, hrAB, ?_, ?_⟩)⟩
      · rw [hidx, hidxB, hidxA]
      · rw [hst, hstB, hstA]
    · rintro ⟨-, h⟩
      obtain ⟨rAB, hrAB, hidx, hst⟩ := hsecond.mpr (hidle.mpr h)
      refine ⟨rA, rAB, rB, hrA, hrAB, hrB, ?_, ?_⟩
      · rw [hidx, hidxB, hidxA]
      · rw [hst, hstB, hstA]
  · obtain ⟨rA, hrA, hidxA, hopenA⟩ :=
      reconcile_shut clkA hphase ht ha hac has hfinal ho
    obtain ⟨r, hr, hout⟩ := reconcilePhases_unasked canopyB false filesB clkB hopenA
    simp only [ho, false_and, iff_false]
    rintro ⟨rA', rAB, rB', hrA', hrAB, hrB', hidx, -⟩
    cases hrA.symm.trans hrA'
    cases hr.symm.trans hrAB
    cases hrB.symm.trans hrB'
    rw [hout, hidxA, hidxB] at hidx
    omega

end LateEvidence

/-- The built-in workflow at its implement phase, dispatched as task `"t"`. -/
def implementDispatched : WorkflowInstance :=
  { new "wf" implAuditDefault "handoff.md" 0 with
    status := .dispatched
    phaseStates := [
      { PhaseState.new "implement" .worker with canopyTaskId := some "t" },
      PhaseState.new "audit" .outputVerifier] }

/-- A completed task without any evidence. -/
def completedBare : TaskDetail :=
  { completedTask with hasCodeDiff := false, hasVerificationPassed := false }

/-- The evidence arrives after the task was first seen completed: the second call finds the phase
already terminal and the workflow stays at its first phase. -/
theorem late_evidence_lost :
    implementDispatched.openTask = some "t" ∧ ¬ implementDispatched.AtFinal ∧ ∃ rA rAB rB,
      reconcilePhases implementDispatched ⟨fun _ => .ok completedBare⟩ false (fun _ => true)
        Int.ofNat = .ok rA ∧
      reconcilePhases rA.inst ⟨fun _ => .ok completedTask⟩ false (fun _ => true) Int.ofNat =
        .ok rAB ∧
      reconcilePhases implementDispatched ⟨fun _ => .ok completedTask⟩ false (fun _ => true)
        Int.ofNat = .ok rB ∧
      implementDispatched.GatesOpen (evidenceGateEvaluator completedTask) (fun _ => true) ∧
      rAB.inst.currentPhaseIdx = 0 ∧ rB.inst.currentPhaseIdx = 1 :=
  ⟨rfl, by decide, _, _, _, rfl, rfl, rfl, by decide, rfl, rfl⟩

theorem late_evidence_implement :
    (∃ rA rAB rB,
      reconcilePhases implementDispatched ⟨fun _ => .ok completedTask⟩ false (fun _ => true)
        Int.ofNat = .ok rA ∧
      reconcilePhases rA.inst ⟨fun _ => .ok completedTask⟩ false (fun _ => true) Int.ofNat =
        .ok rAB ∧
      reconcilePhases implementDispatched ⟨fun _ => .ok completedTask⟩ false (fun _ => true)
        Int.ofNat = .ok rB ∧
      rAB.inst.currentPhaseIdx = rB.inst.currentPhaseIdx ∧ rAB.inst.status = rB.inst.status) ↔
    implementDispatched.GatesOpen (evidenceGateEvaluator completedTask) (fun _ => true) ∧
      implementDispatched.atNext.Idle ⟨fun _ => .ok completedTask⟩ (fun _ => true) :=
  late_evidence_iff implementDispatched _ "t" completedTask completedTask _ _ _ _ _ _ _ _ rfl rfl
    (.inl rfl) (by decide) rfl rfl (by decide) (by decide) rfl rfl (by decide)

end Hymenium
