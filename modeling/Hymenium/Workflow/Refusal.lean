import Hymenium.Workflow.Shape

/-!
# Refused operations

An operation that returns an error leaves a reached instance as it was, but for one note:
`startPhase` and `advance` write missing artifacts down in `blockedOn` (`Refused`). A success takes
the note back nowhere, and no operation writes the workflow status that goes with it.
-/

namespace Hymenium

/-- The error of a result, if it is one. -/
def errorOf {ε α : Type} : Except ε α → Option ε
  | .error e => some e
  | .ok _ => none

/-- The error an operation returns, `none` when it succeeds. -/
def refusal (inst : WorkflowInstance) : Op → Option WorkflowError
  | .startPhase files clk => errorOf (inst.startPhase files clk).1
  | .completePhase clk => errorOf (inst.completePhase clk).1
  | .reconcileComplete clk => errorOf (inst.reconcileCompleteCurrentPhase clk).1
  | .reconcileFail reason clk => errorOf (inst.reconcileFailCurrentPhase reason clk).1
  | .failPhase reason clk => errorOf (inst.failPhase reason clk).1
  | .incrementRetryCount clk => errorOf (inst.incrementRetryCount clk).1
  | .recordToolFailure ceiling clk => errorOf (inst.recordToolFailure ceiling clk).1
  | .recordRequest ceiling clk => errorOf (inst.recordRequest ceiling clk).1
  | .advance evaluator files clk => errorOf (inst.advance evaluator files clk).1
  | .completeWorkflow clk => errorOf (inst.completeWorkflow clk).1
  | .handoffToUserPhase message breakout clk =>
    errorOf (inst.handoffToUserPhase message breakout clk).1
  | .resumeFromUserInput clk => errorOf (inst.resumeFromUserInput clk).1

namespace WorkflowInstance

/-- The phase an operation starts or enters, with the file answers it reads. -/
def target (inst : WorkflowInstance) : Op → Option (Phase × Files)
  | .startPhase files _ => inst.currentTemplatePhase.map (·, files)
  | .advance _ files _ => inst.template.phases[inst.currentPhaseIdx + 1]?.map (·, files)
  | _ => none

/-- The error says that required artifacts of the phase being started or entered are missing. -/
def ReportsMissing (inst : WorkflowInstance) (op : Op) (e : WorkflowError) : Prop :=
  ∃ phase files errors, inst.target op = some (phase, files) ∧
    checkArtifactPrerequisites phase none files = .error errors ∧
    e = .gateFailed phase.phaseId s!"artifact prerequisites not met: {joinErrors errors}"

/-- What an operation refused with `e` can leave behind. -/
inductive Refused (inst : WorkflowInstance) (op : Op) (e : WorkflowError) :
    WorkflowInstance → Prop
  | untouched : Refused inst op e inst
  | noted (b : String) (h : inst.ReportsMissing op e) :
      Refused inst op e { inst with blockedOn := some b }

/-- The phase states are those of the template, by id. -/
def Aligned (inst : WorkflowInstance) : Prop :=
  inst.phaseStates.map (·.phaseId) = inst.template.phases.map (·.phaseId)

variable {inst : WorkflowInstance} {op : Op} {e : WorkflowError}

theorem aligned_new (workflowId : WorkflowId) (template : WorkflowTemplate) (handoffPath : String)
    (now : DateTime) : (new workflowId template handoffPath now).Aligned := by
  unfold Aligned new
  rw [List.map_map]
  rfl

theorem Aligned.sameFrame {out : WorkflowInstance} (h : inst.Aligned) (hs : SameFrame inst out) :
    out.Aligned := by
  unfold Aligned
  rw [hs.phaseIds, hs.template]
  exact h

theorem Aligned.reached (h : inst.Aligned) (ops : List Op) : (runOps inst ops).Aligned :=
  Runs.run_invariant (P := Aligned) (fun _ op hs => hs.sameFrame (applyOp_effect _ op).sameFrame)
    h ops

theorem Aligned.length_eq (h : inst.Aligned) :
    inst.phaseStates.length = inst.template.phases.length := by
  have hlen := congrArg List.length h
  rwa [List.length_map, List.length_map] at hlen

/-- The template phase behind the current phase has its id. -/
theorem Aligned.phaseId_eq (h : inst.Aligned) {p : PhaseState} {phase : Phase}
    (hp : inst.currentPhase = some p) (ht : inst.currentTemplatePhase = some phase) :
    phase.phaseId = p.phaseId := by
  have hi := congrArg (·[inst.currentPhaseIdx]?) h
  unfold currentPhase at hp
  unfold currentTemplatePhase at ht
  simp only [List.getElem?_map, hp, ht, Option.map_some, Option.some.injEq] at hi
  exact hi.symm

/-! ## Operations that write after their checks -/

/-- A check that stands before all writes. -/
theorem guarded {α : Type} {c : Prop} [Decidable c] {err : WorkflowError} {a : α}
    {out : WorkflowInstance}
    (h : errorOf (if c then (.error err, inst) else (.ok a, out) :
      Except WorkflowError α × WorkflowInstance).1 = some e) :
    (if c then (.error err, inst) else (.ok a, out) :
      Except WorkflowError α × WorkflowInstance).2 = inst := by
  by_cases hc : c
  · rw [if_pos hc]
  · rw [if_neg hc] at h
    cases h

theorem recordAgainst_refused {counter : CeilingCounter} {ceiling : UInt32} {clk : Clock}
    (h : errorOf (inst.recordAgainst counter ceiling clk).1 = some e) :
    (inst.recordAgainst counter ceiling clk).2 = inst := by
  unfold recordAgainst at h ⊢
  cases hp : inst.currentPhase with
  | none => rfl
  | some p =>
    simp only [hp] at h ⊢
    split_ifs at h ⊢ with hs hn
    · rfl
    · cases h
    · cases h

theorem reconcileComplete_refused {clk : Clock}
    (h : errorOf (inst.reconcileCompleteCurrentPhase clk).1 = some e) :
    (inst.reconcileCompleteCurrentPhase clk).2 = inst := by
  unfold reconcileCompleteCurrentPhase at h ⊢
  cases hp : inst.currentPhase with
  | none => rfl
  | some p =>
    simp only [hp] at h ⊢
    cases hs : p.status with
    | failed | skipped => rfl
    | pending | active | awaitingUserInput | completed =>
      simp only [hs] at h
      cases h

theorem reconcileFail_refused {reason : String} {clk : Clock}
    (h : errorOf (inst.reconcileFailCurrentPhase reason clk).1 = some e) :
    (inst.reconcileFailCurrentPhase reason clk).2 = inst := by
  unfold reconcileFailCurrentPhase at h ⊢
  cases hp : inst.currentPhase with
  | none => rfl
  | some p =>
    simp only [hp] at h ⊢
    cases hs : p.status with
    | completed | skipped => rfl
    | pending | active | awaitingUserInput | failed =>
      simp only [hs] at h
      cases h

theorem completeWorkflow_refused {clk : Clock}
    (h : errorOf (inst.completeWorkflow clk).1 = some e) :
    (inst.completeWorkflow clk).2 = inst := by
  unfold completeWorkflow at h ⊢
  cases hp : inst.currentPhase with
  | none => rfl
  | some p =>
    simp only [hp] at h ⊢
    by_cases hs : p.status ≠ .completed
    · rw [if_pos hs]
    · rw [if_neg hs] at h ⊢
      exact guarded h

theorem handoffToUserPhase_refused {message : String} {breakout : Bool} {clk : Clock}
    (h : errorOf (inst.handoffToUserPhase message breakout clk).1 = some e) :
    (inst.handoffToUserPhase message breakout clk).2 = inst := by
  unfold handoffToUserPhase at h ⊢
  cases hp : inst.currentPhase with
  | none => rfl
  | some p =>
    simp only [hp] at h ⊢
    split_ifs at h ⊢ with hs hb
    · rfl
    · cases h
    · cases h

theorem resumeFromUserInput_refused {clk : Clock}
    (h : errorOf (inst.resumeFromUserInput clk).1 = some e) :
    (inst.resumeFromUserInput clk).2 = inst := by
  unfold resumeFromUserInput at h ⊢
  by_cases hw : inst.status ≠ .awaitingUserInput
  · rw [if_pos hw]
  · rw [if_neg hw] at h ⊢
    cases hp : inst.currentPhase with
    | none => rfl
    | some p =>
      simp only [hp] at h ⊢
      exact guarded h

/-! ## Operations that look for artifacts -/

theorem startPhase_refused (h : inst.Aligned) {files : Files} {clk : Clock}
    (hr : errorOf (inst.startPhase files clk).1 = some e) :
    Refused inst (.startPhase files clk) e (inst.startPhase files clk).2 := by
  unfold startPhase at hr ⊢
  cases hp : inst.currentPhase with
  | none => exact .untouched
  | some p =>
    simp only [hp] at hr ⊢
    by_cases hs : p.status ≠ .pending
    · rw [if_pos hs]
      exact .untouched
    · rw [if_neg hs] at hr ⊢
      cases ht : inst.currentTemplatePhase with
      | none => exact .untouched
      | some phase =>
        simp only [ht] at hr ⊢
        cases hc : checkArtifactPrerequisites phase none files with
        | ok warnings =>
          simp only [hc] at hr
          cases hr
        | error errors =>
          simp only [hc] at hr ⊢
          refine .noted _ ⟨phase, files, errors, ?_, hc, ?_⟩
          · rw [target, ht, Option.map_some]
          · rw [h.phaseId_eq hp ht]
            exact (Option.some.inj hr).symm

/-- A reached instance has a state for the phase that `advance` enters. -/
theorem Aligned.enterPhase_accepted (h : inst.Aligned) {next : Phase}
    (hn : inst.template.phases[inst.currentPhaseIdx + 1]? = some next) (fromPhaseId : String)
    (clk : Clock) :
    errorOf (inst.enterPhase fromPhaseId (inst.currentPhaseIdx + 1) clk).1 = none := by
  have hlt : inst.currentPhaseIdx + 1 < inst.phaseStates.length := by
    rw [h.length_eq]
    exact (List.getElem?_eq_some_iff.mp hn).1
  rw [enterPhase_some (List.getElem?_eq_getElem hlt)]
  rfl

theorem advance_refused (h : inst.Aligned) {evaluator : GateEvaluator} {files : Files}
    {clk : Clock} (hr : errorOf (inst.advance evaluator files clk).1 = some e) :
    Refused inst (.advance evaluator files clk) e (inst.advance evaluator files clk).2 := by
  unfold advance at hr ⊢
  cases hp : inst.currentPhase with
  | none => exact .untouched
  | some p =>
    simp only [hp] at hr ⊢
    by_cases hs : p.status ≠ .completed
    · rw [if_pos hs]
      exact .untouched
    rw [if_neg hs] at hr ⊢
    by_cases hf : inst.template.phases.length - 1 ≤ inst.currentPhaseIdx
    · rw [if_pos hf]
      exact .untouched
    rw [if_neg hf] at hr ⊢
    cases hcan : inst.canAdvance evaluator with
    | error err => exact .untouched
    | ok passed =>
      cases passed with
      | false => exact .untouched
      | true =>
        simp only [hcan] at hr ⊢
        cases hn : inst.template.phases[inst.currentPhaseIdx + 1]? with
        | none => exact .untouched
        | some next =>
          simp only [hn] at hr ⊢
          cases hc : checkArtifactPrerequisites next none files with
          | error errors =>
            simp only [hc] at hr ⊢
            refine .noted _ ⟨next, files, errors, ?_, hc, (Option.some.inj hr).symm⟩
            rw [target, hn, Option.map_some]
          | ok warnings =>
            simp only [hc] at hr ⊢
            cases hentry : inst.checkEntryGate evaluator next with
            | error err => exact .untouched
            | ok u =>
              simp only [hentry] at hr
              rw [h.enterPhase_accepted hn] at hr
              cases hr

/-- **Step lemma.** An operation refused with `e` leaves the instance untouched, or with its missing
artifacts noted. -/
theorem Aligned.refused (h : inst.Aligned) (hr : refusal inst op = some e) :
    Refused inst op e (applyOp inst op) := by
  have huntouched : applyOp inst op = inst → Refused inst op e (applyOp inst op) := by
    intro heq
    rw [heq]
    exact .untouched
  cases op with
  | startPhase files clk => exact startPhase_refused h hr
  | advance evaluator files clk => exact advance_refused h hr
  | reconcileComplete clk => exact huntouched (reconcileComplete_refused hr)
  | reconcileFail reason clk => exact huntouched (reconcileFail_refused hr)
  | recordToolFailure ceiling clk => exact huntouched (recordAgainst_refused hr)
  | recordRequest ceiling clk => exact huntouched (recordAgainst_refused hr)
  | completeWorkflow clk => exact huntouched (completeWorkflow_refused hr)
  | handoffToUserPhase message breakout clk => exact huntouched (handoffToUserPhase_refused hr)
  | resumeFromUserInput clk => exact huntouched (resumeFromUserInput_refused hr)
  | completePhase clk =>
    apply huntouched
    unfold refusal completePhase at hr
    unfold applyOp completePhase
    cases hp : inst.currentPhase with
    | none => rfl
    | some p =>
      simp only [hp] at hr ⊢
      exact guarded hr
  | failPhase reason clk =>
    apply huntouched
    unfold refusal failPhase at hr
    unfold applyOp failPhase
    cases hp : inst.currentPhase with
    | none => rfl
    | some p =>
      simp only [hp] at hr ⊢
      exact guarded hr
  | incrementRetryCount clk =>
    apply huntouched
    unfold refusal incrementRetryCount at hr
    unfold applyOp incrementRetryCount
    cases hp : inst.currentPhase with
    | none => rfl
    | some p =>
      simp only [hp] at hr ⊢
      exact guarded hr

/-- **Atomicity.** An operation on a reached instance that returns an error changes no field but
`blockedOn`, and that one only when the error reports missing artifacts of the phase it starts or
enters. -/
theorem atomic_on_error (workflowId : WorkflowId) (template : WorkflowTemplate)
    (handoffPath : String) (now : DateTime) (ops : List Op) (op : Op) (e : WorkflowError)
    (h : refusal (runOps (new workflowId template handoffPath now) ops) op = some e) :
    let inst := runOps (new workflowId template handoffPath now) ops
    applyOp inst op = { inst with blockedOn := (applyOp inst op).blockedOn } ∧
      ((applyOp inst op).blockedOn ≠ inst.blockedOn → inst.ReportsMissing op e) := by
  intro inst
  have haligned : inst.Aligned := (aligned_new workflowId template handoffPath now).reached ops
  have hrefused := haligned.refused h
  generalize applyOp inst op = out at hrefused ⊢
  cases hrefused with
  | untouched => exact ⟨rfl, fun hne => absurd rfl hne⟩
  | noted b hmissing => exact ⟨rfl, fun _ => hmissing⟩

end WorkflowInstance

/-- The built-in template, with a plan required before each phase. -/
def plannedTemplate : WorkflowTemplate :=
  { implAuditDefault with
    phases := implAuditDefault.phases.map fun phase =>
      { phase with requiredArtifacts := [⟨"plan.md", "the plan", true⟩] } }

namespace WorkflowInstance

/-- A start without the plan. -/
theorem atomic_on_error_planned :
    let op : Op := .startPhase (fun _ => false) Int.ofNat
    let e : WorkflowError := .gateFailed "implement"
      "artifact prerequisites not met: Required artifact missing: plan.md (the plan)"
    let inst := runOps (new "wf" plannedTemplate "handoff.md" 0) []
    refusal inst op = some e ∧
      applyOp inst op = { inst with blockedOn := (applyOp inst op).blockedOn } ∧
      ((applyOp inst op).blockedOn ≠ inst.blockedOn → inst.ReportsMissing op e) := by
  intro op e inst
  have hrefused : refusal inst op = some e := by decide +kernel
  exact ⟨hrefused, atomic_on_error "wf" plannedTemplate "handoff.md" 0 [] op e hrefused⟩

end WorkflowInstance

end Hymenium
