import Hymenium.Foundations.Runs
import Hymenium.Workflow.Engine

/-!
# What one engine operation does

`Op` lists the public operations of a workflow instance with everything they read from outside:
clock readings, gate evaluator, file-existence answers. `Effect` says, once, what an operation can
do to an instance, and `applyOp_effect` that it does nothing else; the invariants of runs are read
off `Effect`, never off the operations.

`advance` is described exactly: `advance_final`, `advance_open` and `advance_shut` cover a completed
current phase, by the final-phase test and by `GatesOpen`.
-/

namespace Hymenium

/-- An operation of the engine, with the outside data of the call. -/
inductive Op where
  | startPhase (files : Files) (clk : Clock)
  | completePhase (clk : Clock)
  | reconcileComplete (clk : Clock)
  | reconcileFail (reason : String) (clk : Clock)
  | failPhase (reason : String) (clk : Clock)
  | incrementRetryCount (clk : Clock)
  | recordToolFailure (ceiling : UInt32) (clk : Clock)
  | recordRequest (ceiling : UInt32) (clk : Clock)
  | advance (evaluator : GateEvaluator) (files : Files) (clk : Clock)
  | completeWorkflow (clk : Clock)
  | handoffToUserPhase (message : String) (breakout : Bool) (clk : Clock)
  | resumeFromUserInput (clk : Clock)

/-- The instance an operation leaves behind, whatever it returned. -/
def applyOp (inst : WorkflowInstance) : Op → WorkflowInstance
  | .startPhase files clk => (inst.startPhase files clk).2
  | .completePhase clk => (inst.completePhase clk).2
  | .reconcileComplete clk => (inst.reconcileCompleteCurrentPhase clk).2
  | .reconcileFail reason clk => (inst.reconcileFailCurrentPhase reason clk).2
  | .failPhase reason clk => (inst.failPhase reason clk).2
  | .incrementRetryCount clk => (inst.incrementRetryCount clk).2
  | .recordToolFailure ceiling clk => (inst.recordToolFailure ceiling clk).2
  | .recordRequest ceiling clk => (inst.recordRequest ceiling clk).2
  | .advance evaluator files clk => (inst.advance evaluator files clk).2
  | .completeWorkflow clk => (inst.completeWorkflow clk).2
  | .handoffToUserPhase message breakout clk => (inst.handoffToUserPhase message breakout clk).2
  | .resumeFromUserInput clk => (inst.resumeFromUserInput clk).2

/-- The instance a sequence of operations reaches. -/
abbrev runOps (inst : WorkflowInstance) (ops : List Op) : WorkflowInstance :=
  Runs.run applyOp inst ops

theorem runOps_append (inst : WorkflowInstance) (ops more : List Op) :
    runOps inst (ops ++ more) = runOps (runOps inst ops) more :=
  Runs.run_append ..

namespace WorkflowInstance

variable {inst : WorkflowInstance}

/-! ## Edits of the current phase -/

theorem modifyCurrent_eq {p : PhaseState} (f : PhaseState → PhaseState)
    (h : inst.currentPhase = some p) :
    inst.modifyCurrent f =
      { inst with phaseStates := inst.phaseStates.set inst.currentPhaseIdx (f p) } := by
  unfold currentPhase at h
  unfold modifyCurrent
  congr 1
  apply List.ext_getElem?
  intro i
  simp only [List.getElem?_modify, List.getElem?_set]
  by_cases hi : inst.currentPhaseIdx = i
  · subst hi
    obtain ⟨hlt, rfl⟩ := List.getElem?_eq_some_iff.mp h
    simp [hlt]
  · simp [hi]

/-- A write through `current_phase_mut` that keeps a part of the phase keeps it in every phase. -/
theorem map_modifyCurrent {α : Type} {f : PhaseState → PhaseState} {g : PhaseState → α}
    (h : ∀ p, g (f p) = g p) :
    (inst.modifyCurrent f).phaseStates.map g = inst.phaseStates.map g := by
  apply List.ext_getElem?
  intro i
  unfold modifyCurrent
  rw [List.getElem?_map, List.getElem?_map, List.getElem?_modify]
  split_ifs
  · cases inst.phaseStates[i]? <;> simp [h]
  · simp

/-- The edits an operation makes to the current phase `p` under workflow status `ws`: the phase
after it, and the workflow status after it. -/
inductive Edit (p : PhaseState) (ws : WorkflowStatus) : PhaseState → WorkflowStatus → Prop
  | start (t : DateTime) (h : p.status = .pending) : Edit p ws (p.markActive t) .inProgress
  | complete (t : DateTime) (h : p.status = .active ∨ p.status = .awaitingUserInput) :
      Edit p ws (p.markCompleted t) ws
  | completePending (t₁ t₂ : DateTime) (h : p.status = .pending) :
      Edit p ws ((p.markActive t₁).markCompleted t₂) ws
  | fail (reason : String) (t : DateTime)
      (h : p.status = .active ∨ p.status = .awaitingUserInput) :
      Edit p ws (({ p with failureReason := some reason }).markFailed t) .failed
  | failPending (reason : String) (t₁ t₂ : DateTime) (h : p.status = .pending) :
      Edit p ws (({ p.markActive t₁ with failureReason := some reason }).markFailed t₂) .failed
  | retry (h : p.status = .active) :
      Edit p ws { p with retryCount := saturatingSucc p.retryCount } ws
  | count (counter : CeilingCounter) (h : p.status = .active)
      (hc : counter = toolFailureCounter ∨ counter = requestCounter) :
      Edit p ws (counter.set p (saturatingSucc (counter.get p))) ws
  | exceed (counter : CeilingCounter) (reason : String) (t : DateTime) (h : p.status = .active)
      (hc : counter = toolFailureCounter ∨ counter = requestCounter) :
      Edit p ws (({ counter.set p (saturatingSucc (counter.get p)) with
        failureReason := some reason }).markFailed t) .failed
  | pause (message : String) (h : p.status = .active) :
      Edit p ws { p with pendingMessage := some message, status := .awaitingUserInput }
        .awaitingUserInput
  | terminate (message : String) (t : DateTime) (h : p.status = .active) :
      Edit p ws (({ p with failureReason := some message }).markFailed t) .userTerminated
  | resume (h : p.status = .awaitingUserInput) (hw : ws = .awaitingUserInput) :
      Edit p ws { p with pendingMessage := none, status := .active } .inProgress

theorem Edit.phaseId_eq {p p' : PhaseState} {ws ws' : WorkflowStatus} (h : Edit p ws p' ws') :
    p'.phaseId = p.phaseId := by
  cases h with
  | count counter _ hc => rcases hc with rfl | rfl <;> rfl
  | exceed counter _ _ _ hc => rcases hc with rfl | rfl <;> rfl
  | _ => rfl

theorem Edit.role_eq {p p' : PhaseState} {ws ws' : WorkflowStatus} (h : Edit p ws p' ws') :
    p'.role = p.role := by
  cases h with
  | count counter _ hc => rcases hc with rfl | rfl <;> rfl
  | exceed counter _ _ _ hc => rcases hc with rfl | rfl <;> rfl
  | _ => rfl

/-! ## Gates between two phases -/

/-- The gates between the current phase and the next one are open: the evaluator passes the exit
gate of the current phase and the entry gate of the next, whose required artifacts exist. -/
def GatesOpen (inst : WorkflowInstance) (evaluator : GateEvaluator) (files : Files) : Prop :=
  ∃ current p next, inst.currentPhase = some current ∧ inst.currentTemplatePhase = some p ∧
    inst.template.phases[inst.currentPhaseIdx + 1]? = some next ∧
    evaluator.Passes p.exitGate ⟨inst.workflowId, current.phaseId⟩ ∧
    next.ArtifactsExist files ∧
    evaluator.Passes next.entryGate ⟨inst.workflowId, next.phaseId⟩

instance {evaluator : GateEvaluator} {files : Files} :
    Decidable (inst.GatesOpen evaluator files) :=
  match hc : inst.currentPhase, hp : inst.currentTemplatePhase,
      hn : inst.template.phases[inst.currentPhaseIdx + 1]? with
  | none, _, _ => isFalse fun ⟨_, _, _, h, _⟩ => by simp [hc] at h
  | some _, none, _ => isFalse fun ⟨_, _, _, _, h, _⟩ => by simp [hp] at h
  | some _, some _, none => isFalse fun ⟨_, _, _, _, _, h, _⟩ => by simp [hn] at h
  | some current, some p, some next =>
    decidable_of_iff
      (evaluator.Passes p.exitGate ⟨inst.workflowId, current.phaseId⟩ ∧
        next.ArtifactsExist files ∧
        evaluator.Passes next.entryGate ⟨inst.workflowId, next.phaseId⟩)
      ⟨fun h => ⟨current, p, next, hc, hp, hn, h⟩, by
        rintro ⟨current', p', next', hc', hp', hn', h⟩
        cases hc.symm.trans hc'
        cases hp.symm.trans hp'
        cases hn.symm.trans hn'
        exact h⟩

/-- The index is at the last phase of the template, or past it. -/
def AtFinal (inst : WorkflowInstance) : Prop :=
  inst.template.phases.length - 1 ≤ inst.currentPhaseIdx

instance : Decidable inst.AtFinal := inferInstanceAs (Decidable (_ ≤ _))

theorem canAdvance_true_iff {current : PhaseState} {p : Phase} {evaluator : GateEvaluator}
    (hc : inst.currentPhase = some current) (hp : inst.currentTemplatePhase = some p) :
    inst.canAdvance evaluator = .ok true ↔
      evaluator.Passes p.exitGate ⟨inst.workflowId, current.phaseId⟩ := by
  rw [← GateEvaluator.evaluateAll_passed_iff]
  unfold canAdvance
  simp only [hc, hp]
  cases evaluator.evaluateAll (p.exitGate.requires.map parseGateCondition)
    ⟨inst.workflowId, current.phaseId⟩ <;> simp

theorem checkEntryGate_ok_iff {evaluator : GateEvaluator} {next : Phase} :
    inst.checkEntryGate evaluator next = .ok () ↔
      evaluator.Passes next.entryGate ⟨inst.workflowId, next.phaseId⟩ := by
  rw [← GateEvaluator.evaluateAll_passed_iff]
  unfold checkEntryGate
  by_cases hn : next.entryGate.requires = []
  · simp [hn, GateEvaluator.evaluateAll, GateEvaluator.evaluateEach, GateEvaluation.passed, bind,
      Except.bind, pure, Except.pure]
  · rw [if_neg hn]
    cases evaluator.evaluateAll (next.entryGate.requires.map parseGateCondition)
      ⟨inst.workflowId, next.phaseId⟩ with
    | error e => simp
    | ok r => cases hr : r.passed <;> simp [hr]

/-- Only the test of `advance` itself answers that the phase is final. -/
theorem canAdvance_ne_final {evaluator : GateEvaluator} :
    inst.canAdvance evaluator ≠ .error .alreadyAtFinalPhase := by
  intro h
  unfold canAdvance at h
  split at h
  · cases h
  · split at h
    · cases h
    · split at h <;> cases h

theorem checkEntryGate_ne_final {evaluator : GateEvaluator} {next : Phase} :
    inst.checkEntryGate evaluator next ≠ .error .alreadyAtFinalPhase := by
  intro h
  unfold checkEntryGate at h
  split_ifs at h
  split at h
  · cases h
  · split_ifs at h
    cases h

/-! ## `advance` -/

section Advance

variable {current : PhaseState} {evaluator : GateEvaluator} {files : Files} {clk : Clock}

theorem advance_none (h : inst.currentPhase = none) :
    inst.advance evaluator files clk = (.error noCurrentPhase, inst) := by
  unfold advance; rw [h]

theorem advance_not_completed (evaluator : GateEvaluator) (files : Files) (clk : Clock)
    (h : inst.currentPhase = some current) (hs : current.status ≠ .completed) :
    ∃ msg, inst.advance evaluator files clk = (.error (.stateError msg), inst) := by
  unfold advance
  simp only [h, if_pos hs]
  exact ⟨_, rfl⟩

/-- At the final phase `advance` stops before any gate is evaluated. -/
theorem advance_final (h : inst.currentPhase = some current) (hs : current.status = .completed)
    (hf : inst.AtFinal) :
    inst.advance evaluator files clk = (.error .alreadyAtFinalPhase, inst) := by
  unfold AtFinal at hf
  unfold advance
  simp only [h]
  rw [if_neg (by simp [hs]), if_pos hf]

/-- Before the final phase, open gates let `advance` through to `enterPhase`. -/
theorem advance_open (h : inst.currentPhase = some current) (hs : current.status = .completed)
    (hf : ¬ inst.AtFinal) (ho : inst.GatesOpen evaluator files) :
    inst.advance evaluator files clk =
      inst.enterPhase current.phaseId (inst.currentPhaseIdx + 1) clk := by
  obtain ⟨current', p, next, hc, hp, hn, hexit, hart, hentry⟩ := ho
  obtain rfl : current' = current := by rw [h] at hc; exact (Option.some.inj hc).symm
  obtain ⟨warnings, hw⟩ := (checkArtifactPrerequisites_ok_iff next files).mpr hart
  unfold AtFinal at hf
  unfold advance
  simp only [h]
  rw [if_neg (by simp [hs]), if_neg hf, (canAdvance_true_iff h hp).mpr hexit]
  simp only [hn, hw, checkEntryGate_ok_iff.mpr hentry]

/-- Before the final phase, shut gates make `advance` fail with the index where it was. -/
theorem advance_shut (clk : Clock) (h : inst.currentPhase = some current)
    (hs : current.status = .completed) (hf : ¬ inst.AtFinal)
    (ho : ¬ inst.GatesOpen evaluator files) :
    ∃ e b, e ≠ .alreadyAtFinalPhase ∧
      inst.advance evaluator files clk = (.error e, { inst with blockedOn := b }) := by
  unfold AtFinal at hf
  have hp : inst.currentTemplatePhase = some inst.template.phases[inst.currentPhaseIdx] :=
    List.getElem?_eq_getElem (by omega)
  have hn : inst.template.phases[inst.currentPhaseIdx + 1]? =
      some inst.template.phases[inst.currentPhaseIdx + 1] :=
    List.getElem?_eq_getElem (by omega)
  unfold advance
  simp only [h]
  rw [if_neg (by simp [hs]), if_neg hf]
  cases hcan : inst.canAdvance evaluator with
  | error e =>
    refine ⟨e, inst.blockedOn, ?_, rfl⟩
    rintro rfl
    exact canAdvance_ne_final hcan
  | ok b =>
    cases b with
    | false => exact ⟨_, inst.blockedOn, by simp, rfl⟩
    | true =>
      simp only [hn]
      cases hart : checkArtifactPrerequisites inst.template.phases[inst.currentPhaseIdx + 1]
          none files with
      | error errors => exact ⟨_, _, by simp, rfl⟩
      | ok warnings =>
        cases hentry : inst.checkEntryGate evaluator
            inst.template.phases[inst.currentPhaseIdx + 1] with
        | error e =>
          refine ⟨e, inst.blockedOn, ?_, rfl⟩
          rintro rfl
          exact checkEntryGate_ne_final hentry
        | ok u =>
          exact absurd ⟨current, _, _, h, hp, hn, (canAdvance_true_iff h hp).mp hcan,
            (checkArtifactPrerequisites_ok_iff _ _).mp ⟨_, hart⟩,
            checkEntryGate_ok_iff.mp hentry⟩ ho

theorem phaseStates_enterPhase (fromPhaseId : String) (nextIdx : ℕ) (clk : Clock) :
    (inst.enterPhase fromPhaseId nextIdx clk).2.phaseStates = inst.phaseStates := by
  unfold enterPhase
  dsimp only
  split <;> rfl

/-- An advance writes no phase state. -/
theorem phaseStates_advance (evaluator : GateEvaluator) (files : Files) (clk : Clock) :
    (inst.advance evaluator files clk).2.phaseStates = inst.phaseStates := by
  cases hp : inst.currentPhase with
  | none => rw [advance_none hp]
  | some p =>
    by_cases hs : p.status = .completed
    · by_cases hf : inst.AtFinal
      · rw [advance_final hp hs hf]
      · by_cases ho : inst.GatesOpen evaluator files
        · rw [advance_open hp hs hf ho]
          exact phaseStates_enterPhase _ _ _
        · obtain ⟨e, b, -, h⟩ := advance_shut clk hp hs hf ho
          rw [h]
    · obtain ⟨msg, h⟩ := advance_not_completed evaluator files clk hp hs
      rw [h]

end Advance

/-! ## The effect of any operation -/

/-- Everything the operation `op` can do to `inst`. -/
inductive Effect (inst : WorkflowInstance) : Op → WorkflowInstance → Prop
  /-- Refused, possibly with the missing artifacts written down. -/
  | refused (op : Op) (b : Option String) : Effect inst op { inst with blockedOn := b }
  | touched (op : Op) (t : DateTime) : Effect inst op { inst with updatedAt := t }
  | refailed (op : Op) (p : PhaseState) (t : DateTime) (hp : inst.currentPhase = some p)
      (hs : p.status = .failed) : Effect inst op { inst with status := .failed, updatedAt := t }
  | finished (op : Op) (p : PhaseState) (t : DateTime) (hp : inst.currentPhase = some p)
      (hs : p.status = .completed)
      (hf : inst.currentPhaseIdx = inst.template.phases.length - 1) :
      Effect inst op { inst with status := .completed, updatedAt := t }
  | edited (op : Op) (p p' : PhaseState) (ws' : WorkflowStatus) (t : DateTime)
      (hp : inst.currentPhase = some p) (he : Edit p inst.status p' ws') :
      Effect inst op { inst with
        phaseStates := inst.phaseStates.set inst.currentPhaseIdx p'
        status := ws'
        updatedAt := t }
  | entered (evaluator : GateEvaluator) (files : Files) (clk : Clock) (p : PhaseState)
      (hp : inst.currentPhase = some p) (hs : p.status = .completed) (hf : ¬ inst.AtFinal)
      (ho : inst.GatesOpen evaluator files) :
      Effect inst (.advance evaluator files clk)
        (inst.enterPhase p.phaseId (inst.currentPhaseIdx + 1) clk).2

/-- An edit written through `current_phase_mut` is an `edited` effect. -/
theorem Effect.edit {op : Op} {p : PhaseState} {f : PhaseState → PhaseState}
    {ws' : WorkflowStatus} (t : DateTime) (hp : inst.currentPhase = some p)
    (he : Edit p inst.status (f p) ws') :
    Effect inst op { inst.modifyCurrent f with status := ws', updatedAt := t } := by
  rw [modifyCurrent_eq f hp]
  exact Effect.edited op p (f p) ws' t hp he

theorem recordAgainst_effect (op : Op) (counter : CeilingCounter)
    (hc : counter = toolFailureCounter ∨ counter = requestCounter) (ceiling : UInt32)
    (clk : Clock) : Effect inst op (inst.recordAgainst counter ceiling clk).2 := by
  unfold recordAgainst
  cases hp : inst.currentPhase with
  | none => exact .refused op inst.blockedOn
  | some p =>
    by_cases hs : p.status = .active
    · simp only [hs, ne_eq, not_true_eq_false, if_false]
      split_ifs with hn
      · exact Effect.edit _ hp (.exceed counter _ _ hs hc)
      · exact Effect.edit _ hp (.count counter hs hc)
    · simp only [ne_eq, hs, not_false_eq_true, if_true]
      exact .refused op inst.blockedOn

theorem advance_effect (evaluator : GateEvaluator) (files : Files) (clk : Clock) :
    Effect inst (.advance evaluator files clk) (inst.advance evaluator files clk).2 := by
  cases hp : inst.currentPhase with
  | none => rw [advance_none hp]; exact .refused _ inst.blockedOn
  | some p =>
    by_cases hs : p.status = .completed
    · by_cases hf : inst.AtFinal
      · rw [advance_final hp hs hf]; exact .refused _ inst.blockedOn
      · by_cases ho : inst.GatesOpen evaluator files
        · rw [advance_open hp hs hf ho]
          exact .entered evaluator files clk p hp hs hf ho
        · obtain ⟨e, b, -, h⟩ := advance_shut clk hp hs hf ho
          rw [h]; exact .refused _ b
    · obtain ⟨msg, h⟩ := advance_not_completed evaluator files clk hp hs
      rw [h]; exact .refused _ inst.blockedOn

theorem startPhase_effect (files : Files) (clk : Clock) :
    Effect inst (.startPhase files clk) (inst.startPhase files clk).2 := by
  unfold startPhase
  cases hp : inst.currentPhase with
  | none => exact .refused _ inst.blockedOn
  | some p =>
    dsimp only
    split_ifs with hs
    · exact .refused _ inst.blockedOn
    · split
      · exact .refused _ inst.blockedOn
      · split
        · exact .refused _ _
        · exact Effect.edit _ hp (.start _ (not_not.mp hs))

theorem completePhase_effect (clk : Clock) :
    Effect inst (.completePhase clk) (inst.completePhase clk).2 := by
  unfold completePhase
  cases hp : inst.currentPhase with
  | none => exact .refused _ inst.blockedOn
  | some p =>
    dsimp only
    split_ifs with hs
    · exact .refused _ inst.blockedOn
    · exact Effect.edit _ hp (.complete _ (.inl (not_not.mp hs)))

/-- A completed phase is completed again without a trace but the time. -/
theorem reconcileComplete_effect (clk : Clock) :
    Effect inst (.reconcileComplete clk) (inst.reconcileCompleteCurrentPhase clk).2 := by
  unfold reconcileCompleteCurrentPhase
  cases hp : inst.currentPhase with
  | none => exact .refused _ inst.blockedOn
  | some p =>
    dsimp only
    cases hs : p.status with
    | pending => exact Effect.edit _ hp (.completePending _ _ hs)
    | active => exact Effect.edit _ hp (.complete _ (.inl hs))
    | awaitingUserInput => exact Effect.edit _ hp (.complete _ (.inr hs))
    | completed => exact .touched _ _
    | failed => exact .refused _ inst.blockedOn
    | skipped => exact .refused _ inst.blockedOn

/-- A failed phase stays as it is, and the workflow status becomes failed. -/
theorem reconcileFail_effect (reason : String) (clk : Clock) :
    Effect inst (.reconcileFail reason clk) (inst.reconcileFailCurrentPhase reason clk).2 := by
  unfold reconcileFailCurrentPhase
  cases hp : inst.currentPhase with
  | none => exact .refused _ inst.blockedOn
  | some p =>
    dsimp only
    cases hs : p.status with
    | pending => exact Effect.edit _ hp (.failPending reason _ _ hs)
    | active => exact Effect.edit _ hp (.fail reason _ (.inl hs))
    | awaitingUserInput => exact Effect.edit _ hp (.fail reason _ (.inr hs))
    | completed => exact .refused _ inst.blockedOn
    | failed => exact .refailed _ p _ hp hs
    | skipped => exact .refused _ inst.blockedOn

theorem failPhase_effect (reason : String) (clk : Clock) :
    Effect inst (.failPhase reason clk) (inst.failPhase reason clk).2 := by
  unfold failPhase
  cases hp : inst.currentPhase with
  | none => exact .refused _ inst.blockedOn
  | some p =>
    dsimp only
    split_ifs with hs
    · exact .refused _ inst.blockedOn
    · exact Effect.edit _ hp (.fail reason _ (.inl (not_not.mp hs)))

theorem incrementRetryCount_effect (clk : Clock) :
    Effect inst (.incrementRetryCount clk) (inst.incrementRetryCount clk).2 := by
  unfold incrementRetryCount
  cases hp : inst.currentPhase with
  | none => exact .refused _ inst.blockedOn
  | some p =>
    dsimp only
    split_ifs with hs
    · exact .refused _ inst.blockedOn
    · exact Effect.edit _ hp (.retry (not_not.mp hs))

theorem completeWorkflow_effect (clk : Clock) :
    Effect inst (.completeWorkflow clk) (inst.completeWorkflow clk).2 := by
  unfold completeWorkflow
  cases hp : inst.currentPhase with
  | none => exact .refused _ inst.blockedOn
  | some p =>
    dsimp only
    split_ifs with hs hf
    · exact .refused _ inst.blockedOn
    · exact .refused _ inst.blockedOn
    · exact .finished _ p _ hp (not_not.mp hs) (not_not.mp hf)

theorem handoffToUserPhase_effect (message : String) (breakout : Bool) (clk : Clock) :
    Effect inst (.handoffToUserPhase message breakout clk)
      (inst.handoffToUserPhase message breakout clk).2 := by
  unfold handoffToUserPhase
  cases hp : inst.currentPhase with
  | none => exact .refused _ inst.blockedOn
  | some p =>
    dsimp only
    split_ifs with hs hb
    · exact .refused _ inst.blockedOn
    · exact Effect.edit _ hp (.terminate message _ (not_not.mp hs))
    · exact Effect.edit _ hp (.pause message (not_not.mp hs))

theorem resumeFromUserInput_effect (clk : Clock) :
    Effect inst (.resumeFromUserInput clk) (inst.resumeFromUserInput clk).2 := by
  unfold resumeFromUserInput
  by_cases hw : inst.status = .awaitingUserInput
  · rw [if_neg (not_not.mpr hw)]
    cases hp : inst.currentPhase with
    | none => exact .refused _ inst.blockedOn
    | some p =>
      dsimp only
      split_ifs with hs
      · exact .refused _ inst.blockedOn
      · exact Effect.edit _ hp (.resume (not_not.mp hs) hw)
  · rw [if_pos hw]
    exact .refused _ inst.blockedOn

/-- **Step lemma.** An operation has one of the listed effects. -/
theorem applyOp_effect (inst : WorkflowInstance) (op : Op) :
    Effect inst op (applyOp inst op) := by
  cases op with
  | startPhase files clk => exact startPhase_effect files clk
  | completePhase clk => exact completePhase_effect clk
  | reconcileComplete clk => exact reconcileComplete_effect clk
  | reconcileFail reason clk => exact reconcileFail_effect reason clk
  | failPhase reason clk => exact failPhase_effect reason clk
  | incrementRetryCount clk => exact incrementRetryCount_effect clk
  | recordToolFailure ceiling clk => exact recordAgainst_effect _ _ (.inl rfl) ceiling clk
  | recordRequest ceiling clk => exact recordAgainst_effect _ _ (.inr rfl) ceiling clk
  | advance evaluator files clk => exact advance_effect evaluator files clk
  | completeWorkflow clk => exact completeWorkflow_effect clk
  | handoffToUserPhase message breakout clk =>
    exact handoffToUserPhase_effect message breakout clk
  | resumeFromUserInput clk => exact resumeFromUserInput_effect clk

/-! ## What no operation writes -/

/-- The fields no operation writes, and the ids of the phases. -/
structure SameFrame (a b : WorkflowInstance) : Prop where
  workflowId : b.workflowId = a.workflowId
  template : b.template = a.template
  handoffPath : b.handoffPath = a.handoffPath
  createdAt : b.createdAt = a.createdAt
  phaseIds : b.phaseStates.map (·.phaseId) = a.phaseStates.map (·.phaseId)

/-- A phase state that keeps its id, put in place of the old one. -/
theorem map_phaseId_set {l : List PhaseState} {i : ℕ} {p p' : PhaseState} (h : l[i]? = some p)
    (hid : p'.phaseId = p.phaseId) : (l.set i p').map (·.phaseId) = l.map (·.phaseId) := by
  obtain ⟨hlt, hget⟩ := List.getElem?_eq_some_iff.mp h
  rw [List.map_set, hid, ← hget]
  apply List.ext_getElem?
  intro j
  rw [List.getElem?_set]
  split_ifs with hj hlen
  · subst hj
    rw [List.getElem?_map, List.getElem?_eq_getElem hlt]
    rfl
  · exact absurd (by simpa using hlt) hlen
  · rfl

theorem Effect.sameFrame {op : Op} {out : WorkflowInstance} (h : Effect inst op out) :
    SameFrame inst out := by
  cases h with
  | refused | touched | refailed | finished => exact ⟨rfl, rfl, rfl, rfl, rfl⟩
  | edited op p p' ws' t hp he => exact ⟨rfl, rfl, rfl, rfl, map_phaseId_set hp he.phaseId_eq⟩
  | entered =>
    unfold enterPhase
    dsimp only
    split <;> exact ⟨rfl, rfl, rfl, rfl, rfl⟩

end WorkflowInstance

end Hymenium
