import Hymenium.Dispatch.Frame

/-!
# Completion signals in two runs

Two reconciliations of one instance whose answers differ in the completion signal alone. The runs
take place at different times, so they are compared without their timestamps: `untimed` erases them,
and erasing commutes with every operation a reconciliation calls (`reconcilePhases_untimed`). What is
left of the signal is whether it asks for a stop.
-/

namespace Hymenium

open WorkflowInstance

/-- The clock that stands still. -/
def stopped : Clock := fun _ => 0

/-- The phase state without its timestamps. -/
def PhaseState.untimed (p : PhaseState) : PhaseState :=
  { p with
    startedAt := p.startedAt.map fun _ => 0
    completedAt := p.completedAt.map fun _ => 0 }

/-- The transition without its timestamp. -/
def PhaseTransition.untimed (t : PhaseTransition) : PhaseTransition :=
  { t with transitionedAt := 0 }

/-- The instance without the timestamps its operations write. -/
def WorkflowInstance.untimed (inst : WorkflowInstance) : WorkflowInstance :=
  { inst with
    phaseStates := inst.phaseStates.map PhaseState.untimed
    transitions := inst.transitions.map PhaseTransition.untimed
    updatedAt := 0 }

/-- The result without timestamps. -/
def ReconcileResult.untimed (result : ReconcileResult) : ReconcileResult :=
  { result with inst := result.inst.untimed }

section Untimed

variable {inst : WorkflowInstance} {p : PhaseState} {canopy : CanopyClient}
  {forceAdvance : Bool} {files : Files} {clk : Clock}

/-! ## Operations without their timestamps -/

theorem currentPhase_untimed (inst : WorkflowInstance) :
    inst.untimed.currentPhase = inst.currentPhase.map PhaseState.untimed :=
  List.getElem?_map

theorem openTask_untimed (inst : WorkflowInstance) : inst.untimed.openTask = inst.openTask := by
  unfold openTask
  rw [currentPhase_untimed]
  cases inst.currentPhase <;> rfl

/-- An edit that erases to `g` is `g` on the erased instance. -/
theorem modifyCurrent_untimed {f g : PhaseState → PhaseState}
    (hf : ∀ p, (f p).untimed = g p.untimed) (ws : WorkflowStatus) (t : DateTime) :
    untimed { inst.modifyCurrent f with status := ws, updatedAt := t } =
      { inst.untimed.modifyCurrent g with status := ws, updatedAt := 0 } := by
  unfold untimed modifyCurrent
  congr 1
  apply List.ext_getElem?
  intro i
  simp only [List.getElem?_map, List.getElem?_modify]
  cases inst.phaseStates[i]? with
  | none => rfl
  | some p =>
    by_cases hi : inst.currentPhaseIdx = i
    · simp only [if_pos hi, Option.map_some, Option.map_eq_map, hf]
    · simp only [if_neg hi, Option.map_some, Option.map_eq_map]

theorem reconcileComplete_untimed (inst : WorkflowInstance) (clk : Clock) :
    (inst.reconcileCompleteCurrentPhase clk).map id untimed =
      inst.untimed.reconcileCompleteCurrentPhase stopped := by
  unfold reconcileCompleteCurrentPhase
  rw [currentPhase_untimed]
  cases hp : inst.currentPhase with
  | none => rfl
  | some p =>
    have hstatus : p.untimed.status = p.status := rfl
    simp only [Option.map_some, hstatus]
    cases hs : p.status with
    | pending =>
      refine Prod.ext rfl ?_
      apply modifyCurrent_untimed
      intro p
      rfl
    | active | awaitingUserInput =>
      refine Prod.ext rfl ?_
      apply modifyCurrent_untimed
      intro p
      rfl
    | completed => rfl
    | failed | skipped => rfl

theorem reconcileFail_untimed (inst : WorkflowInstance) (reason : String) (clk : Clock) :
    (inst.reconcileFailCurrentPhase reason clk).map id untimed =
      inst.untimed.reconcileFailCurrentPhase reason stopped := by
  unfold reconcileFailCurrentPhase
  rw [currentPhase_untimed]
  cases hp : inst.currentPhase with
  | none => rfl
  | some p =>
    have hstatus : p.untimed.status = p.status := rfl
    simp only [Option.map_some, hstatus]
    cases hs : p.status with
    | pending =>
      refine Prod.ext rfl ?_
      apply modifyCurrent_untimed
      intro p
      rfl
    | active | awaitingUserInput =>
      refine Prod.ext rfl ?_
      apply modifyCurrent_untimed
      intro p
      rfl
    | failed => rfl
    | completed | skipped => rfl

theorem canAdvance_untimed (inst : WorkflowInstance) (evaluator : GateEvaluator) :
    inst.untimed.canAdvance evaluator = inst.canAdvance evaluator := by
  unfold canAdvance
  rw [currentPhase_untimed]
  cases inst.currentPhase <;> rfl

theorem enterPhase_untimed (inst : WorkflowInstance) (fromPhaseId : String) (nextIdx : ℕ)
    (clk : Clock) :
    (inst.enterPhase fromPhaseId nextIdx clk).map (·.map PhaseTransition.untimed) untimed =
      inst.untimed.enterPhase fromPhaseId nextIdx stopped := by
  have hcur : currentPhase { inst.untimed with currentPhaseIdx := nextIdx } =
      (currentPhase { inst with currentPhaseIdx := nextIdx }).map PhaseState.untimed :=
    List.getElem?_map
  unfold enterPhase
  simp only [hcur]
  cases currentPhase { inst with currentPhaseIdx := nextIdx } with
  | none => rfl
  | some next =>
    refine Prod.ext rfl ?_
    simp only [Option.map_some, Prod.map_snd, untimed, List.map_append, List.map_cons,
      List.map_nil]
    rfl

theorem advance_untimed (inst : WorkflowInstance) (evaluator : GateEvaluator) (files : Files)
    (clk : Clock) :
    (inst.advance evaluator files clk).map (·.map PhaseTransition.untimed) untimed =
      inst.untimed.advance evaluator files stopped := by
  unfold advance
  rw [currentPhase_untimed, canAdvance_untimed]
  cases inst.currentPhase with
  | none => rfl
  | some p =>
    have hstatus : p.untimed.status = p.status := rfl
    have hlength : inst.untimed.template.phases.length = inst.template.phases.length := rfl
    have hidx : inst.untimed.currentPhaseIdx = inst.currentPhaseIdx := rfl
    have hnext : inst.untimed.template.phases[inst.currentPhaseIdx + 1]? =
        inst.template.phases[inst.currentPhaseIdx + 1]? := rfl
    simp only [Option.map_some, hstatus, hlength, hidx, hnext]
    split_ifs with hs hf
    · rfl
    · rfl
    cases inst.canAdvance evaluator with
    | error e => rfl
    | ok passed =>
      cases passed with
      | false => rfl
      | true =>
        dsimp only
        cases inst.template.phases[inst.currentPhaseIdx + 1]? with
        | none => rfl
        | some next =>
          dsimp only
          cases checkArtifactPrerequisites next none files with
          | error errors => rfl
          | ok warnings =>
            have hentry : inst.untimed.checkEntryGate evaluator next =
                inst.checkEntryGate evaluator next := rfl
            simp only [hentry]
            cases inst.checkEntryGate evaluator next with
            | error e => rfl
            | ok u => exact enterPhase_untimed inst _ _ clk

theorem advanceReconciled_untimed (inst : WorkflowInstance) (evaluator : GateEvaluator)
    (files : Files) (clk : Clock) :
    (advanceReconciled inst evaluator files clk).map untimed id =
      advanceReconciled inst.untimed evaluator files stopped := by
  unfold advanceReconciled
  rw [← advance_untimed inst evaluator files clk]
  cases inst.advance evaluator files clk with
  | mk result out =>
    cases result with
    | ok t => rfl
    | error e => cases e <;> rfl

/-! ## A reconciliation without its timestamps -/

theorem settleCurrent_untimed (inst : WorkflowInstance) (phase : PhaseState) (taskId : String)
    (task : TaskDetail) (forceAdvance : Bool) (files : Files) (clk : Clock) :
    (settleCurrent inst phase taskId task forceAdvance files clk).map (Prod.map id untimed) =
      settleCurrent inst.untimed phase.untimed taskId task forceAdvance files stopped := by
  have hid : phase.untimed.phaseId = phase.phaseId := rfl
  unfold settleCurrent
  cases isCompletedStatus task.status with
  | true =>
    simp only [if_true, hid, ← reconcileComplete_untimed inst clk]
    cases inst.reconcileCompleteCurrentPhase clk with
    | mk result out =>
    cases result with
    | error e => rfl
    | ok u =>
      cases task.stopSignal with
      | some signal => rfl
      | none =>
        have hadvance := advanceReconciled_untimed out (reconcileEvaluator forceAdvance task) files
          fun k => clk (k + 3)
        simp only [Prod.map_apply, id_eq]
        show _ = Except.ok (_, _)
        rw [show (fun k => stopped (k + 3)) = stopped from rfl, ← hadvance]
        rfl
  | false =>
    cases isFailedStatus task.status with
    | false => rfl
    | true =>
      simp only [if_true, Bool.false_eq_true, if_false, hid, ← reconcileFail_untimed inst _ clk]
      cases inst.reconcileFailCurrentPhase s!"Canopy task {taskId} was {task.status}" clk with
      | mk result out => cases result <;> rfl

/-- Erasing the timestamps commutes with a reconciliation. -/
theorem reconcilePhases_untimed (inst : WorkflowInstance) (canopy : CanopyClient)
    (forceAdvance : Bool) (files : Files) (clk : Clock) :
    (reconcilePhases inst canopy forceAdvance files clk).map ReconcileResult.untimed =
      reconcilePhases inst.untimed canopy forceAdvance files stopped := by
  have hlength : inst.untimed.phaseStates.length = inst.phaseStates.length := List.length_map _
  have hidx : inst.untimed.currentPhaseIdx = inst.currentPhaseIdx := rfl
  cases hp : inst.currentPhase with
  | none =>
    have hp' : inst.untimed.currentPhase = none := by
      rw [currentPhase_untimed, hp, Option.map_none]
    rw [reconcilePhases_none hp, reconcilePhases_none hp', hlength]
    rfl
  | some phase =>
    have hp' : inst.untimed.currentPhase = some phase.untimed := by
      rw [currentPhase_untimed, hp, Option.map_some]
    have hturn : (reconcileCurrent inst phase canopy forceAdvance files clk).map
        (Prod.map id untimed) =
        reconcileCurrent inst.untimed phase.untimed canopy forceAdvance files stopped := by
      have htask : phase.untimed.canopyTaskId = phase.canopyTaskId := rfl
      have hstatus : phase.untimed.status = phase.status := rfl
      cases ht : phase.canopyTaskId with
      | none =>
        unfold reconcileCurrent
        simp only [htask, ht]
        rfl
      | some taskId =>
        cases hs : phase.status.isTerminal with
        | true =>
          unfold reconcileCurrent
          simp only [htask, ht, hstatus, hs, if_true]
          rfl
        | false =>
          have ht' : phase.untimed.canopyTaskId = some taskId := htask.trans ht
          have hs' : phase.untimed.status.isTerminal = false := hs
          cases hans : canopy.getTask taskId with
          | error e =>
            rw [reconcileCurrent_fetchError ht hs hans, reconcileCurrent_fetchError ht' hs' hans]
            rfl
          | ok task =>
            rw [reconcileCurrent_fetched ht hs hans, reconcileCurrent_fetched ht' hs' hans]
            exact settleCurrent_untimed inst phase taskId task forceAdvance files clk
    rw [reconcilePhases_some hp, reconcilePhases_some hp', ← hturn, hlength, hidx]
    cases reconcileCurrent inst phase canopy forceAdvance files clk <;> rfl

end Untimed

/-! ## Two answers that differ in the signal -/

/-- The task with this completion signal. -/
def TaskDetail.signalled (task : TaskDetail) (signal : Option CompletionSignal) : TaskDetail :=
  { task with completionSignal := signal }

/-- The signal asks for no stop: there is none, or it says to continue. -/
def Continues (signal : Option CompletionSignal) : Prop :=
  ∀ s, signal = some s → s.shouldContinue = some true

section Signal

variable {inst : WorkflowInstance} {canopy canopy' : CanopyClient} {task : TaskDetail}
  {signal signal' : Option CompletionSignal} {forceAdvance : Bool} {files : Files} {clk : Clock}

theorem stopSignal_of_continues (h : Continues signal) :
    (task.signalled signal).stopSignal = none := by
  cases signal with
  | none => rfl
  | some s =>
    unfold TaskDetail.stopSignal TaskDetail.signalled CompletionSignal.wantsStop
    rw [Option.filter_eq_none_iff]
    intro s' hs'
    rw [h s' hs']
    simp

theorem stopSignal_of_stop {s : CompletionSignal} (h : s.shouldContinue ≠ some true) :
    (task.signalled (some s)).stopSignal = some s := by
  have hstop : s.wantsStop = true := by
    unfold CompletionSignal.wantsStop
    cases hc : s.shouldContinue with
    | none => rfl
    | some b =>
      cases b with
      | false => rfl
      | true => exact absurd hc h
  unfold TaskDetail.stopSignal TaskDetail.signalled
  rw [Option.filter_some, if_pos hstop]

/-- The evidence evaluator does not look at the signal. -/
theorem reconcileEvaluator_signalled (forceAdvance : Bool) (task : TaskDetail)
    (signal : Option CompletionSignal) :
    reconcileEvaluator forceAdvance (task.signalled signal) =
      reconcileEvaluator forceAdvance task := by
  have hverdict : ∀ condition,
      evidenceVerdict (task.signalled signal) condition = evidenceVerdict task condition := by
    intro condition
    cases condition <;> rfl
  unfold reconcileEvaluator evidenceGateEvaluator
  simp only [hverdict]

/-- After the fetch, only a request to stop is read of the signal. -/
theorem settleCurrent_signalled (h : Continues signal) (phase : PhaseState) (taskId : String) :
    settleCurrent inst phase taskId (task.signalled signal) forceAdvance files clk =
      settleCurrent inst phase taskId (task.signalled none) forceAdvance files clk := by
  have hstatus : ∀ s, (task.signalled s).status = task.status := fun s => rfl
  have hnone : (task.signalled none).stopSignal = none := rfl
  unfold settleCurrent
  simp only [hstatus, stopSignal_of_continues h, hnone, reconcileEvaluator_signalled]

/-- Two signals that ask for no stop make no difference to a reconciliation. -/
theorem reconcilePhases_continues (h : Continues signal) (h' : Continues signal')
    (hans : ∀ taskId, inst.openTask = some taskId →
      canopy.getTask taskId = .ok (task.signalled signal) ∧
        canopy'.getTask taskId = .ok (task.signalled signal')) :
    reconcilePhases inst canopy forceAdvance files clk =
      reconcilePhases inst canopy' forceAdvance files clk := by
  cases hp : inst.currentPhase with
  | none => rw [reconcilePhases_none hp, reconcilePhases_none hp]
  | some phase =>
    have hturn : reconcileCurrent inst phase canopy forceAdvance files clk =
        reconcileCurrent inst phase canopy' forceAdvance files clk := by
      cases ht : phase.canopyTaskId with
      | none =>
        unfold reconcileCurrent
        simp only [ht]
      | some taskId =>
        cases hs : phase.status.isTerminal with
        | true =>
          unfold reconcileCurrent
          simp only [ht, hs, if_true]
        | false =>
          obtain ⟨hfst, hsnd⟩ := hans taskId (openTask_of_open hp ht hs)
          rw [reconcileCurrent_fetched ht hs hfst, reconcileCurrent_fetched ht hs hsnd,
            settleCurrent_signalled h, settleCurrent_signalled h']
    rw [reconcilePhases_some hp, reconcilePhases_some hp, hturn]

/-- A reconciliation moves the index only on an answer without a stop signal. -/
theorem Reconciled.index_of_stop {answer : Option (Except DispatchError TaskDetail)}
    {out : WorkflowInstance} (h : Reconciled inst forceAdvance files answer out)
    (hstop : ∀ task, answer = some (.ok task) → task.stopSignal ≠ none) :
    out.currentPhaseIdx = inst.currentPhaseIdx := by
  cases h with
  | unasked | waiting | failed | stopped | finished | blocked => rfl
  | entered task p' next t t' log hc hs => exact absurd hs (hstop task rfl)
  | stranded task p' t hc hs => exact absurd hs (hstop task rfl)

end Signal

/-- **Signals only suppress.** Two reconciliations of one instance, whose answers differ in the
completion signal alone: against no signal, a signal to continue changes nothing but timestamps;
a signal to stop keeps the index where it was, which is never past the index of the other. -/
theorem signal_only_suppresses (inst : WorkflowInstance) (task : TaskDetail)
    (canopy canopy' : CanopyClient) (signal signal' : Option CompletionSignal)
    (forceAdvance : Bool) (files : Files) (clk clk' : Clock)
    (hans : ∀ taskId, inst.openTask = some taskId →
      canopy.getTask taskId = .ok (task.signalled signal) ∧
        canopy'.getTask taskId = .ok (task.signalled signal')) :
    (signal = none → (∃ s, signal' = some s ∧ s.shouldContinue = some true) →
      (reconcilePhases inst canopy forceAdvance files clk).map ReconcileResult.untimed =
        (reconcilePhases inst canopy' forceAdvance files clk').map ReconcileResult.untimed) ∧
    ((∃ s, signal' = some s ∧ s.shouldContinue ≠ some true) →
      ∀ result', reconcilePhases inst canopy' forceAdvance files clk' = .ok result' →
        result'.inst.currentPhaseIdx = inst.currentPhaseIdx ∧
          ∀ result, reconcilePhases inst canopy forceAdvance files clk = .ok result →
            result'.inst.currentPhaseIdx ≤ result.inst.currentPhaseIdx) := by
  constructor
  · rintro rfl ⟨s, rfl, hs⟩
    have hcontinues : Continues (some s) := by
      intro s' heq
      rw [← Option.some.inj heq]
      exact hs
    have hnone : Continues none := nofun
    rw [reconcilePhases_untimed, reconcilePhases_untimed]
    apply reconcilePhases_continues hnone hcontinues
    rw [openTask_untimed]
    exact hans
  · rintro ⟨s, rfl, hs⟩ result' hr'
    have hidx : result'.inst.currentPhaseIdx = inst.currentPhaseIdx := by
      refine (reconcilePhases_reconciled hr').index_of_stop fun task' hanswer => ?_
      obtain ⟨taskId, ht, hget⟩ := Option.map_eq_some_iff.mp hanswer
      cases hget.symm.trans (hans taskId ht).2
      rw [stopSignal_of_stop hs]
      exact Option.some_ne_none s
    refine ⟨hidx, fun result hr => ?_⟩
    rw [hidx]
    rcases (reconcilePhases_reconciled hr).index with heq | heq
    · exact Nat.le_of_eq heq.symm
    · rw [heq]
      exact Nat.le_succ _

/-- The first phase runs, and its task is reported completed with evidence. -/
theorem signal_only_suppresses_implement :
    let inst : WorkflowInstance := { new "wf" implAuditDefault "handoff.md" 0 with
      status := .inProgress
      phaseStates := [
        { PhaseState.new "implement" .worker with
          status := .active, canopyTaskId := some "task-1", startedAt := some 1 },
        PhaseState.new "audit" .outputVerifier] }
    let task : TaskDetail :=
      ⟨"task-1", "implement", "completed", none, none, [], true, true, none⟩
    let goOn : CompletionSignal := ⟨none, some true, none, none, none⟩
    let canopy : CanopyClient := ⟨fun _ => .ok (task.signalled none)⟩
    let canopy' : CanopyClient := ⟨fun _ => .ok (task.signalled (some goOn))⟩
    (reconcilePhases inst canopy false (fun _ => true) (fun k => 10 + k)).map
        ReconcileResult.untimed =
      (reconcilePhases inst canopy' false (fun _ => true) (fun k => 50 + k)).map
        ReconcileResult.untimed := by
  intro inst task goOn canopy canopy'
  exact (signal_only_suppresses inst task canopy canopy' none (some goOn) false (fun _ => true)
    _ _ fun _ _ => ⟨rfl, rfl⟩).1 rfl ⟨goOn, rfl, rfl⟩

end Hymenium
