import Hymenium.Dispatch.Orchestrate
import Hymenium.Dispatch.Reconcile
import Hymenium.Foundations.Progress

/-!
# Rounds of reconciliation

`reconcile` is run again and again on a workflow, with whatever Canopy answers each time. A round that
changes the instance uses up the task it asked about: it ends the current phase, and the next round
asks about the next phase or about nothing. So the rounds that change something are no more than the
phases that are left (`changes_rounds_le`). Rounds that let the workflow pass complete one phase for
each completed task, in order, and the workflow with the last one (`rounds_complete`).
-/

namespace Hymenium

open WorkflowInstance

/-- What one reconciliation reads from outside. -/
structure Round where
  canopy : CanopyClient
  forceAdvance : Bool
  files : Files
  clk : Clock

/-- The instance after one reconciliation. A failed fetch leaves it as it was. -/
def reconcileRound (inst : WorkflowInstance) (round : Round) : WorkflowInstance :=
  match reconcilePhases inst round.canopy round.forceAdvance round.files round.clk with
  | .ok result => result.inst
  | .error _ => inst

/-- The phases that reconciliations can still be about. -/
def WorkflowInstance.remaining (inst : WorkflowInstance) : ℕ :=
  if inst.openTask = none then 0 else inst.phaseStates.length - inst.currentPhaseIdx

theorem remaining_le (inst : WorkflowInstance) :
    inst.remaining ≤ inst.phaseStates.length - inst.currentPhaseIdx := by
  unfold remaining
  split_ifs
  · exact Nat.zero_le _
  · exact le_refl _

theorem remaining_of_closed {inst : WorkflowInstance} (h : inst.openTask = none) :
    inst.remaining = 0 := if_pos h

section Round

variable {inst out : WorkflowInstance} {forceAdvance : Bool} {files : Files}

/-- The current phase is there as long as there is something to ask. -/
theorem remaining_pos (h : inst.openTask ≠ none) :
    inst.remaining = inst.phaseStates.length - inst.currentPhaseIdx ∧
      inst.currentPhaseIdx < inst.phaseStates.length := by
  obtain ⟨taskId, ht⟩ := Option.ne_none_iff_exists'.mp h
  obtain ⟨phase, hp, -, -⟩ := currentPhase_of_openTask ht
  exact ⟨if_neg h, (List.getElem?_eq_some_iff.mp hp).1⟩

/-- A current phase that is done leaves nothing to ask. -/
theorem openTask_withCurrent {p' : PhaseState} (t : DateTime)
    (hid : inst.currentPhase.map (·.phaseId) = some p'.phaseId)
    (hp : p'.status = .completed ∨ p'.status = .failed) :
    (inst.withCurrent p' t).openTask = none := by
  obtain ⟨phase, hphase, -⟩ := Option.map_eq_some_iff.mp hid
  refine openTask_of_terminal (currentPhase_withCurrent hphase p' t) ?_
  rcases hp with hp | hp <;> rw [hp] <;> rfl

/-- **Step lemma.** A reconciliation changes nothing, or has less left to ask about. -/
theorem Reconciled.remaining_lt {answer : Option (Except DispatchError TaskDetail)}
    (h : Reconciled inst forceAdvance files answer out) (hask : inst.openTask ≠ none) :
    out = inst ∨ out.remaining < inst.remaining := by
  obtain ⟨hrem, hlt⟩ := remaining_pos hask
  have hclosed : ∀ {closed : WorkflowInstance}, closed.openTask = none →
      closed.remaining < inst.remaining := by
    intro closed hnone
    rw [remaining_of_closed hnone, hrem]
    omega
  cases h with
  | unasked | waiting => exact .inl rfl
  | failed task p' t hf hp hid => exact .inr (hclosed (openTask_withCurrent t hid (.inr hp)))
  | stopped task p' t hc hs hp hid => exact .inr (hclosed (openTask_withCurrent t hid (.inl hp)))
  | finished task p' t hc hs hp hf hid =>
    exact .inr (hclosed (openTask_withCurrent t hid (.inl hp)))
  | blocked task p' t b hc hs hp hf ho hid =>
    exact .inr (hclosed (openTask_withCurrent t hid (.inl hp)))
  | stranded task p' t hc hs hp hf ho hn hid =>
    -- there is no phase at the next index
    refine .inr (hclosed ?_)
    have hnone : (inst.phaseStates.set inst.currentPhaseIdx p')[inst.currentPhaseIdx + 1]? =
        none := by
      rw [List.getElem?_set_ne (Nat.succ_ne_self _).symm]
      exact hn
    unfold openTask currentPhase
    show Option.bind ((inst.phaseStates.set inst.currentPhaseIdx p')[_]?) _ = none
    rw [hnone]
    rfl
  | entered task p' next t t' log hc hs hp hf ho hn hid =>
    refine .inr (lt_of_le_of_lt (remaining_le _) ?_)
    rw [hrem]
    show (inst.phaseStates.set inst.currentPhaseIdx p').length - (inst.currentPhaseIdx + 1) <
      inst.phaseStates.length - inst.currentPhaseIdx
    rw [List.length_set]
    omega

theorem reconcileRound_remaining (inst : WorkflowInstance) (round : Round) :
    reconcileRound inst round = inst ∨
      (reconcileRound inst round).remaining < inst.remaining := by
  unfold reconcileRound
  by_cases hask : inst.openTask = none
  · obtain ⟨result, hresult, hinst⟩ := reconcilePhases_unasked round.canopy round.forceAdvance
      round.files round.clk hask
    rw [hresult]
    exact .inl hinst
  · cases hresult : reconcilePhases inst round.canopy round.forceAdvance round.files round.clk with
    | error e => exact .inl rfl
    | ok result => exact (reconcilePhases_reconciled hresult).remaining_lt hask

end Round

/-- **Rounds.** However often an instance is reconciled, and whatever Canopy answers, the
reconciliations that change it are no more than the phases that are left. -/
theorem changes_rounds_le (inst : WorkflowInstance) (rounds : List Round) :
    Runs.changes reconcileRound id inst rounds ≤
      inst.phaseStates.length - inst.currentPhaseIdx := by
  have hle : ∀ inst round, (reconcileRound inst round).remaining ≤ inst.remaining := by
    intro inst round
    rcases reconcileRound_remaining inst round with hsame | hlt
    · rw [hsame]
    · exact Nat.le_of_lt hlt
  have hlt : ∀ inst round, reconcileRound inst round ≠ inst →
      (reconcileRound inst round).remaining < inst.remaining := by
    intro inst round hne
    exact (reconcileRound_remaining inst round).resolve_left hne
  have hpaid : Runs.changes reconcileRound id inst rounds +
      (Runs.run reconcileRound inst rounds).remaining ≤ inst.remaining :=
    Runs.changes_add_le hle hlt inst rounds
  have hbound := remaining_le inst
  omega

/-! ## Rounds that let a workflow pass -/

namespace WorkflowInstance

/-- The answer does not end the workflow early and does not leave it stuck: a completed task asks for
no stop, and the gates behind its phase are open. -/
def LetsPass (inst : WorkflowInstance) (forceAdvance : Bool) (files : Files) :
    Option (Except DispatchError TaskDetail) → Prop
  | some (.ok task) => isFailedStatus task.status = false ∧
      (isCompletedStatus task.status = true → task.stopSignal = none ∧
        (inst.AtFinal ∨ inst.GatesOpen (reconcileEvaluator forceAdvance task) files))
  | _ => True

instance (inst : WorkflowInstance) (forceAdvance : Bool) (files : Files) :
    DecidablePred (inst.LetsPass forceAdvance files)
  | some (.ok _) => inferInstanceAs (Decidable (_ ∧ _))
  | some (.error _) | none => isTrue trivial

/-- The answer reports the task of the current phase as completed. -/
def completedBy (inst : WorkflowInstance) (canopy : CanopyClient) : Bool :=
  match inst.answer canopy with
  | some (.ok task) => isCompletedStatus task.status
  | _ => false

theorem completedBy_iff {inst : WorkflowInstance} {canopy : CanopyClient} :
    inst.completedBy canopy = true ↔
      ∃ task, inst.answer canopy = some (.ok task) ∧ isCompletedStatus task.status = true := by
  unfold completedBy
  split
  · next task hans => simp [hans]
  · next hother =>
    refine iff_of_false Bool.false_ne_true ?_
    rintro ⟨task, hans, -⟩
    exact hother task hans

/-- The first `k` phases are completed, one after the other, and nothing else has happened. -/
structure AtStage (k : ℕ) (inst : WorkflowInstance) : Prop where
  length : inst.phaseStates.length = inst.template.phases.length
  le : k ≤ inst.template.phases.length
  index : inst.currentPhaseIdx = min k (inst.template.phases.length - 1)
  status : inst.status = if k = inst.template.phases.length then .completed else .dispatched
  phases : ∀ i p, inst.phaseStates[i]? = some p →
    p.status = if i < k then .completed else .pending

section Stages

variable {k : ℕ} {inst out : WorkflowInstance} {forceAdvance : Bool} {files : Files}
  {canopy : CanopyClient}

theorem atStage_of_freshDispatch {workflowId : WorkflowId} {template : WorkflowTemplate}
    (h : FreshDispatch workflowId template inst) (hne : template.phases ≠ []) :
    inst.AtStage 0 where
  length := by
    have hlen := congrArg List.length h.phases
    rw [List.length_map, List.length_map] at hlen
    rw [h.template_eq, hlen]
  le := Nat.zero_le _
  index := by rw [h.currentPhaseIdx, Nat.zero_min]
  status := by
    rw [h.template_eq, h.status, if_neg]
    exact Nat.ne_of_lt (List.length_pos_iff.mpr hne)
  phases i p hp := by
    rw [(h.pending (List.mem_of_getElem? hp)).1, if_neg (Nat.not_lt_zero i)]

/-- A workflow at the end has nothing left to ask. -/
theorem AtStage.lt_of_openTask (h : inst.AtStage k) (hask : inst.openTask ≠ none) :
    k < inst.template.phases.length ∧ inst.currentPhaseIdx = k := by
  obtain ⟨taskId, ht⟩ := Option.ne_none_iff_exists'.mp hask
  obtain ⟨phase, hp, -, hs⟩ := currentPhase_of_openTask ht
  have hstatus := h.phases _ phase hp
  have hindex := h.index
  have hle := h.le
  rcases Nat.lt_or_ge inst.currentPhaseIdx k with hlt | hge
  · rw [if_pos hlt] at hstatus
    rw [hstatus] at hs
    cases hs
  · have hidx : inst.currentPhaseIdx < inst.phaseStates.length :=
      (List.getElem?_eq_some_iff.mp hp).1
    rw [h.length] at hidx
    omega

theorem AtStage.phases_withCurrent (h : inst.AtStage k) (hidx : inst.currentPhaseIdx = k)
    {p' : PhaseState} (hp' : p'.status = .completed) (t : DateTime) (i : ℕ) (p : PhaseState)
    (hp : (inst.withCurrent p' t).phaseStates[i]? = some p) :
    p.status = if i < k + 1 then .completed else .pending := by
  have hget : (inst.phaseStates.set inst.currentPhaseIdx p')[i]? = some p := hp
  rcases Nat.lt_trichotomy i k with hlt | rfl | hgt
  · rw [List.getElem?_set_ne (by omega)] at hget
    rw [h.phases i p hget, if_pos hlt, if_pos (by omega)]
  · rw [if_pos (Nat.lt_succ_self _)]
    rw [List.getElem?_set, if_pos hidx] at hget
    split_ifs at hget with hlt
    obtain rfl := Option.some.inj hget
    exact hp'
  · rw [List.getElem?_set_ne (by omega)] at hget
    rw [h.phases i p hget, if_neg (by omega), if_neg (by omega)]

/-- **Step lemma.** A reconciliation that lets the workflow pass completes the next phase when its
task is completed, and else changes nothing. -/
theorem AtStage.reconciled (h : inst.AtStage k)
    (hpass : inst.LetsPass forceAdvance files (inst.answer canopy))
    (hr : Reconciled inst forceAdvance files (inst.answer canopy) out) :
    out.AtStage (k + (inst.completedBy canopy).toNat) := by
  unfold completedBy
  cases hanswer : inst.answer canopy with
  | none =>
    rw [hanswer] at hr
    cases hr
    exact h
  | some answer =>
    have hask : inst.openTask ≠ none := fun hnone => by
      rw [answer_none hnone] at hanswer
      cases hanswer
    obtain ⟨hlt, hidx⟩ := h.lt_of_openTask hask
    rw [hanswer] at hr hpass
    cases hr with
    | waiting task hc hf =>
      dsimp only
      rw [hc]
      exact h
    | failed task p' t hf => exact absurd hf (by rw [hpass.1]; exact Bool.false_ne_true)
    | stopped task p' t hc hs => exact absurd (hpass.2 hc).1 hs
    | blocked task p' t b hc hs hp hf ho =>
      exact absurd ((hpass.2 hc).2.resolve_left hf) ho
    | stranded task p' t hc hs hp hf ho hn =>
      have hlen := h.length
      rw [List.getElem?_eq_none_iff] at hn
      unfold AtFinal at hf
      omega
    | finished task p' t hc hs hp hf =>
      unfold AtFinal at hf
      have hlast : k + 1 = inst.template.phases.length := by omega
      dsimp only
      rw [hc]
      refine ⟨?_, Nat.succ_le_of_lt hlt, ?_, (if_pos hlast).symm, h.phases_withCurrent hidx hp t⟩
      · exact List.length_set.trans h.length
      · show inst.currentPhaseIdx = min (k + 1) (inst.template.phases.length - 1)
        omega
    | entered task p' next t t' log hc hs hp hf ho hn =>
      unfold AtFinal at hf
      have hnext : k + 1 < inst.template.phases.length := by omega
      dsimp only
      rw [hc]
      refine ⟨?_, Nat.succ_le_of_lt hlt, ?_, (if_neg (Nat.ne_of_lt hnext)).symm,
        h.phases_withCurrent hidx hp t⟩
      · exact List.length_set.trans h.length
      · show inst.currentPhaseIdx + 1 = min (k + 1) (inst.template.phases.length - 1)
        omega

theorem AtStage.reconcileRound (h : inst.AtStage k) (round : Round)
    (hpass : inst.LetsPass round.forceAdvance round.files (inst.answer round.canopy)) :
    (Hymenium.reconcileRound inst round).AtStage
      (k + (inst.completedBy round.canopy).toNat) := by
  unfold Hymenium.reconcileRound
  cases hresult : reconcilePhases inst round.canopy round.forceAdvance round.files round.clk with
  | error e =>
    rw [completedBy, reconcilePhases_error_iff.mp hresult]
    exact h
  | ok result => exact h.reconciled hpass (reconcilePhases_reconciled hresult)

end Stages

end WorkflowInstance

/-- **Completion.** Along rounds that let a freshly dispatched workflow pass, the answers that
complete a task complete the phases in order: after `c` of them, the first `c` phases are completed
and the others untouched, and the workflow is completed exactly when all phases are. -/
theorem rounds_complete {workflowId : WorkflowId} {template : WorkflowTemplate}
    {inst : WorkflowInstance} (hfresh : FreshDispatch workflowId template inst)
    (hne : template.phases ≠ []) {rounds : List Round}
    (hpass : Runs.Meets reconcileRound
      (fun inst round => inst.LetsPass round.forceAdvance round.files (inst.answer round.canopy))
      inst rounds) :
    (Runs.run reconcileRound inst rounds).AtStage
      (Runs.count reconcileRound (fun inst round => inst.completedBy round.canopy) inst rounds) := by
  have hrun := Runs.run_count (P := AtStage)
    (fun k inst round h hpass => h.reconcileRound round hpass)
    (atStage_of_freshDispatch hfresh hne) hpass
  rwa [Nat.zero_add] at hrun

/-- The built-in workflow with a task for each phase. -/
def freshWorkflow : WorkflowInstance :=
  { WorkflowInstance.new "wf" implAuditDefault "handoff.md" 0 with
    status := .dispatched
    phaseStates := implAuditDefault.phases.map fun phase =>
      { PhaseState.new phase.phaseId phase.effectiveAgentRole with
        canopyTaskId := some phase.phaseId } }

/-- A Canopy whose tasks all have this status, with the evidence on them. -/
def evidencedCanopy (status : String) : CanopyClient :=
  ⟨fun id => .ok
    { taskId := id
      title := "task"
      status := status
      hasCodeDiff := true
      hasVerificationPassed := true }⟩

/-- Two completed tasks complete the built-in workflow, with a round in between that waits. -/
theorem rounds_complete_freshWorkflow :
    let round (status : String) : Round := ⟨evidencedCanopy status, false, fun _ => true, Int.ofNat⟩
    let rounds := [round "completed", round "in_progress", round "completed", round "completed"]
    Runs.count reconcileRound (fun inst round => inst.completedBy round.canopy) freshWorkflow
        rounds = 2 ∧
      (Runs.run reconcileRound freshWorkflow rounds).status = .completed ∧
      (Runs.run reconcileRound freshWorkflow rounds).AtStage
        (Runs.count reconcileRound (fun inst round => inst.completedBy round.canopy) freshWorkflow
          rounds) := by
  refine ⟨by decide +kernel, by decide +kernel, ?_⟩
  have hfresh : FreshDispatch "wf" implAuditDefault freshWorkflow :=
    ⟨rfl, rfl, rfl, rfl, rfl, rfl⟩
  exact rounds_complete hfresh (by decide) (by decide +kernel)

end Hymenium
