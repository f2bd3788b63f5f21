import Hymenium.Workflow.Steps

/-!
# The shape of a workflow instance, and its gate history

`Shape` relates the phase states, the index and the transition log of an instance to its template.
It holds of a new instance and every operation keeps it, whether it succeeds or is refused.

The second half looks back along a run: each phase below the index was left by a successful
`advance` whose evaluator and file answers opened the gates at that moment.
-/

namespace Hymenium

namespace PhaseState

/-- The state of a phase nothing has happened to. -/
structure Untouched (p : PhaseState) : Prop where
  status : p.status = .pending
  startedAt : p.startedAt = none
  completedAt : p.completedAt = none
  retryCount : p.retryCount = 0
  toolFailureCount : p.toolFailureCount = 0
  requestCount : p.requestCount = 0

theorem untouched_new (phaseId : String) (role : AgentRole) : (new phaseId role).Untouched :=
  ⟨rfl, rfl, rfl, rfl, rfl, rfl⟩

end PhaseState

namespace WorkflowInstance

/-! ## Shape -/

/-- The phase states follow the template, those before the index are completed, those after it
untouched, and the log lists the phases entered. -/
structure Shape (inst : WorkflowInstance) : Prop where
  phases : inst.phaseStates.map (fun p => (p.phaseId, p.role)) =
    inst.template.phases.map fun phase => (phase.phaseId, phase.effectiveAgentRole)
  inRange : inst.currentPhaseIdx < inst.template.phases.length
  before : ∀ i < inst.currentPhaseIdx, ∀ p, inst.phaseStates[i]? = some p → p.status = .completed
  after : ∀ i > inst.currentPhaseIdx, ∀ p, inst.phaseStates[i]? = some p → p.Untouched
  logLength : inst.transitions.length = inst.currentPhaseIdx
  log : ∀ k t, inst.transitions[k]? = some t → ∃ a b, inst.template.phases[k]? = some a ∧
    inst.template.phases[k + 1]? = some b ∧ t.fromPhaseId = a.phaseId ∧ t.toPhaseId = b.phaseId

theorem shape_new (workflowId : WorkflowId) {template : WorkflowTemplate} (handoffPath : String)
    (now : DateTime) (h : template.phases ≠ []) :
    (new workflowId template handoffPath now).Shape where
  phases := by simp [new, PhaseState.new]
  inRange := List.length_pos_iff.mpr h
  before i hi := by simp [new] at hi
  after i _ p hp := by
    simp only [new, List.getElem?_map, Option.map_eq_some_iff] at hp
    obtain ⟨phase, -, rfl⟩ := hp
    exact PhaseState.untouched_new _ _
  logLength := rfl
  log k t ht := by simp [new] at ht

variable {inst : WorkflowInstance}

namespace Shape

theorem length_eq (h : inst.Shape) : inst.phaseStates.length = inst.template.phases.length := by
  simpa using congrArg List.length h.phases

/-- The template phase behind a phase state. -/
theorem templatePhase (h : inst.Shape) {i : ℕ} {p : PhaseState}
    (hp : inst.phaseStates[i]? = some p) :
    ∃ phase, inst.template.phases[i]? = some phase ∧ phase.phaseId = p.phaseId ∧
      phase.effectiveAgentRole = p.role := by
  have hi := congrArg (·[i]?) h.phases
  simp only [List.getElem?_map, hp, Option.map_some] at hi
  obtain ⟨phase, hphase, heq⟩ := Option.map_eq_some_iff.mp hi.symm
  exact ⟨phase, hphase, congrArg Prod.fst heq, congrArg Prod.snd heq⟩

/-- Before the final phase there is a next phase state. -/
theorem next (h : inst.Shape) (hf : ¬ inst.AtFinal) :
    ∃ p, inst.phaseStates[inst.currentPhaseIdx + 1]? = some p := by
  unfold AtFinal at hf
  have hlt : inst.currentPhaseIdx + 1 < inst.phaseStates.length := by
    rw [h.length_eq]; omega
  exact ⟨_, List.getElem?_eq_getElem hlt⟩

end Shape

theorem enterPhase_some {fromPhaseId : String} {nextIdx : ℕ} {clk : Clock} {p : PhaseState}
    (h : inst.phaseStates[nextIdx]? = some p) :
    inst.enterPhase fromPhaseId nextIdx clk =
      let t : PhaseTransition :=
        ⟨fromPhaseId, p.phaseId, clk 0, "exit and entry gates satisfied"⟩
      (.ok t, { inst with
        currentPhaseIdx := nextIdx
        transitions := inst.transitions ++ [t]
        status := .dispatched
        updatedAt := clk 1 }) := by
  unfold enterPhase currentPhase
  simp only [h]

theorem Shape.set_current (h : inst.Shape) {p p' : PhaseState}
    (hp : inst.currentPhase = some p) (hid : p'.phaseId = p.phaseId) (hrole : p'.role = p.role)
    (ws : WorkflowStatus) (t : DateTime) :
    Shape { inst with
      phaseStates := inst.phaseStates.set inst.currentPhaseIdx p'
      status := ws
      updatedAt := t } := by
  refine ⟨?_, h.inRange, ?_, ?_, h.logLength, h.log⟩
  · rw [← h.phases]
    apply List.ext_getElem?
    intro i
    simp only [List.getElem?_map, List.getElem?_set]
    by_cases hi : inst.currentPhaseIdx = i
    · subst hi
      obtain ⟨hlt, hget⟩ := List.getElem?_eq_some_iff.mp hp
      simp [hlt, hget, hid, hrole]
    · simp [hi]
  · intro i hi q hq
    have hne : inst.currentPhaseIdx ≠ i := by
      have : i < inst.currentPhaseIdx := hi
      omega
    exact h.before i hi q (by simpa [List.getElem?_set, hne] using hq)
  · intro i hi q hq
    have hne : inst.currentPhaseIdx ≠ i := by
      have : i > inst.currentPhaseIdx := hi
      omega
    exact h.after i hi q (by simpa [List.getElem?_set, hne] using hq)

theorem Shape.enter (h : inst.Shape) {p : PhaseState} (hp : inst.currentPhase = some p)
    (hs : p.status = .completed) (hf : ¬ inst.AtFinal) (clk : Clock) :
    (inst.enterPhase p.phaseId (inst.currentPhaseIdx + 1) clk).2.Shape := by
  obtain ⟨q, hq⟩ := h.next hf
  rw [enterPhase_some hq]
  unfold AtFinal at hf
  have hlt : inst.currentPhaseIdx + 1 < inst.template.phases.length := by omega
  refine ⟨h.phases, hlt, ?_, ?_, ?_, ?_⟩
  · intro i hi r hr
    have hi' : i < inst.currentPhaseIdx + 1 := hi
    rcases Nat.lt_succ_iff_lt_or_eq.mp hi' with hlt | rfl
    · exact h.before i hlt r hr
    · obtain rfl : p = r := by
        have : inst.currentPhase = some r := hr
        rw [hp] at this
        exact Option.some.inj this
      exact hs
  · intro i hi r hr
    have hi' : i > inst.currentPhaseIdx + 1 := hi
    exact h.after i (by omega) r hr
  · simp [h.logLength]
  · intro k t ht
    simp only [List.getElem?_append] at ht
    split_ifs at ht with hk
    · exact h.log k t ht
    · -- the entry just appended
      obtain ⟨a, ha, haid, -⟩ := h.templatePhase hp
      obtain ⟨b, hb, hbid, -⟩ := h.templatePhase hq
      obtain ⟨rfl, rfl⟩ : k = inst.currentPhaseIdx ∧ t = _ := by
        rw [h.logLength] at hk ht
        have h0 : k - inst.currentPhaseIdx = 0 := by
          by_contra hne
          rw [List.getElem?_eq_none (by simp; omega)] at ht
          cases ht
        rw [h0] at ht
        exact ⟨by omega, (Option.some.inj ht).symm⟩
      exact ⟨a, b, ha, hb, haid.symm, hbid.symm⟩

/-- Every effect of an operation keeps the shape. -/
theorem Shape.effect (h : inst.Shape) {op : Op} {out : WorkflowInstance}
    (he : Effect inst op out) : out.Shape := by
  cases he with
  | refused | touched | refailed | finished =>
    exact ⟨h.phases, h.inRange, h.before, h.after, h.logLength, h.log⟩
  | edited _ p p' ws' t hp he => exact h.set_current hp he.phaseId_eq he.role_eq ws' t
  | entered evaluator files clk p hp hs hf ho => exact h.enter hp hs hf clk

theorem runOps_template (ops : List Op) : (runOps inst ops).template = inst.template :=
  Runs.run_invariant (P := fun s : WorkflowInstance => s.template = inst.template)
    (fun _ op h => (applyOp_effect _ op).sameFrame.template.trans h) rfl ops

theorem Shape.reached (h : inst.Shape) (ops : List Op) : (runOps inst ops).Shape :=
  Runs.run_invariant (P := Shape) (fun _ op hs => hs.effect (applyOp_effect _ op)) h ops

/-- **Shape.** Every instance reached from a new one over a non-empty template has the shape of
that template. -/
theorem shape_of_reached (workflowId : WorkflowId) (template : WorkflowTemplate)
    (handoffPath : String) (now : DateTime) (ops : List Op) (hne : template.phases ≠ []) :
    (runOps (new workflowId template handoffPath now) ops).template = template ∧
      (runOps (new workflowId template handoffPath now) ops).Shape :=
  ⟨runOps_template ops, (shape_new workflowId handoffPath now hne).reached ops⟩

theorem shape_of_reached_implAudit :
    let ops : List Op := [.startPhase (fun _ => true) Int.ofNat, .completePhase Int.ofNat]
    (runOps (new "wf" implAuditDefault "handoff.md" 0) ops).template = implAuditDefault ∧
      (runOps (new "wf" implAuditDefault "handoff.md" 0) ops).Shape :=
  shape_of_reached "wf" implAuditDefault "handoff.md" 0 _ (by decide)

/-! ## Gate history -/

/-- A successful `advance` out of phase `i`: the phase is current and completed, and the call's
evaluator and file answers open the gates between it and the next phase. -/
structure LeavesThroughGates (inst : WorkflowInstance) (i : ℕ) (evaluator : GateEvaluator)
    (files : Files) (clk : Clock) : Prop where
  current : inst.currentPhaseIdx = i
  completed : ∃ p, inst.phaseStates[i]? = some p ∧ p.status = .completed
  succeeds : ∃ t, (inst.advance evaluator files clk).1 = .ok t
  gates : ∃ phase next, inst.template.phases[i]? = some phase ∧
    inst.template.phases[i + 1]? = some next ∧
    evaluator.Passes phase.exitGate ⟨inst.workflowId, phase.phaseId⟩ ∧
    evaluator.Passes next.entryGate ⟨inst.workflowId, next.phaseId⟩ ∧
    next.ArtifactsExist files

/-- The index moves in a successful `advance` only, by one. -/
theorem index_applyOp (h : inst.Shape) (op : Op)
    (hne : (applyOp inst op).currentPhaseIdx ≠ inst.currentPhaseIdx) :
    (applyOp inst op).currentPhaseIdx = inst.currentPhaseIdx + 1 ∧
      ∃ evaluator files clk, op = .advance evaluator files clk ∧
        inst.LeavesThroughGates inst.currentPhaseIdx evaluator files clk := by
  generalize hout : applyOp inst op = out at hne ⊢
  have heff := applyOp_effect inst op
  rw [hout] at heff
  cases heff with
  | refused | touched | refailed | finished | edited => exact absurd rfl hne
  | entered evaluator files clk p hp hs hf ho =>
    obtain ⟨q, hq⟩ := h.next hf
    refine ⟨by rw [enterPhase_some hq], evaluator, files, clk, rfl, rfl, ⟨p, hp, hs⟩, ?_, ?_⟩
    · rw [advance_open hp hs hf ho, enterPhase_some hq]
      exact ⟨_, rfl⟩
    · obtain ⟨p', phase, next, hp', hphase, hnext, hexit, hart, hentry⟩ := ho
      obtain ⟨phase', hphase', hid, -⟩ := h.templatePhase hp'
      obtain rfl : phase = phase' := Option.some.inj (hphase.symm.trans hphase')
      exact ⟨phase, next, hphase, hnext, by rw [hid]; exact hexit, hentry, hart⟩

/-- **Gate safety.** Every phase below the index of a reached instance was left by a successful
`advance` of the run through open gates. -/
theorem left_through_gates (workflowId : WorkflowId) (template : WorkflowTemplate)
    (handoffPath : String) (now : DateTime) (ops : List Op) (i : ℕ)
    (hne : template.phases ≠ [])
    (hi : i < (runOps (new workflowId template handoffPath now) ops).currentPhaseIdx) :
    ∃ pre evaluator files clk post, ops = pre ++ Op.advance evaluator files clk :: post ∧
      (runOps (new workflowId template handoffPath now) pre).LeavesThroughGates i evaluator
        files clk := by
  -- the step at which the index passes `i`
  obtain ⟨pre, op, post, hops, hbefore, hafter⟩ :=
    Runs.exists_step_of_change (Q := fun s : WorkflowInstance => i < s.currentPhaseIdx)
      (by simp [new]) hi
  change ¬ i < (runOps (new workflowId template handoffPath now) pre).currentPhaseIdx at hbefore
  change i < (applyOp (runOps (new workflowId template handoffPath now) pre) op).currentPhaseIdx
    at hafter
  have hshape := (shape_new workflowId handoffPath now hne).reached pre
  obtain ⟨hidx, evaluator, files, clk, rfl, hleaves⟩ :=
    index_applyOp hshape op (by omega)
  obtain rfl : (runOps (new workflowId template handoffPath now) pre).currentPhaseIdx = i := by
    omega
  exact ⟨pre, evaluator, files, clk, post, hops, hleaves⟩

theorem left_through_gates_implAudit :
    let ops : List Op := [.startPhase (fun _ => true) Int.ofNat, .completePhase Int.ofNat,
      .advance permissiveGateEvaluator (fun _ => true) Int.ofNat]
    ∃ pre evaluator files clk post, ops = pre ++ Op.advance evaluator files clk :: post ∧
      (runOps (new "wf" implAuditDefault "handoff.md" 0) pre).LeavesThroughGates 0 evaluator
        files clk :=
  left_through_gates "wf" implAuditDefault "handoff.md" 0 _ 0 (by decide) (by decide)

end WorkflowInstance

end Hymenium
