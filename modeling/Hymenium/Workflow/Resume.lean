import Hymenium.Workflow.Shape

/-!
# Pausing and resuming

`resumeFromUserInput` does not restore what `handoffToUserPhase` found, it writes fixed values: an
active phase without a message, in a workflow in progress. A pause is undone by a resume because
these are the values of every active phase that can be reached (`RunningInvariant`).
-/

namespace Hymenium

namespace WorkflowInstance

/-- An active current phase has no message, and its workflow is in progress; a phase that was not
started has no message, and nothing after the current phase was started. -/
structure RunningInvariant (inst : WorkflowInstance) : Prop where
  pending : ∀ p, inst.currentPhase = some p → p.status = .pending → p.pendingMessage = none
  active : ∀ p, inst.currentPhase = some p → p.status = .active →
    p.pendingMessage = none ∧ inst.status = .inProgress
  after : ∀ i > inst.currentPhaseIdx, ∀ p, inst.phaseStates[i]? = some p →
    p.status = .pending ∧ p.pendingMessage = none

theorem runningInvariant_new (workflowId : WorkflowId) (template : WorkflowTemplate)
    (handoffPath : String) (now : DateTime) :
    (new workflowId template handoffPath now).RunningInvariant := by
  have hphase : ∀ (i : ℕ) (p : PhaseState),
      (new workflowId template handoffPath now).phaseStates[i]? = some p →
      p.status = .pending ∧ p.pendingMessage = none := by
    intro i p hp
    obtain ⟨phase, -, rfl⟩ := List.mem_map.mp (List.mem_of_getElem? hp)
    exact ⟨rfl, rfl⟩
  refine ⟨fun p hp _ => (hphase 0 p hp).2, fun p hp hs => ?_, fun i _ => hphase i⟩
  cases (hphase 0 p hp).1.symm.trans hs

variable {inst out : WorkflowInstance} {op : Op} {p p' : PhaseState} {ws ws' : WorkflowStatus}

/-- An edit leaves a phase active only without a message, and in a workflow in progress. -/
theorem Edit.running (he : Edit p ws p' ws')
    (hpending : p.status = .pending → p.pendingMessage = none)
    (hactive : p.status = .active → p.pendingMessage = none ∧ ws = .inProgress) :
    (p'.status = .pending → p'.pendingMessage = none) ∧
      (p'.status = .active → p'.pendingMessage = none ∧ ws' = .inProgress) := by
  cases he with
  | start t h => exact ⟨nofun, fun _ => ⟨hpending h, rfl⟩⟩
  | complete | completePending | fail | failPending | pause | terminate => exact ⟨nofun, nofun⟩
  | retry h => exact ⟨hpending, hactive⟩
  | resume => exact ⟨nofun, fun _ => ⟨rfl, rfl⟩⟩
  | count counter h hc => rcases hc with rfl | rfl <;> exact ⟨hpending, hactive⟩
  | exceed => exact ⟨nofun, nofun⟩

namespace RunningInvariant

theorem edited (h : inst.RunningInvariant) (hp : inst.currentPhase = some p)
    (he : Edit p inst.status p' ws') (t : DateTime) :
    RunningInvariant { inst with
      phaseStates := inst.phaseStates.set inst.currentPhaseIdx p'
      status := ws'
      updatedAt := t } := by
  obtain ⟨hpending, hactive⟩ := he.running (h.pending p hp) (h.active p hp)
  have hlt : inst.currentPhaseIdx < inst.phaseStates.length := (List.getElem?_eq_some_iff.mp hp).1
  have hcur : (inst.phaseStates.set inst.currentPhaseIdx p')[inst.currentPhaseIdx]? = some p' :=
    List.getElem?_set_self hlt
  refine ⟨fun q hq => ?_, fun q hq => ?_, fun i hi q hq => ?_⟩
  · cases hcur.symm.trans hq
    exact hpending
  · cases hcur.symm.trans hq
    exact hactive
  · have hne : inst.currentPhaseIdx ≠ i := Nat.ne_of_lt hi
    exact h.after i hi q (by simpa [List.getElem?_set, hne] using hq)

/-- The phase that is entered was not started. -/
theorem entered (h : inst.RunningInvariant) (fromPhaseId : String) (clk : Clock) :
    (inst.enterPhase fromPhaseId (inst.currentPhaseIdx + 1) clk).2.RunningInvariant := by
  have hnext : ∀ q, inst.phaseStates[inst.currentPhaseIdx + 1]? = some q →
      q.status = .pending ∧ q.pendingMessage = none := h.after _ (Nat.lt_succ_self _)
  have hafter : ∀ i > inst.currentPhaseIdx + 1, ∀ q, inst.phaseStates[i]? = some q →
      q.status = .pending ∧ q.pendingMessage = none :=
    fun i hi => h.after i (lt_trans (Nat.lt_succ_self _) hi)
  unfold enterPhase
  dsimp only
  split
  · refine ⟨fun q hq _ => (hnext q hq).2, fun q hq hs => ?_, hafter⟩
    cases (hnext q hq).1.symm.trans hs
  · refine ⟨fun q hq _ => (hnext q hq).2, fun q hq hs => ?_, hafter⟩
    cases (hnext q hq).1.symm.trans hs

/-- Every effect of an operation keeps the invariant. -/
theorem effect (h : inst.RunningInvariant) (he : Effect inst op out) : out.RunningInvariant := by
  cases he with
  | refused | touched => exact ⟨h.pending, h.active, h.after⟩
  | refailed _ p t hp hs | finished _ p t hp hs =>
    refine ⟨h.pending, fun q hq hactive => ?_, h.after⟩
    -- the current phase is done, so it is not active
    cases hp.symm.trans hq
    cases hs.symm.trans hactive
  | edited _ p p' ws' t hp he => exact h.edited hp he t
  | entered evaluator files clk p => exact h.entered p.phaseId clk

theorem reached (h : inst.RunningInvariant) (ops : List Op) : (runOps inst ops).RunningInvariant :=
  Runs.run_invariant (P := RunningInvariant) (fun _ op hs => hs.effect (applyOp_effect _ op)) h ops

end RunningInvariant

/-- A pause without a breakout is written down in the phase and in the workflow. -/
theorem handoffToUserPhase_active (hp : inst.currentPhase = some p) (hs : p.status = .active)
    (message : String) (clk : Clock) :
    inst.handoffToUserPhase message false clk = (.ok (), { inst with
      phaseStates := inst.phaseStates.set inst.currentPhaseIdx
        { p with pendingMessage := some message, status := .awaitingUserInput }
      status := .awaitingUserInput
      updatedAt := clk 0 }) := by
  unfold handoffToUserPhase
  simp only [hp, hs, ne_eq, not_true_eq_false, if_false, Bool.false_eq_true, modifyCurrent_eq _ hp]

theorem resumeFromUserInput_paused (hw : inst.status = .awaitingUserInput)
    (hp : inst.currentPhase = some p) (hs : p.status = .awaitingUserInput) (clk : Clock) :
    inst.resumeFromUserInput clk = (.ok (), { inst with
      phaseStates := inst.phaseStates.set inst.currentPhaseIdx
        { p with pendingMessage := none, status := .active }
      status := .inProgress
      updatedAt := clk 0 }) := by
  unfold resumeFromUserInput
  simp only [hw, hp, hs, ne_eq, not_true_eq_false, if_false, modifyCurrent_eq _ hp]

/-- Resuming undoes a pause of an instance whose active phase has the values a resume writes. -/
theorem RunningInvariant.exists_resumed (h : inst.RunningInvariant) (hp : inst.currentPhase = some p)
    (hs : p.status = .active) (message : String) (clk clk' : Clock) :
    ∃ paused, inst.handoffToUserPhase message false clk = (.ok (), paused) ∧
      paused.resumeFromUserInput clk' = (.ok (), { inst with updatedAt := clk' 0 }) := by
  obtain ⟨hmessage, hstatus⟩ := h.active p hp hs
  obtain ⟨hlt, hget⟩ := List.getElem?_eq_some_iff.mp hp
  let p' : PhaseState := { p with pendingMessage := some message, status := .awaitingUserInput }
  let paused : WorkflowInstance := { inst with
    phaseStates := inst.phaseStates.set inst.currentPhaseIdx p'
    status := .awaitingUserInput
    updatedAt := clk 0 }
  have hpaused : paused.currentPhase = some p' := List.getElem?_set_self hlt
  refine ⟨paused, handoffToUserPhase_active hp hs message clk, ?_⟩
  rw [resumeFromUserInput_paused rfl hpaused rfl]
  -- what the resume writes is what the pause found
  have hphase : ({ p' with pendingMessage := none, status := .active } : PhaseState) = p := by
    show ({ p with pendingMessage := none, status := .active } : PhaseState) = p
    rw [← hmessage, ← hs]
  have hphases : paused.phaseStates.set paused.currentPhaseIdx p = inst.phaseStates := by
    show (inst.phaseStates.set inst.currentPhaseIdx p').set inst.currentPhaseIdx p = _
    rw [List.set_set, ← hget, List.set_getElem_self]
  rw [hphase, hphases, ← hstatus]

/-- **A pause leaves no trace.** In every state that a run reaches with an active current phase, the
workflow is in progress, and a pause followed by a resume succeeds and gives back the same instance
but for the time of its last update. -/
theorem resume_pause (workflowId : WorkflowId) (template : WorkflowTemplate) (handoffPath : String)
    (now : DateTime) (ops : List Op) (message : String) (clk clk' : Clock)
    (hactive : (runOps (new workflowId template handoffPath now) ops).currentPhase.map (·.status) =
      some .active) :
    (runOps (new workflowId template handoffPath now) ops).status = .inProgress ∧
      ∃ paused t, (runOps (new workflowId template handoffPath now) ops).handoffToUserPhase message
          false clk = (.ok (), paused) ∧
        paused.resumeFromUserInput clk' = (.ok (),
          { runOps (new workflowId template handoffPath now) ops with updatedAt := t }) := by
  have hinv := (runningInvariant_new workflowId template handoffPath now).reached ops
  obtain ⟨p, hp, hs⟩ := Option.map_eq_some_iff.mp hactive
  obtain ⟨paused, hpause, hresume⟩ := hinv.exists_resumed hp hs message clk clk'
  exact ⟨(hinv.active p hp hs).2, paused, clk' 0, hpause, hresume⟩

theorem resume_pause_started :
    let ops : List Op := [.startPhase (fun _ => true) Int.ofNat, .recordRequest 5 Int.ofNat]
    (runOps (new "wf" implAuditDefault "handoff.md" 0) ops).status = .inProgress ∧
      ∃ paused t, (runOps (new "wf" implAuditDefault "handoff.md" 0) ops).handoffToUserPhase
          "Which database?" false Int.ofNat = (.ok (), paused) ∧
        paused.resumeFromUserInput Int.ofNat = (.ok (),
          { runOps (new "wf" implAuditDefault "handoff.md" 0) ops with updatedAt := t }) :=
  resume_pause "wf" implAuditDefault "handoff.md" 0 _ "Which database?" Int.ofNat Int.ofNat
    (by decide +kernel)

end WorkflowInstance

end Hymenium
