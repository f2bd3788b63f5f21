import Hymenium.Workflow.Steps
import Mathlib.Order.Lattice

/-!
# Timestamps of phases

The start, the completion and the failure reason of a phase are written by nine operations, two of
which jump over the active state. What they record follows the status of the phase as long as the
clock does not go back: `Stamped now` is the invariant, where `now` is the last reading so far.
-/

namespace Hymenium

/-- The clock of an operation. -/
def Op.clock : Op → Clock
  | .startPhase _ clk | .completePhase clk | .reconcileComplete clk | .reconcileFail _ clk
  | .failPhase _ clk | .incrementRetryCount clk | .recordToolFailure _ clk | .recordRequest _ clk
  | .advance _ _ clk | .completeWorkflow clk | .handoffToUserPhase _ _ clk
  | .resumeFromUserInput clk => clk

/-- The readings an operation can make: no operation makes more than three. -/
def Op.readings (op : Op) : List DateTime := [op.clock 0, op.clock 1, op.clock 2]

namespace PhaseState

/-- The timestamps and the failure reason of a phase match its status. -/
structure StampsMatch (p : PhaseState) : Prop where
  pending : p.status = .pending → p.startedAt = none ∧ p.completedAt = none
  running : p.status = .active ∨ p.status = .awaitingUserInput →
    p.startedAt.isSome ∧ p.completedAt = none
  done : p.status = .completed ∨ p.status = .failed →
    ∃ s c, p.startedAt = some s ∧ p.completedAt = some c ∧ s ≤ c
  reason : p.failureReason.isSome ↔ p.status = .failed

/-- The stamps match, and the phase did not start after `now`. -/
structure Stamped (now : DateTime) (p : PhaseState) : Prop extends StampsMatch p where
  started : ∀ s, p.startedAt = some s → s ≤ now

theorem stamped_new (now : DateTime) (phaseId : String) (role : AgentRole) :
    (new phaseId role).Stamped now :=
  ⟨⟨fun _ => ⟨rfl, rfl⟩, fun h => h.elim nofun nofun, fun h => h.elim nofun nofun,
    iff_of_false nofun nofun⟩, nofun⟩

variable {now t : DateTime} {p p' : PhaseState}

namespace Stamped

theorem mono (h : p.Stamped now) (hle : now ≤ t) : p.Stamped t :=
  ⟨h.toStampsMatch, fun s hs => (h.started s hs).trans hle⟩

/-- A phase with the same status, stamps and reason. -/
theorem congr (h : p.Stamped now) (hstatus : p'.status = p.status)
    (hstarted : p'.startedAt = p.startedAt) (hcompleted : p'.completedAt = p.completedAt)
    (hreason : p'.failureReason = p.failureReason) : p'.Stamped now := by
  refine ⟨⟨?_, ?_, ?_, ?_⟩, ?_⟩
  · rw [hstatus, hstarted, hcompleted]; exact h.pending
  · rw [hstatus, hstarted, hcompleted]; exact h.running
  · rw [hstatus, hstarted, hcompleted]; exact h.done
  · rw [hstatus, hreason]; exact h.reason
  · rw [hstarted]; exact h.started

/-- A phase that is not failed has no reason. -/
theorem reason_none (h : p.Stamped now) (hs : p.status ≠ .failed) : p.failureReason = none := by
  rw [← Option.not_isSome_iff_eq_none, h.reason]
  exact hs

theorem markActive (h : p.Stamped now) (hs : p.status = .pending) (t : DateTime) :
    (p.markActive t).Stamped t := by
  have hreason : p.failureReason = none := h.reason_none (by rw [hs]; nofun)
  refine ⟨⟨nofun, fun _ => ⟨rfl, (h.pending hs).2⟩, fun h => h.elim nofun nofun, ?_⟩, ?_⟩
  · show p.failureReason.isSome ↔ _
    rw [hreason]
    exact iff_of_false nofun nofun
  · intro s heq
    exact (Option.some.inj heq).ge

/-- Between the two running states the stamps stay. -/
theorem running_congr (h : p.Stamped now)
    (hs : p.status = .active ∨ p.status = .awaitingUserInput)
    (hs' : p'.status = .active ∨ p'.status = .awaitingUserInput)
    (hstarted : p'.startedAt = p.startedAt) (hcompleted : p'.completedAt = p.completedAt)
    (hreason : p'.failureReason = p.failureReason) : p'.Stamped now := by
  have hnone : p.failureReason = none :=
    h.reason_none (by rcases hs with hs | hs <;> rw [hs] <;> nofun)
  refine ⟨⟨?_, ?_, ?_, ?_⟩, ?_⟩
  · intro heq; rcases hs' with hs' | hs' <;> rw [hs'] at heq <;> cases heq
  · intro _; rw [hstarted, hcompleted]; exact h.running hs
  · rintro (heq | heq) <;> rcases hs' with hs' | hs' <;> rw [hs'] at heq <;> cases heq
  · rw [hreason, hnone]
    exact iff_of_false nofun (by rcases hs' with hs' | hs' <;> rw [hs'] <;> nofun)
  · rw [hstarted]; exact h.started

theorem markCompleted (h : p.Stamped now)
    (hs : p.status = .active ∨ p.status = .awaitingUserInput) (hle : now ≤ t) :
    (p.markCompleted t).Stamped t := by
  obtain ⟨s, hstarted⟩ := Option.isSome_iff_exists.mp (h.running hs).1
  have hreason : p.failureReason = none :=
    h.reason_none (by rcases hs with hs | hs <;> rw [hs] <;> nofun)
  refine ⟨⟨nofun, fun h => h.elim nofun nofun, fun _ => ⟨s, t, hstarted, rfl, ?_⟩, ?_⟩, ?_⟩
  · exact (h.started s hstarted).trans hle
  · show p.failureReason.isSome ↔ _
    rw [hreason]
    exact iff_of_false nofun nofun
  · exact fun s heq => (h.started s heq).trans hle

/-- A running phase fails with a reason. -/
theorem fail (h : p.Stamped now) (hs : p.status = .active ∨ p.status = .awaitingUserInput)
    (reason : String) (hle : now ≤ t) :
    (({ p with failureReason := some reason }).markFailed t).Stamped t := by
  obtain ⟨s, hstarted⟩ := Option.isSome_iff_exists.mp (h.running hs).1
  refine ⟨⟨nofun, fun h => h.elim nofun nofun, fun _ => ⟨s, t, hstarted, rfl, ?_⟩,
    iff_of_true rfl rfl⟩, ?_⟩
  · exact (h.started s hstarted).trans hle
  · exact fun s heq => (h.started s heq).trans hle

end Stamped

end PhaseState

namespace WorkflowInstance

/-- Every phase is stamped. -/
def AllStamped (now : DateTime) (inst : WorkflowInstance) : Prop :=
  ∀ p ∈ inst.phaseStates, p.Stamped now

variable {inst : WorkflowInstance} {now t : DateTime} {p : PhaseState}

theorem allStamped_new (workflowId : WorkflowId) (template : WorkflowTemplate)
    (handoffPath : String) (now : DateTime) :
    (new workflowId template handoffPath now).AllStamped now := by
  intro p hp
  obtain ⟨phase, -, rfl⟩ := List.mem_map.mp hp
  exact PhaseState.stamped_new _ _ _

theorem AllStamped.mono (h : inst.AllStamped now) (hle : now ≤ t) : inst.AllStamped t :=
  fun p hp => (h p hp).mono hle

theorem AllStamped.current (h : inst.AllStamped now) (hp : inst.currentPhase = some p) :
    p.Stamped now := h p (List.mem_of_getElem? hp)

/-- The current phase is replaced by one stamped later. -/
theorem AllStamped.modify (h : inst.AllStamped now) (hle : now ≤ t) {f : PhaseState → PhaseState}
    (hp : inst.currentPhase = some p) (hf : (f p).Stamped t) :
    (inst.modifyCurrent f).AllStamped t := by
  rw [modifyCurrent_eq f hp]
  intro q hq
  rcases List.mem_or_eq_of_mem_set hq with hold | rfl
  · exact (h q hold).mono hle
  · exact hf

/-! ## One operation -/

section Step

variable {clk : Clock} (h : inst.AllStamped now) (h0 : now ≤ clk 0) (h1 : clk 0 ≤ clk 1)
  (h2 : clk 1 ≤ clk 2)

include h h0 h1 h2

theorem allStamped_startPhase (files : Files) : (inst.startPhase files clk).2.AllStamped (clk 2) := by
  have hkept : inst.AllStamped (clk 2) := h.mono ((h0.trans h1).trans h2)
  unfold startPhase
  cases hp : inst.currentPhase with
  | none => exact hkept
  | some p =>
    dsimp only
    split_ifs with hs
    · exact hkept
    split
    · exact hkept
    split
    · exact hkept
    · have hactive := (h.current hp).markActive (not_not.mp hs) (clk 0)
      exact h.modify ((h0.trans h1).trans h2) hp (hactive.mono (h1.trans h2))

theorem allStamped_completePhase : (inst.completePhase clk).2.AllStamped (clk 2) := by
  have hkept : inst.AllStamped (clk 2) := h.mono ((h0.trans h1).trans h2)
  unfold completePhase
  cases hp : inst.currentPhase with
  | none => exact hkept
  | some p =>
    dsimp only
    split_ifs with hs
    · exact hkept
    · have hdone := (h.current hp).markCompleted (.inl (not_not.mp hs)) h0
      exact h.modify ((h0.trans h1).trans h2) hp (hdone.mono (h1.trans h2))

theorem allStamped_reconcileComplete :
    (inst.reconcileCompleteCurrentPhase clk).2.AllStamped (clk 2) := by
  have hlast : now ≤ clk 2 := (h0.trans h1).trans h2
  have hkept : inst.AllStamped (clk 2) := h.mono hlast
  unfold reconcileCompleteCurrentPhase
  cases hp : inst.currentPhase with
  | none => exact hkept
  | some p =>
    dsimp only
    cases hs : p.status with
    | pending =>
      -- both stamps in one call, in the order of the readings
      have hactive := (h.current hp).markActive hs (clk 0)
      exact h.modify hlast hp ((hactive.markCompleted (.inl rfl) h1).mono h2)
    | active =>
      have hdone := (h.current hp).markCompleted (.inl hs) h0
      exact h.modify hlast hp (hdone.mono (h1.trans h2))
    | awaitingUserInput =>
      have hdone := (h.current hp).markCompleted (.inr hs) h0
      exact h.modify hlast hp (hdone.mono (h1.trans h2))
    | completed | failed | skipped => exact hkept

theorem allStamped_reconcileFail (reason : String) :
    (inst.reconcileFailCurrentPhase reason clk).2.AllStamped (clk 2) := by
  have hlast : now ≤ clk 2 := (h0.trans h1).trans h2
  have hkept : inst.AllStamped (clk 2) := h.mono hlast
  unfold reconcileFailCurrentPhase
  cases hp : inst.currentPhase with
  | none => exact hkept
  | some p =>
    dsimp only
    cases hs : p.status with
    | pending =>
      have hactive := (h.current hp).markActive hs (clk 0)
      exact h.modify hlast hp ((hactive.fail (.inl rfl) reason h1).mono h2)
    | active =>
      have hfailed := (h.current hp).fail (.inl hs) reason h0
      exact h.modify hlast hp (hfailed.mono (h1.trans h2))
    | awaitingUserInput =>
      have hfailed := (h.current hp).fail (.inr hs) reason h0
      exact h.modify hlast hp (hfailed.mono (h1.trans h2))
    | completed | failed | skipped => exact hkept

theorem allStamped_failPhase (reason : String) :
    (inst.failPhase reason clk).2.AllStamped (clk 2) := by
  have hkept : inst.AllStamped (clk 2) := h.mono ((h0.trans h1).trans h2)
  unfold failPhase
  cases hp : inst.currentPhase with
  | none => exact hkept
  | some p =>
    dsimp only
    split_ifs with hs
    · exact hkept
    · have hfailed := (h.current hp).fail (.inl (not_not.mp hs)) reason h0
      exact h.modify ((h0.trans h1).trans h2) hp (hfailed.mono (h1.trans h2))

theorem allStamped_incrementRetryCount :
    (inst.incrementRetryCount clk).2.AllStamped (clk 2) := by
  have hlast : now ≤ clk 2 := (h0.trans h1).trans h2
  unfold incrementRetryCount
  cases hp : inst.currentPhase with
  | none => exact h.mono hlast
  | some p =>
    dsimp only
    split_ifs with hs
    · exact h.mono hlast
    · exact h.modify hlast hp (((h.current hp).mono hlast).congr rfl rfl rfl rfl)

theorem allStamped_recordAgainst {counter : CeilingCounter}
    (hc : counter = toolFailureCounter ∨ counter = requestCounter) (ceiling : UInt32) :
    (inst.recordAgainst counter ceiling clk).2.AllStamped (clk 2) := by
  have hlast : now ≤ clk 2 := (h0.trans h1).trans h2
  unfold recordAgainst
  cases hp : inst.currentPhase with
  | none => exact h.mono hlast
  | some p =>
    dsimp only
    have hcounted : ∀ n, (counter.set p n).Stamped now := by
      intro n
      rcases hc with rfl | rfl <;> exact (h.current hp).congr rfl rfl rfl rfl
    split_ifs with hs hn
    · exact h.mono hlast
    · have hactive : (counter.set p (saturatingSucc (counter.get p))).status = .active := by
        rcases hc with rfl | rfl <;> exact not_not.mp hs
      have hfailed := (hcounted (saturatingSucc (counter.get p))).fail (.inl hactive)
        s!"{counter.exceeded}: {saturatingSucc (counter.get p)} {counter.counted} reached ceiling of {ceiling}"
        h0
      exact h.modify hlast hp (hfailed.mono (h1.trans h2))
    · exact h.modify hlast hp ((hcounted _).mono hlast)

theorem allStamped_handoffToUserPhase (message : String) (breakout : Bool) :
    (inst.handoffToUserPhase message breakout clk).2.AllStamped (clk 2) := by
  have hlast : now ≤ clk 2 := (h0.trans h1).trans h2
  unfold handoffToUserPhase
  cases hp : inst.currentPhase with
  | none => exact h.mono hlast
  | some p =>
    dsimp only
    split_ifs with hs hb
    · exact h.mono hlast
    · have hfailed := (h.current hp).fail (.inl (not_not.mp hs)) message h0
      exact h.modify hlast hp (hfailed.mono (h1.trans h2))
    · exact h.modify hlast hp (((h.current hp).mono hlast).running_congr
        (.inl (not_not.mp hs)) (.inr rfl) rfl rfl rfl)

theorem allStamped_resumeFromUserInput :
    (inst.resumeFromUserInput clk).2.AllStamped (clk 2) := by
  have hlast : now ≤ clk 2 := (h0.trans h1).trans h2
  unfold resumeFromUserInput
  split_ifs with hw
  · exact h.mono hlast
  cases hp : inst.currentPhase with
  | none => exact h.mono hlast
  | some p =>
    dsimp only
    split_ifs with hs
    · exact h.mono hlast
    · exact h.modify hlast hp (((h.current hp).mono hlast).running_congr
        (.inr (not_not.mp hs)) (.inl rfl) rfl rfl rfl)

/-- **Step lemma.** An operation whose clock does not go back keeps every phase stamped. -/
theorem allStamped_applyOp {op : Op} (hop : op.clock = clk) :
    (applyOp inst op).AllStamped (clk 2) := by
  subst hop
  have hlast : now ≤ op.clock 2 := (h0.trans h1).trans h2
  cases op with
  | startPhase files clk => exact allStamped_startPhase h h0 h1 h2 files
  | completePhase clk => exact allStamped_completePhase h h0 h1 h2
  | reconcileComplete clk => exact allStamped_reconcileComplete h h0 h1 h2
  | reconcileFail reason clk => exact allStamped_reconcileFail h h0 h1 h2 reason
  | failPhase reason clk => exact allStamped_failPhase h h0 h1 h2 reason
  | incrementRetryCount clk => exact allStamped_incrementRetryCount h h0 h1 h2
  | recordToolFailure ceiling clk => exact allStamped_recordAgainst h h0 h1 h2 (.inl rfl) ceiling
  | recordRequest ceiling clk => exact allStamped_recordAgainst h h0 h1 h2 (.inr rfl) ceiling
  | handoffToUserPhase message breakout clk =>
    exact allStamped_handoffToUserPhase h h0 h1 h2 message breakout
  | resumeFromUserInput clk => exact allStamped_resumeFromUserInput h h0 h1 h2
  | advance evaluator files clk =>
    show ∀ p ∈ (inst.advance evaluator files clk).2.phaseStates, p.Stamped (clk 2)
    rw [phaseStates_advance]
    exact h.mono hlast
  | completeWorkflow clk =>
    show (inst.completeWorkflow clk).2.AllStamped (clk 2)
    unfold completeWorkflow
    cases inst.currentPhase with
    | none => exact h.mono hlast
    | some p => dsimp only; split_ifs <;> exact h.mono hlast

end Step

/-! ## Runs -/

/-- A run under a clock that does not go back keeps every phase stamped. -/
theorem AllStamped.reached (h : inst.AllStamped now) (ops : List Op)
    (hclk : (now :: ops.flatMap Op.readings).Pairwise (· ≤ ·)) :
    ∃ last, (runOps inst ops).AllStamped last := by
  induction ops generalizing inst now with
  | nil => exact ⟨now, h⟩
  | cons op ops ih =>
    rw [List.flatMap_cons, Op.readings, List.cons_append, List.cons_append, List.cons_append,
      List.nil_append] at hclk
    obtain ⟨hnow, hclk⟩ := List.pairwise_cons.mp hclk
    obtain ⟨hfirst, hclk⟩ := List.pairwise_cons.mp hclk
    obtain ⟨hsecond, hclk⟩ := List.pairwise_cons.mp hclk
    have h0 : now ≤ op.clock 0 := hnow _ List.mem_cons_self
    have h1 : op.clock 0 ≤ op.clock 1 := hfirst _ List.mem_cons_self
    have h2 : op.clock 1 ≤ op.clock 2 := hsecond _ List.mem_cons_self
    exact ih (allStamped_applyOp h h0 h1 h2 rfl) hclk

/-- **Timestamps.** In every state a run reaches from a new instance under a clock that does not go
back, the stamps and the failure reason of every phase match its status, and a phase that is done has
a duration that is not negative. -/
theorem stampsMatch_of_reached (workflowId : WorkflowId) (template : WorkflowTemplate)
    (handoffPath : String) (now : DateTime) (ops : List Op)
    (hclk : (now :: ops.flatMap Op.readings).Pairwise (· ≤ ·)) :
    let inst := runOps (new workflowId template handoffPath now) ops
    ∀ (i : ℕ) (p : PhaseState), inst.phaseStates[i]? = some p →
      p.StampsMatch ∧ (p.status = .completed ∨ p.status = .failed →
        ∃ d, inst.phaseDuration i = some d ∧ 0 ≤ d) := by
  intro inst i p hp
  obtain ⟨last, hall⟩ := (allStamped_new workflowId template handoffPath now).reached ops hclk
  have hmatch : p.StampsMatch := (hall p (List.mem_of_getElem? hp)).toStampsMatch
  refine ⟨hmatch, fun hdone => ?_⟩
  obtain ⟨s, c, hstarted, hcompleted, hle⟩ := hmatch.done hdone
  refine ⟨c - s, ?_, Int.sub_nonneg_of_le hle⟩
  unfold phaseDuration
  simp only [hp, Option.bind_eq_bind, Option.bind_some, hstarted, hcompleted]
  rfl

/-- The first phase is started, paused, and completed by Canopy. -/
theorem stampsMatch_of_reached_paused :
    let ops : List Op := [.startPhase (fun _ => true) fun k => k + 1,
      .handoffToUserPhase "which branch?" false fun k => k + 10, .reconcileComplete fun k => k + 20]
    let inst := runOps (new "wf" implAuditDefault "handoff.md" 0) ops
    ∀ (i : ℕ) (p : PhaseState), inst.phaseStates[i]? = some p →
      p.StampsMatch ∧ (p.status = .completed ∨ p.status = .failed →
        ∃ d, inst.phaseDuration i = some d ∧ 0 ≤ d) :=
  stampsMatch_of_reached "wf" implAuditDefault "handoff.md" 0 _ (by decide)

end WorkflowInstance

end Hymenium
