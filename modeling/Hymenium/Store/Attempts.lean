import Hymenium.Store.Outcome
import Hymenium.Workflow.Steps
import Mathlib.Data.List.Basic

/-!
# What an outcome counts

The attempts and the route of an outcome (`WorkflowOutcome::build` in `src/outcome.rs`) against the
phases that ran. The attempts are summed over every phase, the pending ones included, in `u32`.
-/

namespace Hymenium

/-- The attempts of a phase: its first dispatch and its retries. -/
def PhaseState.attempts (p : PhaseState) : ℕ := p.retryCount.toNat + 1

/-- The attempts of a list of phases. -/
def totalAttempts (phases : List PhaseState) : ℕ := (phases.map PhaseState.attempts).sum

@[simp] theorem totalAttempts_nil : totalAttempts [] = 0 := rfl

@[simp] theorem totalAttempts_cons (p : PhaseState) (phases : List PhaseState) :
    totalAttempts (p :: phases) = p.attempts + totalAttempts phases := List.sum_cons

/-- The phases an outcome lists in its route. -/
def WorkflowInstance.ran (inst : WorkflowInstance) : List PhaseState :=
  inst.phaseStates.filter (·.status ≠ .pending)

/-! ## The sum -/

theorem checkedAdd_eq_some_iff {a b c : UInt32} :
    checkedAdd a b = some c ↔ c.toNat = a.toNat + b.toNat := by
  unfold checkedAdd
  constructor
  · intro h
    split_ifs at h with hlt
    rw [← Option.some.inj h, UInt32.toNat_add]
    exact Nat.mod_eq_of_lt hlt
  · intro h
    have hlt : a.toNat + b.toNat < 2 ^ 32 := h ▸ c.toNat_lt
    rw [if_pos hlt, Option.some.injEq]
    refine UInt32.toNat_inj.mp ?_
    rw [h, UInt32.toNat_add]
    exact Nat.mod_eq_of_lt hlt

theorem exists_toNat_eq {k : ℕ} (h : k < 2 ^ 32) : ∃ n : UInt32, n.toNat = k :=
  ⟨.ofNat k, UInt32.toNat_ofNat_of_lt' h⟩

/-- The checked sum is the sum of the attempts, where that fits. -/
theorem foldlM_checkedAdd {phases : List PhaseState} {sum n : UInt32} :
    phases.foldlM (fun sum p => (checkedAdd p.retryCount 1).bind (checkedAdd sum)) sum = some n ↔
      n.toNat = sum.toNat + totalAttempts phases := by
  induction phases generalizing sum with
  | nil =>
    rw [List.foldlM_nil, totalAttempts_nil, Nat.add_zero]
    exact ⟨fun h => by cases h; rfl, fun h => congrArg some (UInt32.toNat_inj.mp h.symm)⟩
  | cons p phases ih =>
    rw [List.foldlM_cons, totalAttempts_cons, Option.bind_eq_bind, Option.bind_eq_some_iff]
    unfold PhaseState.attempts
    simp only [Option.bind_eq_some_iff, checkedAdd_eq_some_iff, ih, UInt32.reduceToNat]
    constructor
    · rintro ⟨next, ⟨attempts, hattempts, hnext⟩, hn⟩
      omega
    · intro hn
      have hlt := n.toNat_lt
      obtain ⟨attempts, hattempts⟩ := exists_toNat_eq (k := p.retryCount.toNat + 1) (by omega)
      obtain ⟨next, hnext⟩ := exists_toNat_eq (k := sum.toNat + attempts.toNat) (by omega)
      exact ⟨next, ⟨attempts, hattempts, hnext⟩, by omega⟩

theorem attemptSum_eq_some_iff {phases : List PhaseState} {n : UInt32} :
    attemptSum phases = some n ↔ n.toNat = totalAttempts phases := by
  unfold attemptSum
  rw [foldlM_checkedAdd, UInt32.toNat_zero, Nat.zero_add]

theorem attemptSum_isSome_iff {phases : List PhaseState} :
    (attemptSum phases).isSome ↔ totalAttempts phases < 2 ^ 32 := by
  rw [Option.isSome_iff_exists]
  constructor
  · rintro ⟨n, hn⟩
    rw [← attemptSum_eq_some_iff.mp hn]
    exact n.toNat_lt
  · intro hlt
    obtain ⟨n, hn⟩ := exists_toNat_eq hlt
    exact ⟨n, attemptSum_eq_some_iff.mpr hn⟩

/-! ## The record -/

/-- The outcome counts and lists the phases that ran, and has a failure type when it is failed. -/
structure WorkflowOutcome.CountsWhatRan (inst : WorkflowInstance) (outcome : WorkflowOutcome) :
    Prop where
  attempts : outcome.attemptCount.toNat = max 1 (totalAttempts inst.ran)
  route : outcome.routeTaken.map (fun step => (step.phaseId, step.role)) =
    inst.ran.map fun p => (p.phaseId, p.role)
  failure : outcome.failureType = none ↔ outcome.terminalStatus ≠ .failed

/-- Every phase ran, or there is one attempt at most to count. -/
def WorkflowInstance.AttemptsRan (inst : WorkflowInstance) : Prop :=
  (∀ p ∈ inst.phaseStates, p.status ≠ .pending) ∨ totalAttempts inst.phaseStates ≤ 1

/-- A failure comes with a failed workflow. -/
def WorkflowInstance.Explained (inst : WorkflowInstance) (failure : Option FailureKind) : Prop :=
  failure = none ∨ inst.status.toTerminal = .failed

variable {inst : WorkflowInstance}

/-- Pending phases count as attempts that the route does not list. -/
theorem totalAttempts_ran (inst : WorkflowInstance) :
    totalAttempts inst.ran + totalAttempts (inst.phaseStates.filter (·.status = .pending)) =
      totalAttempts inst.phaseStates := by
  unfold WorkflowInstance.ran
  induction inst.phaseStates with
  | nil => rfl
  | cons p phases ih =>
    by_cases hp : p.status = .pending
    · rw [List.filter_cons_of_neg (by simp [hp]), List.filter_cons_of_pos (by simp [hp]),
        totalAttempts_cons, totalAttempts_cons, ← ih]
      omega
    · rw [List.filter_cons_of_pos (by simp [hp]), List.filter_cons_of_neg (by simp [hp]),
        totalAttempts_cons, totalAttempts_cons, ← ih]
      omega

theorem length_le_totalAttempts (phases : List PhaseState) :
    phases.length ≤ totalAttempts phases := by
  induction phases with
  | nil => rfl
  | cons p phases ih =>
    rw [List.length_cons, totalAttempts_cons]
    unfold PhaseState.attempts
    omega

/-- The two counts agree when nothing is pending. -/
theorem max_totalAttempts_iff :
    max 1 (totalAttempts inst.phaseStates) = max 1 (totalAttempts inst.ran) ↔
      inst.AttemptsRan := by
  have hsplit := totalAttempts_ran inst
  have hlength := length_le_totalAttempts (inst.phaseStates.filter (·.status = .pending))
  unfold WorkflowInstance.AttemptsRan
  constructor
  · intro heq
    by_cases hone : totalAttempts inst.phaseStates ≤ 1
    · exact .inr hone
    · refine .inl fun p hp hpending => ?_
      have hmem : p ∈ inst.phaseStates.filter (·.status = .pending) :=
        List.mem_filter.mpr ⟨hp, decide_eq_true hpending⟩
      have hpos := List.length_pos_of_mem hmem
      omega
  · rintro (hran | hone)
    · have hall : inst.ran = inst.phaseStates :=
        List.filter_eq_self.mpr fun p hp => decide_eq_true (hran p hp)
      rw [hall]
    · omega

theorem failureType_eq_none_iff (status : TerminalStatus) (failure : Option FailureKind) :
    (((failure.map FailureKind.toTerminalFailureType).or
        (if status = .failed then some .unknown else none)) = none ↔ status ≠ .failed) ↔
      (failure = none ∨ status = .failed) := by
  cases failure with
  | none => by_cases h : status = .failed <;> simp [h]
  | some kind => by_cases h : status = .failed <;> simp [h]

/-- **What an outcome counts.** An outcome is built without overflow, and counts what ran, exactly
when the attempts of all phases fit in `u32`, nothing that never ran is counted among them, and a
failure is only given for a failed workflow. -/
theorem build_countsWhatRan_iff (inst : WorkflowInstance) (failure : Option FailureKind)
    (now : DateTime) :
    (∃ outcome, WorkflowOutcome.build inst failure now = some outcome ∧
        outcome.CountsWhatRan inst) ↔
      totalAttempts inst.phaseStates < 2 ^ 32 ∧ inst.AttemptsRan ∧ inst.Explained failure := by
  rw [← attemptSum_isSome_iff, ← max_totalAttempts_iff]
  unfold WorkflowOutcome.build
  cases hsum : attemptSum inst.phaseStates with
  | none => simp
  | some n =>
    have hn := attemptSum_eq_some_iff.mp hsum
    have hclamp : (if n = 0 then 1 else n).toNat = max 1 (totalAttempts inst.phaseStates) := by
      rw [← hn]
      split_ifs with hzero
      · rw [hzero]
        rfl
      · have hpos : n.toNat ≠ 0 := fun h => hzero (UInt32.toNat_inj.mp h)
        omega
    have hfailure := failureType_eq_none_iff inst.status.toTerminal failure
    constructor
    · rintro ⟨outcome, hbuild, hcounts⟩
      cases hbuild
      exact ⟨rfl, hclamp.symm.trans hcounts.attempts, hfailure.mp hcounts.failure⟩
    · rintro ⟨-, hattempts, hexplained⟩
      refine ⟨_, rfl, hclamp.trans hattempts, ?_, hfailure.mpr hexplained⟩
      rw [List.map_map]
      rfl

/-- A first phase fails: the second one, which never ran, is counted. -/
theorem unran_phase_counted :
    let inst := runOps (.new "wf" implAuditDefault "handoff.md" 0)
      [.startPhase (fun _ => true) Int.ofNat, .failPhase "tests fail" Int.ofNat]
    inst.status = .failed ∧ ∃ outcome, WorkflowOutcome.build inst none 0 = some outcome ∧
      outcome.routeTaken.length = 1 ∧ totalAttempts inst.ran = 1 ∧ outcome.attemptCount = 2 ∧
      ¬ outcome.CountsWhatRan inst := by
  intro inst
  refine ⟨by decide, _, rfl, by decide, by decide, by decide, fun h => ?_⟩
  exact absurd h.attempts (by decide)

/-! ## Retries up to the largest count -/

/-- A clock that stands still. -/
def frozenClock : Clock := fun _ => 0

/-- The default workflow in its first phase, after some retries. -/
def retried (retryCount : UInt32) : WorkflowInstance :=
  let started := applyOp (.new "wf" implAuditDefault "handoff.md" 0)
    (.startPhase (fun _ => true) frozenClock)
  started.modifyCurrent fun p => { p with retryCount }

theorem applyOp_retried (retryCount : UInt32) :
    applyOp (retried retryCount) (.incrementRetryCount frozenClock) =
      retried (saturatingSucc retryCount) :=
  rfl

theorem runOps_retried {n : ℕ} (hn : n < 2 ^ 32) :
    runOps (retried 0) (List.replicate n (.incrementRetryCount frozenClock)) =
      retried (.ofNat n) := by
  induction n with
  | zero => rfl
  | succ n ih =>
    have hsucc : saturatingSucc (.ofNat n) = .ofNat (n + 1) := by
      unfold saturatingSucc
      rw [if_neg, UInt32.ofNat_add]
      · rfl
      · rw [← UInt32.toNat_inj, UInt32.toNat_ofNat_of_lt' (show n < 2 ^ 32 by omega),
          UInt32.toNat_ofNat_of_lt' (by decide)]
        omega
    rw [List.replicate_succ', runOps_append, ih (by omega), ← hsucc]
    exact applyOp_retried _

/-- Retries lead to a failed workflow whose outcome overflows. -/
theorem overflow_reached (failure : Option FailureKind) (now : DateTime) :
    ∃ ops, (runOps (.new "wf" implAuditDefault "handoff.md" 0) ops).status = .failed ∧
      WorkflowOutcome.build (runOps (.new "wf" implAuditDefault "handoff.md" 0) ops) failure now =
        none := by
  have hstart : runOps (.new "wf" implAuditDefault "handoff.md" 0)
      [.startPhase (fun _ => true) frozenClock] = retried 0 := rfl
  refine ⟨[.startPhase (fun _ => true) frozenClock] ++
    (List.replicate (2 ^ 32 - 1) (.incrementRetryCount frozenClock) ++
      [.failPhase "tests fail" frozenClock]), ?_⟩
  rw [runOps_append, hstart, runOps_append, runOps_retried (by omega)]
  refine ⟨rfl, ?_⟩
  have hsum : attemptSum (runOps (retried (.ofNat (2 ^ 32 - 1)))
      [.failPhase "tests fail" frozenClock]).phaseStates = none := by
    rw [← Option.not_isSome_iff_eq_none, attemptSum_isSome_iff]
    decide
  unfold WorkflowOutcome.build
  rw [hsum]
  rfl

end Hymenium
