import Hymenium.Monitor.Retry
import Hymenium.Store.Outcome

/-!
# Typed failures

The decision for a failure whose kind was classified at its detection site (`src/failure.rs`,
`decide_recovery_typed` in `src/retry.rs`), beside the one for a progress signal.

Both read the retry count as a decider `UInt32 → RecoveryAction`: it is within a limit when every
retry has a count below the limit (`RetriesBelow`), and it gives up for good when an escalation
stays one at every larger count (`EscalatesUpward`). A task that is too large is the exception to the
limit: its first attempt is retried whatever the limit is.
-/

namespace Hymenium

/-- A typed failure: the kind found at the detection site and a detail for the operator. -/
structure TypedFailure where
  kind : FailureKind
  detail : Option String := none
  deriving DecidableEq

/-- The detail as it is appended to a reason. -/
def TypedFailure.suffix (failure : TypedFailure) : String :=
  (failure.detail.map fun d => s!": {d}").getD ""

/-- Decide the recovery action for a typed failure and a retry count. -/
def decideRecoveryTyped (failure : TypedFailure) (retryCount : UInt32) (policy : RetryPolicy) :
    RecoveryAction :=
  match failure.kind with
  | .specAmbiguity => .escalate
      s!"spec ambiguity — cannot retry without operator clarification{failure.suffix}"
  | .contractMismatch => .escalate
      s!"contract mismatch — output does not conform to expected schema{failure.suffix}"
  | .scopeViolation => .escalate
      s!"scope violation — agent edited outside allowed scope{failure.suffix}"
  | .taskTooLarge =>
    -- the first attempt is retried, also when the policy allows no retry
    if retryCount = 0 then .retry (some "decompose task into smaller units") none
    else .escalate
      s!"task too large — narrowed scope did not fit context budget after {retryCount} retries"
  | .missingDependency => .cancel
      s!"missing dependency — prerequisite task not complete{failure.suffix}"
  | .executionIncomplete =>
    if policy.maxRetries ≤ retryCount then limitExceeded "execution incomplete" retryCount
    else .retry none none
  | .minorDefect =>
    if policy.maxRetries ≤ retryCount then .escalate
      s!"minor defect persisted after {retryCount} retries — escalating for review{failure.suffix}"
    else .retry none none

/-! ## Deciders -/

def RecoveryAction.IsRetry : RecoveryAction → Prop
  | .retry _ _ => True
  | .escalate _ | .cancel _ => False

def RecoveryAction.IsEscalate : RecoveryAction → Prop
  | .escalate _ => True
  | .retry _ _ | .cancel _ => False

/-- A retry is decided only at a count below the limit. -/
def RetriesBelow (limit : UInt32) (decider : UInt32 → RecoveryAction) : Prop :=
  ∀ retryCount, (decider retryCount).IsRetry → retryCount < limit

/-- An escalation is one at every larger count. -/
def EscalatesUpward (decider : UInt32 → RecoveryAction) : Prop :=
  ∀ retryCount larger, retryCount ≤ larger →
    (decider retryCount).IsEscalate → (decider larger).IsEscalate

section Deciders

variable {decider : UInt32 → RecoveryAction} {limit : UInt32}

/-- A decider that escalates exactly from the limit on, and retries or cancels below it. -/
structure GatedBy (limit : UInt32) (decider : UInt32 → RecoveryAction) : Prop where
  escalate : ∀ retryCount, limit ≤ retryCount → (decider retryCount).IsEscalate
  retry : ∀ retryCount, ¬ limit ≤ retryCount → (decider retryCount).IsRetry

theorem GatedBy.retriesBelow (h : GatedBy limit decider) : RetriesBelow limit decider := by
  intro n hn
  apply UInt32.not_le.mp
  intro hlimit
  have hescalate := h.escalate n hlimit
  cases hd : decider n <;> rw [hd] at hn hescalate
  · exact hescalate
  all_goals exact hn

theorem GatedBy.escalatesUpward (h : GatedBy limit decider) : EscalatesUpward decider := by
  intro n m hnm hn
  apply h.escalate m
  by_contra hm
  have hretry := h.retry n fun hlimit => hm (UInt32.le_trans hlimit hnm)
  cases hd : decider n <;> rw [hd] at hn hretry
  · exact hn
  all_goals exact hretry

/-- A decider that never looks at the count. -/
theorem EscalatesUpward.of_const {action : RecoveryAction} (h : ∀ n, decider n = action) :
    EscalatesUpward decider := by
  intro n m _ hn
  rw [h] at hn ⊢
  exact hn

theorem RetriesBelow.of_forall_not (h : ∀ n, ¬ (decider n).IsRetry) : RetriesBelow limit decider :=
  fun n hn => absurd hn (h n)

end Deciders

/-! ## The two deciders -/

section Decision

variable {signal : ProgressSignal} {failure : TypedFailure} {policy : RetryPolicy}
  {tier : AgentTier}

theorem decideRecovery_gatedBy (hs : signal.CallsForRecovery) :
    GatedBy policy.maxRetries (decideRecovery signal · policy tier) where
  escalate n hn := by
    obtain ⟨reason, heq⟩ := decideRecovery_escalate hs hn tier
    simp only [heq]
    trivial
  retry n hn := by
    obtain ⟨narrowedScope, newTier, heq⟩ := decideRecovery_retry hs hn tier
    simp only [heq]
    trivial

theorem decideRecovery_cancel (hs : ¬ signal.CallsForRecovery) (n : UInt32) :
    decideRecovery signal n policy tier = .cancel "no recovery needed" := by
  cases signal with
  | healthy | phaseComplete | gateSatisfied => rfl
  | stalled | failed => exact absurd trivial hs

theorem retriesBelow_decideRecovery :
    RetriesBelow policy.maxRetries (decideRecovery signal · policy tier) := by
  by_cases hs : signal.CallsForRecovery
  · exact (decideRecovery_gatedBy hs).retriesBelow
  · refine .of_forall_not fun n hn => ?_
    rw [decideRecovery_cancel hs] at hn
    exact hn

theorem escalatesUpward_decideRecovery :
    EscalatesUpward (decideRecovery signal · policy tier) := by
  by_cases hs : signal.CallsForRecovery
  · exact (decideRecovery_gatedBy hs).escalatesUpward
  · exact .of_const (decideRecovery_cancel hs)

/-- The kind is retried within the limit of the policy. -/
def FailureKind.WithinLimit (kind : FailureKind) : Prop :=
  kind = .executionIncomplete ∨ kind = .minorDefect

theorem decideRecoveryTyped_gatedBy (h : failure.kind.WithinLimit) :
    GatedBy policy.maxRetries (decideRecoveryTyped failure · policy) := by
  unfold decideRecoveryTyped
  constructor
  · intro n hn
    rcases h with h | h
    · simp only [h, if_pos hn]
      trivial
    · simp only [h, if_pos hn]
      trivial
  · intro n hn
    rcases h with h | h
    · simp only [h, if_neg hn]
      trivial
    · simp only [h, if_neg hn]
      trivial

/-- A task that is too large is retried once. -/
theorem decideRecoveryTyped_taskTooLarge (h : failure.kind = .taskTooLarge) (n : UInt32) :
    ((decideRecoveryTyped failure n policy).IsRetry ↔ n = 0) ∧
      ((decideRecoveryTyped failure n policy).IsEscalate ↔ n ≠ 0) := by
  unfold decideRecoveryTyped
  simp only [h]
  by_cases hn : n = 0
  · simp [hn, RecoveryAction.IsRetry, RecoveryAction.IsEscalate]
  · simp [hn, RecoveryAction.IsRetry, RecoveryAction.IsEscalate]

/-- The other kinds are escalated or cancelled at every count. -/
theorem decideRecoveryTyped_of_not_retried (h : ¬ failure.kind.WithinLimit)
    (hlarge : failure.kind ≠ .taskTooLarge) :
    (∀ n, ¬ (decideRecoveryTyped failure n policy).IsRetry) ∧
      EscalatesUpward (decideRecoveryTyped failure · policy) := by
  unfold decideRecoveryTyped
  cases hk : failure.kind with
  | specAmbiguity | contractMismatch | scopeViolation | missingDependency =>
    exact ⟨fun n => id, .of_const fun n => rfl⟩
  | taskTooLarge => exact absurd hk hlarge
  | executionIncomplete => exact absurd (.inl hk) h
  | minorDefect => exact absurd (.inr hk) h

theorem retry_decideRecoveryTyped {n : UInt32}
    (h : (decideRecoveryTyped failure n policy).IsRetry) :
    n < policy.maxRetries ∨ failure.kind = .taskTooLarge ∧ n = 0 := by
  by_cases hlimit : failure.kind.WithinLimit
  · exact .inl ((decideRecoveryTyped_gatedBy hlimit).retriesBelow n h)
  · by_cases hlarge : failure.kind = .taskTooLarge
    · exact .inr ⟨hlarge, (decideRecoveryTyped_taskTooLarge hlarge n).1.mp h⟩
    · exact absurd h ((decideRecoveryTyped_of_not_retried hlimit hlarge).1 n)

theorem escalatesUpward_decideRecoveryTyped :
    EscalatesUpward (decideRecoveryTyped failure · policy) := by
  by_cases hlimit : failure.kind.WithinLimit
  · exact (decideRecoveryTyped_gatedBy hlimit).escalatesUpward
  · by_cases hlarge : failure.kind = .taskTooLarge
    · intro n m hnm hn
      apply (decideRecoveryTyped_taskTooLarge hlarge m).2.mpr
      rintro rfl
      apply (decideRecoveryTyped_taskTooLarge hlarge n).2.mp hn
      rw [UInt32.le_iff_toNat_le] at hnm
      exact UInt32.toNat_inj.mp (Nat.le_zero.mp hnm)
    · exact (decideRecoveryTyped_of_not_retried hlimit hlarge).2

end Decision

/-- **Retry budget.** Both deciders keep to the limit of the policy, apart from the first attempt at
a task that is too large, and neither takes an escalation back at a larger count. -/
theorem deciders_budget (signal : ProgressSignal) (failure : TypedFailure) (policy : RetryPolicy)
    (tier : AgentTier) :
    RetriesBelow policy.maxRetries (decideRecovery signal · policy tier) ∧
    EscalatesUpward (decideRecovery signal · policy tier) ∧
    (∀ retryCount, (decideRecoveryTyped failure retryCount policy).IsRetry →
      retryCount < policy.maxRetries ∨ failure.kind = .taskTooLarge ∧ retryCount = 0) ∧
    EscalatesUpward (decideRecoveryTyped failure · policy) :=
  ⟨retriesBelow_decideRecovery, escalatesUpward_decideRecovery,
    fun _ => retry_decideRecoveryTyped, escalatesUpward_decideRecoveryTyped⟩

/-- With a limit of 0 a task that is too large is still retried. -/
theorem not_retriesBelow_taskTooLarge :
    ¬ ∀ (failure : TypedFailure) (policy : RetryPolicy),
      RetriesBelow policy.maxRetries (decideRecoveryTyped failure · policy) := by
  intro h
  have hlt : (0 : UInt32) < 0 := h ⟨.taskTooLarge, none⟩ { maxRetries := 0 } 0 trivial
  exact absurd hlt (by decide)

end Hymenium
