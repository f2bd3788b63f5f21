import Hymenium.Workflow.Engine

/-!
# Retry policy and recovery actions

The signals of the progress monitor (`src/monitor/mod.rs`) and the decision whether a stalled or
failed phase is retried or handed to the operator (`src/retry.rs`).

The kind of a signal, the reason of a stall and the progressive branch choose what a retry looks
like. Whether there is one is the retry count against the limit, in every branch
(`decideRecovery_retry`, `decideRecovery_escalate`).
-/

namespace Hymenium

/-- Reason a phase is considered stalled. -/
inductive StallReason where
  | heartbeatTimeout | noCodeDiff | noPasteMarkerProgress | statusChatterOnly
  deriving DecidableEq

/-- A signal emitted by the progress monitor. -/
inductive ProgressSignal where
  | healthy (phaseId : String) (lastActivity : DateTime)
  | stalled (phaseId : String) (since : DateTime) (reason : StallReason)
  | phaseComplete (phaseId : String)
  | gateSatisfied (gate : String)
  | failed (phaseId error : String)
  deriving DecidableEq

/-- Configuration for retry behavior. -/
structure RetryPolicy where
  maxRetries : UInt32 := 2
  narrowScopeOnRetry : Bool := true
  escalateTierOnRetry : Bool := false
  deriving DecidableEq

/-- The action to take in response to a stall or failure. -/
inductive RecoveryAction where
  | retry (narrowedScope : Option String) (newTier : Option AgentTier)
  | escalate (reason : String)
  | cancel (reason : String)
  deriving DecidableEq

/-- The next higher agent tier. -/
def nextTier : AgentTier → AgentTier
  | .haiku | .any => .sonnet
  | .sonnet | .opus => .opus

/-- The escalation of a phase that has no retry left. -/
def limitExceeded (context : String) (retryCount : UInt32) : RecoveryAction :=
  .escalate s!"{context} after {retryCount} retries — retry limit exceeded"

/-- The first retry is plain, later ones narrow the scope and may escalate the tier. -/
def decideProgressiveRecovery (retryCount : UInt32) (policy : RetryPolicy)
    (currentTier : AgentTier) (context : String) : RecoveryAction :=
  if policy.maxRetries ≤ retryCount then limitExceeded context retryCount
  else if retryCount = 0 then .retry none none
  else
    let narrowed := if policy.narrowScopeOnRetry then some "narrow" else none
    let tier := if policy.escalateTierOnRetry then some (nextTier currentTier) else none
    .retry narrowed tier

/-- Decide the recovery action for a progress signal and a retry count. -/
def decideRecovery (signal : ProgressSignal) (retryCount : UInt32) (policy : RetryPolicy)
    (currentTier : AgentTier) : RecoveryAction :=
  match signal with
  | .healthy _ _ | .phaseComplete _ | .gateSatisfied _ => .cancel "no recovery needed"
  | .stalled _ _ .heartbeatTimeout =>
    if policy.maxRetries ≤ retryCount then limitExceeded "heartbeat timeout" retryCount
    else .retry none none
  | .stalled _ _ .statusChatterOnly =>
    if policy.maxRetries ≤ retryCount then limitExceeded "status chatter only" retryCount
    else
      let narrowed :=
        if policy.narrowScopeOnRetry then some "narrow scope to reduce chatter" else none
      .retry narrowed none
  | .stalled _ _ .noCodeDiff =>
    decideProgressiveRecovery retryCount policy currentTier "no code diff"
  | .stalled _ _ .noPasteMarkerProgress =>
    decideProgressiveRecovery retryCount policy currentTier "partial progress stalled"
  | .failed _ _ =>
    if policy.maxRetries ≤ retryCount then limitExceeded "phase failed" retryCount
    else .retry none none

/-! ## When there is a retry -/

/-- The signal reports a stall or a failure. -/
def ProgressSignal.CallsForRecovery : ProgressSignal → Prop
  | .stalled _ _ _ | .failed _ _ => True
  | .healthy _ _ | .phaseComplete _ | .gateSatisfied _ => False

instance : DecidablePred ProgressSignal.CallsForRecovery
  | .stalled _ _ _ | .failed _ _ => isTrue trivial
  | .healthy _ _ | .phaseComplete _ | .gateSatisfied _ => isFalse id

section Decision

variable {signal : ProgressSignal} {retryCount : UInt32} {policy : RetryPolicy}

theorem decideProgressiveRecovery_retry (h : ¬ policy.maxRetries ≤ retryCount)
    (currentTier : AgentTier) (context : String) : ∃ narrowedScope newTier,
      decideProgressiveRecovery retryCount policy currentTier context =
        .retry narrowedScope newTier := by
  unfold decideProgressiveRecovery
  rw [if_neg h]
  by_cases hfirst : retryCount = 0
  · rw [if_pos hfirst]
    exact ⟨_, _, rfl⟩
  · rw [if_neg hfirst]
    exact ⟨_, _, rfl⟩

/-- Below the limit every stall and every failure is retried. -/
theorem decideRecovery_retry (hs : signal.CallsForRecovery) (h : ¬ policy.maxRetries ≤ retryCount)
    (currentTier : AgentTier) : ∃ narrowedScope newTier,
      decideRecovery signal retryCount policy currentTier = .retry narrowedScope newTier := by
  cases signal with
  | stalled phaseId since reason =>
    cases reason with
    | heartbeatTimeout => exact ⟨_, _, if_neg h⟩
    | statusChatterOnly => exact ⟨_, _, if_neg h⟩
    | noCodeDiff => exact decideProgressiveRecovery_retry h currentTier _
    | noPasteMarkerProgress => exact decideProgressiveRecovery_retry h currentTier _
  | failed phaseId error => exact ⟨_, _, if_neg h⟩
  | healthy | phaseComplete | gateSatisfied => exact absurd hs id

/-- At the limit every stall and every failure is escalated. -/
theorem decideRecovery_escalate (hs : signal.CallsForRecovery) (h : policy.maxRetries ≤ retryCount)
    (currentTier : AgentTier) : ∃ reason,
      decideRecovery signal retryCount policy currentTier = .escalate reason := by
  cases signal with
  | stalled phaseId since reason =>
    cases reason <;> exact ⟨_, if_pos h⟩
  | failed phaseId error => exact ⟨_, if_pos h⟩
  | healthy | phaseComplete | gateSatisfied => exact absurd hs id

end Decision

end Hymenium
