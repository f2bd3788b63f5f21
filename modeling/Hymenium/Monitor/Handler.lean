import Hymenium.Dispatch.Reconcile
import Hymenium.Monitor.Retry
import Hymenium.Store.Statements

/-!
# Reacting to progress signals

`handleSignal` (`src/monitor/handler.rs`). `Handled` lists what one call can do to the instance and
to the store, and `handleSignal_handled` proves that the list is complete.

The store can refuse the one write of a call for a reason of its own, a lock or a full disk:
`storeFails` says whether it does.
-/

namespace Hymenium

open WorkflowInstance

/-- Error type for monitoring operations. -/
inductive MonitorError where
  | canopyError (msg : String)
  | invalidState (msg : String)
  /-- `InvalidState`, "failed to persist phase state after retry increment" and the store error. -/
  | notPersisted (e : StoreError)
  | phaseNotActive (msg : String)
  | invalidConfig (field reason : String)
  deriving DecidableEq

/-- One call of `upsert_phase_state` outside a transaction. -/
def writePhaseState (storeFails : Bool) (id : WorkflowId) (state : PhaseState) (order : ℕ)
    (db : Db) : Except StoreError Unit × Db :=
  if storeFails then (.error .sqlite, db)
  else withTransaction (upsertPhaseState id state order) db

/-- One call of `handle_signal`. The retry count that comes with the signal is not used. -/
structure SignalCall where
  signal : ProgressSignal
  retryCount : UInt32
  policy : RetryPolicy
  clk : Clock
  storeFails : Bool

/-- React to a progress signal by updating workflow state and deciding on recovery when needed. -/
def handleSignal (call : SignalCall) (inst : WorkflowInstance) (db : Db) :
    Except MonitorError RecoveryAction × WorkflowInstance × Db :=
  match call.signal with
  | .phaseComplete _ =>
    match inst.completePhase call.clk with
    | (.error e, inst) =>
      (.error (.invalidState s!"failed to complete phase: {e.toString}"), inst, db)
    | (.ok (), inst) => (.ok (.cancel "phase completed"), inst, db)
  | .gateSatisfied _ => (.ok (.cancel "gate noted"), inst, db)
  | .stalled _ _ _ | .failed _ _ =>
    let currentRetryCount := (inst.currentPhase.map (·.retryCount)).getD 0
    let currentTier := (inst.currentTemplatePhase.map (·.agentTier)).getD .sonnet
    match decideRecovery call.signal currentRetryCount call.policy currentTier with
    | .retry narrowedScope newTier =>
      match inst.incrementRetryCount call.clk with
      | (.error e, inst) =>
        (.error (.invalidState s!"failed to increment retry count: {e.toString}"), inst, db)
      | (.ok (), inst) =>
        match inst.currentPhase with
        | none => (.ok (.retry narrowedScope newTier), inst, db)
        | some currentPhase =>
          match writePhaseState call.storeFails inst.workflowId currentPhase inst.currentPhaseIdx
              db with
          | (.error e, db) => (.error (.notPersisted e), inst, db)
          | (.ok (), db) => (.ok (.retry narrowedScope newTier), inst, db)
    | action => (.ok action, inst, db)
  | .healthy _ _ => (.ok (.cancel "no action needed"), inst, db)

/-! ## What one call does -/

/-- The phase with one more retry. -/
def PhaseState.charged (p : PhaseState) : PhaseState :=
  { p with retryCount := saturatingSucc p.retryCount }

/-- The signal reports the completion of a phase. -/
def ProgressSignal.IsComplete : ProgressSignal → Prop
  | .phaseComplete _ => True
  | _ => False

/-- A stall or a failure finds a retry left. -/
def SignalCall.Retries (call : SignalCall) (retryCount : UInt32) : Prop :=
  call.signal.CallsForRecovery ∧ retryCount < call.policy.maxRetries

/-- The call returned a retry. -/
def IsRetry : Except MonitorError RecoveryAction → Prop
  | .ok (.retry _ _) => True
  | _ => False

instance : DecidablePred IsRetry
  | .ok (.retry _ _) => isTrue trivial
  | .ok (.escalate _) | .ok (.cancel _) | .error _ => isFalse id

/-- What a counted retry returns, by the outcome of its write. -/
def retryResult (narrowedScope : Option String) (newTier : Option AgentTier) :
    Except StoreError Unit → Except MonitorError RecoveryAction
  | .error e => .error (.notPersisted e)
  | .ok () => .ok (.retry narrowedScope newTier)

/-- Everything one call can do. -/
inductive Handled (call : SignalCall) (inst : WorkflowInstance) (db : Db) :
    Except MonitorError RecoveryAction × WorkflowInstance × Db → Prop
  /-- Nothing to do: no signal for the engine, or nothing it may do to the current phase. -/
  | kept (result : Except MonitorError RecoveryAction)
      (hretry : ¬ IsRetry result)
      (h : ∀ p, inst.currentPhase = some p → p.status = .active →
        ¬ call.signal.IsComplete ∧ ¬ call.Retries p.retryCount) :
      Handled call inst db (result, inst, db)
  | escalated (p : PhaseState) (reason : String) (hp : inst.currentPhase = some p)
      (hs : call.signal.CallsForRecovery) (h : call.policy.maxRetries ≤ p.retryCount) :
      Handled call inst db (.ok (.escalate reason), inst, db)
  | completed (p : PhaseState) (t t' : DateTime) (hp : inst.currentPhase = some p)
      (hactive : p.status = .active) (hs : call.signal.IsComplete) :
      Handled call inst db
        (.ok (.cancel "phase completed"), inst.withCurrent (p.markCompleted t) t', db)
  /-- A retry was counted in memory; `written` tells whether the store took it. -/
  | charged (p : PhaseState) (t : DateTime) (narrowedScope : Option String)
      (newTier : Option AgentTier) (written : Except StoreError Unit) (db' : Db)
      (hp : inst.currentPhase = some p) (hactive : p.status = .active)
      (hs : call.Retries p.retryCount)
      (hwrite : writePhaseState call.storeFails inst.workflowId p.charged inst.currentPhaseIdx db =
        (written, db')) :
      Handled call inst db
        (retryResult narrowedScope newTier written, inst.withCurrent p.charged t, db')

namespace WorkflowInstance

variable {inst : WorkflowInstance} {p : PhaseState}

theorem completePhase_active (h : inst.currentPhase = some p) (hs : p.status = .active)
    (clk : Clock) :
    inst.completePhase clk = (.ok (), inst.withCurrent (p.markCompleted (clk 0)) (clk 1)) := by
  unfold completePhase withCurrent
  simp only [h, hs, ne_eq, not_true_eq_false, if_false, modifyCurrent_eq _ h]

theorem incrementRetryCount_active (h : inst.currentPhase = some p) (hs : p.status = .active)
    (clk : Clock) :
    inst.incrementRetryCount clk = (.ok (), inst.withCurrent p.charged (clk 0)) := by
  unfold incrementRetryCount withCurrent
  simp only [h]
  rw [if_neg (not_not_intro hs), modifyCurrent_eq _ h]
  rfl

/-- The current phase is the one at its index. -/
theorem eq_of_currentPhase {i : ℕ} {q : PhaseState} (h : inst.currentPhase = some p)
    (hq : inst.phaseStates[i]? = some q) (hi : inst.currentPhaseIdx = i) : p = q := by
  subst hi
  exact Option.some.inj (h.symm.trans hq)

theorem getElem?_withCurrent (h : inst.currentPhase = some p) (p' : PhaseState) (t : DateTime)
    (i : ℕ) : (inst.withCurrent p' t).phaseStates[i]? =
      if inst.currentPhaseIdx = i then some p' else inst.phaseStates[i]? := by
  have hlt : inst.currentPhaseIdx < inst.phaseStates.length := (List.getElem?_eq_some_iff.mp h).1
  unfold withCurrent
  rw [List.getElem?_set]
  simp only [hlt, if_true]

/-- Both operations refuse a workflow without an active current phase. -/
theorem refused_of_not_active (h : ∀ p, inst.currentPhase = some p → p.status ≠ .active)
    (clk : Clock) : (∃ e, inst.completePhase clk = (.error e, inst)) ∧
      ∃ e, inst.incrementRetryCount clk = (.error e, inst) := by
  unfold completePhase incrementRetryCount
  cases hp : inst.currentPhase with
  | none => exact ⟨⟨_, rfl⟩, _, rfl⟩
  | some p => exact ⟨⟨_, if_pos (h p hp)⟩, _, if_pos (h p hp)⟩

end WorkflowInstance

section Call

variable {call : SignalCall} {inst : WorkflowInstance}

theorem handleSignal_complete (hs : call.signal.IsComplete) (db : Db) :
    Handled call inst db (handleSignal call inst db) := by
  obtain ⟨signal, retryCount, policy, clk, storeFails⟩ := call
  cases signal with
  | phaseComplete phaseId =>
    by_cases hactive : ∃ p, inst.currentPhase = some p ∧ p.status = .active
    · obtain ⟨p, hp, hpa⟩ := hactive
      simp only [handleSignal, completePhase_active hp hpa]
      exact .completed p _ _ hp hpa hs
    · have hidle : ∀ p, inst.currentPhase = some p → p.status ≠ .active :=
        fun p hp hpa => hactive ⟨p, hp, hpa⟩
      obtain ⟨e, he⟩ := (refused_of_not_active hidle clk).1
      simp only [handleSignal, he]
      exact .kept _ id fun p hp hpa => absurd hpa (hidle p hp)
  | _ => exact absurd hs id

/-- The decision of the handler on a stall or a failure. -/
def SignalCall.decision (call : SignalCall) (inst : WorkflowInstance) : RecoveryAction :=
  decideRecovery call.signal ((inst.currentPhase.map (·.retryCount)).getD 0) call.policy
    ((inst.currentTemplatePhase.map (·.agentTier)).getD .sonnet)

/-- At the limit a stall and a failure are handed to the operator, and nothing is written. -/
theorem handleSignal_escalated (hs : call.signal.CallsForRecovery)
    (h : call.policy.maxRetries ≤ (inst.currentPhase.map (·.retryCount)).getD 0) (db : Db) :
    ∃ reason, handleSignal call inst db = (.ok (.escalate reason), inst, db) := by
  obtain ⟨signal, retryCount, policy, clk, storeFails⟩ := call
  obtain ⟨reason, hdecide⟩ := decideRecovery_escalate hs h
    ((inst.currentTemplatePhase.map (·.agentTier)).getD .sonnet)
  refine ⟨reason, ?_⟩
  cases signal with
  | stalled | failed => simp only [handleSignal, hdecide]
  | _ => exact absurd hs id

section Retried

variable {narrowedScope : Option String} {newTier : Option AgentTier}

theorem handleSignal_refused (hs : call.signal.CallsForRecovery)
    (h : call.decision inst = .retry narrowedScope newTier)
    (hidle : ∀ p, inst.currentPhase = some p → p.status ≠ .active) (db : Db) :
    ∃ e, handleSignal call inst db = (.error e, inst, db) := by
  obtain ⟨signal, retryCount, policy, clk, storeFails⟩ := call
  unfold SignalCall.decision at h
  obtain ⟨e, he⟩ := (refused_of_not_active hidle clk).2
  cases signal with
  | stalled | failed => simp only [handleSignal, h, he]; exact ⟨_, rfl⟩
  | _ => exact absurd hs id

theorem handleSignal_charged (hs : call.signal.CallsForRecovery)
    (h : call.decision inst = .retry narrowedScope newTier) {p : PhaseState}
    (hp : inst.currentPhase = some p) (hpa : p.status = .active) {written : Except StoreError Unit}
    {db db' : Db}
    (hwrite : writePhaseState call.storeFails inst.workflowId p.charged inst.currentPhaseIdx db =
      (written, db')) :
    handleSignal call inst db = (retryResult narrowedScope newTier written,
      inst.withCurrent p.charged (call.clk 0), db') := by
  obtain ⟨signal, retryCount, policy, clk, storeFails⟩ := call
  unfold SignalCall.decision at h
  have hcur := currentPhase_withCurrent hp p.charged (clk 0)
  have hwrite' : writePhaseState storeFails (inst.withCurrent p.charged (clk 0)).workflowId
      p.charged (inst.withCurrent p.charged (clk 0)).currentPhaseIdx db = (written, db') := hwrite
  cases signal with
  | stalled | failed =>
    simp only [handleSignal, h, incrementRetryCount_active hp hpa, hcur, hwrite']
    cases written <;> rfl
  | _ => exact absurd hs id

end Retried

theorem not_isComplete (hs : call.signal.CallsForRecovery) : ¬ call.signal.IsComplete := by
  cases hsig : call.signal with
  | phaseComplete phaseId =>
    rw [hsig] at hs
    exact absurd hs id
  | _ => exact id

theorem handleSignal_recovery (hs : call.signal.CallsForRecovery) (db : Db) :
    Handled call inst db (handleSignal call inst db) := by
  by_cases hmax : call.policy.maxRetries ≤ (inst.currentPhase.map (·.retryCount)).getD 0
  · obtain ⟨reason, heq⟩ := handleSignal_escalated hs hmax db
    rw [heq]
    cases hp : inst.currentPhase with
    | none => exact .kept _ id (by simp [hp])
    | some p =>
      rw [hp] at hmax
      exact .escalated p reason hp hs hmax
  · obtain ⟨n, t, hdecide⟩ := decideRecovery_retry hs hmax
      ((inst.currentTemplatePhase.map (·.agentTier)).getD .sonnet)
    by_cases hactive : ∃ p, inst.currentPhase = some p ∧ p.status = .active
    · obtain ⟨p, hp, hpa⟩ := hactive
      rw [hp] at hmax
      cases hwrite : writePhaseState call.storeFails inst.workflowId p.charged
          inst.currentPhaseIdx db with
      | mk written db' =>
        rw [handleSignal_charged hs hdecide hp hpa hwrite]
        exact .charged p _ n t written db' hp hpa ⟨hs, UInt32.not_le.mp hmax⟩ hwrite
    · have hidle : ∀ p, inst.currentPhase = some p → p.status ≠ .active :=
        fun p hp hpa => hactive ⟨p, hp, hpa⟩
      obtain ⟨e, he⟩ := handleSignal_refused hs hdecide hidle db
      rw [he]
      exact .kept _ id fun p hp hpa => absurd hpa (hidle p hp)

/-- What a call does is listed in `Handled`. -/
theorem handleSignal_handled (call : SignalCall) (inst : WorkflowInstance) (db : Db) :
    Handled call inst db (handleSignal call inst db) := by
  by_cases hs : call.signal.CallsForRecovery
  · exact handleSignal_recovery hs db
  · by_cases hc : call.signal.IsComplete
    · exact handleSignal_complete hc db
    · obtain ⟨signal, retryCount, policy, clk, storeFails⟩ := call
      have hquiet : ∀ p : PhaseState, inst.currentPhase = some p → p.status = .active → _ :=
        fun p _ _ => And.intro hc fun h : SignalCall.Retries _ p.retryCount => hs h.1
      cases signal with
      | healthy | gateSatisfied => exact .kept _ id hquiet
      | phaseComplete => exact absurd trivial hc
      | stalled | failed => exact absurd trivial hs

end Call

end Hymenium
