import Hymenium.Monitor.Handler
import Hymenium.Workflow.Steps

/-!
# Recovery is bounded

The signals of one workflow are handled one after another, with other operations of the engine and
other writes to the store in between. `charge_step` is what one event does to the retry count of a
phase: a returned retry is paid for by the count, and the count stays within the limit. The bound on
the retries of a phase follows along the run.
-/

namespace Hymenium

open WorkflowInstance

/-- A workflow in memory and the store. -/
structure MonitorState where
  inst : WorkflowInstance
  db : Db

/-- What can happen between two readings of the monitor. -/
inductive MonitorEvent where
  | signal (call : SignalCall)
  | engine (op : Op)
  /-- Other commands leave this store behind. -/
  | store (db : Db)

def monitorStep (s : MonitorState) : MonitorEvent → MonitorState
  | .signal call => ⟨(handleSignal call s.inst s.db).2.1, (handleSignal call s.inst s.db).2.2⟩
  | .engine op => { s with inst := applyOp s.inst op }
  | .store db => { s with db }

/-- The operation counts a retry. -/
def Op.Charges : Op → Prop
  | .incrementRetryCount _ => True
  | _ => False

/-- Signals are handled under `policy`, and nothing else counts a retry. -/
def MonitorEvent.Under (policy : RetryPolicy) : MonitorEvent → Prop
  | .signal call => call.policy = policy
  | .engine op => ¬ op.Charges
  | .store _ => True

/-- The event is a signal that is answered with a retry. -/
def Retried (s : MonitorState) : MonitorEvent → Prop
  | .signal call => IsRetry (handleSignal call s.inst s.db).1
  | .engine _ | .store _ => False

instance (s : MonitorState) : DecidablePred (Retried s)
  | .signal call => inferInstanceAs (Decidable (IsRetry (handleSignal call s.inst s.db).1))
  | .engine _ | .store _ => isFalse id

/-- The number of retries returned by a run while phase `i` is current. -/
def retriesWhile (i : ℕ) : MonitorState → List MonitorEvent → ℕ
  | _, [] => 0
  | s, e :: es =>
    (if s.inst.currentPhaseIdx = i ∧ Retried s e then 1 else 0) + retriesWhile i (monitorStep s e) es

/-! ## The retry count of a phase -/

theorem toNat_saturatingSucc {n m : UInt32} (h : n < m) :
    (saturatingSucc n).toNat = n.toNat + 1 := by
  have hlt : n.toNat < m.toNat := UInt32.lt_iff_toNat_lt.mp h
  have hm := m.toNat_lt
  have hne : n ≠ UInt32.ofNat (2 ^ 32 - 1) := by
    rintro rfl
    have hmax : (UInt32.ofNat (2 ^ 32 - 1)).toNat = 2 ^ 32 - 1 := by decide
    omega
  rw [saturatingSucc, if_neg hne, UInt32.toNat_add, UInt32.toNat_one]
  exact Nat.mod_eq_of_lt (by omega)

section Ops

variable {inst : WorkflowInstance}

theorem map_retryCount_recordAgainst {counter : CeilingCounter}
    (hcounter : ∀ p n, (counter.set p n).retryCount = p.retryCount) (ceiling : UInt32)
    (clk : Clock) : (inst.recordAgainst counter ceiling clk).2.phaseStates.map (·.retryCount) =
      inst.phaseStates.map (·.retryCount) := by
  unfold recordAgainst
  split
  · rfl
  dsimp only
  split_ifs
  · rfl
  · exact map_modifyCurrent fun p => hcounter p _
  · exact map_modifyCurrent fun p => hcounter p _

/-- No operation but `increment_retry_count` changes a retry count. -/
theorem map_retryCount_applyOp (inst : WorkflowInstance) {op : Op} (h : ¬ op.Charges) :
    (applyOp inst op).phaseStates.map (·.retryCount) = inst.phaseStates.map (·.retryCount) := by
  have hedit : ∀ f : PhaseState → PhaseState, (∀ p, (f p).retryCount = p.retryCount) →
      (inst.modifyCurrent f).phaseStates.map (·.retryCount) =
        inst.phaseStates.map (·.retryCount) := fun f hf => map_modifyCurrent hf
  cases op with
  | incrementRetryCount clk => exact absurd trivial h
  | recordToolFailure | recordRequest => exact map_retryCount_recordAgainst (fun _ _ => rfl) _ _
  | advance evaluator files clk => rw [applyOp, phaseStates_advance]
  | startPhase | completePhase | reconcileComplete | reconcileFail | failPhase | completeWorkflow
  | handoffToUserPhase | resumeFromUserInput =>
    simp only [applyOp, startPhase, completePhase, reconcileCompleteCurrentPhase,
      reconcileFailCurrentPhase, WorkflowInstance.failPhase, completeWorkflow, handoffToUserPhase,
      resumeFromUserInput]
    -- a refused operation keeps the phases, any other edits the current one
    repeat' split
    all_goals first | rfl | exact hedit _ fun _ => rfl

end Ops

/-! ## Runs -/

section Runs

variable {policy : RetryPolicy} {s : MonitorState} {e : MonitorEvent} {i : ℕ} {q : PhaseState}

theorem charged_retryCount {call : SignalCall} {p : PhaseState} (h : call.Retries p.retryCount) :
    p.charged.retryCount.toNat = p.retryCount.toNat + 1 ∧
      p.charged.retryCount ≤ call.policy.maxRetries := by
  have hcount : p.charged.retryCount.toNat = p.retryCount.toNat + 1 := toNat_saturatingSucc h.2
  have hlt := UInt32.lt_iff_toNat_lt.mp h.2
  exact ⟨hcount, UInt32.le_iff_toNat_le.mpr (by omega)⟩

/-- What one signal does to the retry count of a phase: an answer with a retry is paid for. -/
theorem charge_signal (call : SignalCall) (hq : s.inst.phaseStates[i]? = some q)
    (hle : q.retryCount ≤ call.policy.maxRetries) :
    ∃ q', (monitorStep s (.signal call)).inst.phaseStates[i]? = some q' ∧
      q'.retryCount ≤ call.policy.maxRetries ∧ q.retryCount.toNat ≤ q'.retryCount.toNat ∧
      (s.inst.currentPhaseIdx = i → Retried s (.signal call) →
        q.retryCount.toNat + 1 ≤ q'.retryCount.toNat) := by
  have h := handleSignal_handled call s.inst s.db
  simp only [monitorStep, Retried]
  revert h
  generalize handleSignal call s.inst s.db = out
  intro h
  cases h with
  | kept result hretry =>
    exact ⟨q, hq, hle, le_rfl, fun _ h => absurd h hretry⟩
  | escalated p reason hp =>
    exact ⟨q, hq, hle, le_rfl, fun _ h => absurd h id⟩
  | completed p t t' hp =>
    have hget := getElem?_withCurrent hp (p.markCompleted t) t' i
    split_ifs at hget with hi
    · obtain rfl := eq_of_currentPhase hp hq hi
      exact ⟨_, hget, hle, le_rfl, fun _ h => absurd h id⟩
    · exact ⟨q, hget.trans hq, hle, le_rfl, fun h => absurd h hi⟩
  | charged p t n tier written db' hp hactive hs =>
    have hget := getElem?_withCurrent hp p.charged t i
    split_ifs at hget with hi
    · obtain rfl := eq_of_currentPhase hp hq hi
      obtain ⟨hcount, hmax⟩ := charged_retryCount hs
      exact ⟨_, hget, hmax, by omega, fun _ _ => hcount.ge⟩
    · exact ⟨q, hget.trans hq, hle, le_rfl, fun h => absurd h hi⟩

/-- What one event does to the retry count of a phase. -/
theorem charge_step (he : e.Under policy) (hq : s.inst.phaseStates[i]? = some q)
    (hle : q.retryCount ≤ policy.maxRetries) :
    ∃ q', (monitorStep s e).inst.phaseStates[i]? = some q' ∧
      q'.retryCount ≤ policy.maxRetries ∧ q.retryCount.toNat ≤ q'.retryCount.toNat ∧
      (s.inst.currentPhaseIdx = i → Retried s e →
        q.retryCount.toNat + 1 ≤ q'.retryCount.toNat) := by
  cases e with
  | signal call =>
    obtain rfl : call.policy = policy := he
    exact charge_signal call hq hle
  | engine op =>
    have hcounts := congrArg (·[i]?) (map_retryCount_applyOp s.inst he)
    simp only [List.getElem?_map, hq, Option.map_some, Option.map_eq_some_iff] at hcounts
    obtain ⟨q', hq', hcount⟩ := hcounts
    exact ⟨q', hq', by rwa [hcount], by rw [hcount], fun _ h => absurd h id⟩
  | store db => exact ⟨q, hq, hle, le_rfl, fun _ h => absurd h id⟩

/-- A run keeps the retry count of a phase within the limit. -/
theorem retryCount_le_run {events : List MonitorEvent} (he : ∀ e ∈ events, e.Under policy)
    (hq : s.inst.phaseStates[i]? = some q) (hle : q.retryCount ≤ policy.maxRetries) :
    ∃ q', (Runs.run monitorStep s events).inst.phaseStates[i]? = some q' ∧
      q'.retryCount ≤ policy.maxRetries := by
  induction events generalizing s q with
  | nil => exact ⟨q, hq, hle⟩
  | cons e events ih =>
    obtain ⟨q', hq', hle', -⟩ := charge_step (he e List.mem_cons_self) hq hle
    exact ih (fun e' h => he e' (List.mem_cons_of_mem _ h)) hq' hle'

/-- The retries of a run are paid for by what the limit leaves over the count. -/
theorem retriesWhile_add_le {events : List MonitorEvent} (he : ∀ e ∈ events, e.Under policy)
    (hq : s.inst.phaseStates[i]? = some q) (hle : q.retryCount ≤ policy.maxRetries) :
    retriesWhile i s events + q.retryCount.toNat ≤ policy.maxRetries.toNat := by
  induction events generalizing s q with
  | nil => exact (Nat.zero_add _).trans_le (UInt32.le_iff_toNat_le.mp hle)
  | cons e events ih =>
    obtain ⟨q', hq', hle', hmono, hpaid⟩ := charge_step (he e List.mem_cons_self) hq hle
    have hrest := ih (fun e' h => he e' (List.mem_cons_of_mem _ h)) hq' hle'
    rw [retriesWhile]
    split_ifs with hr
    · have hone := hpaid hr.1 hr.2
      omega
    · omega

end Runs

/-- **Bounded recovery.** While a phase is current, its retries are at most what the limit leaves
over its retry count at the start, the count stays within the limit, and at the limit every stall
and every failure is escalated. -/
theorem recovery_bounded (policy : RetryPolicy) (s : MonitorState) (p : PhaseState)
    (hp : s.inst.currentPhase = some p) (hle : p.retryCount ≤ policy.maxRetries)
    (events : List MonitorEvent) (he : ∀ e ∈ events, e.Under policy) :
    retriesWhile s.inst.currentPhaseIdx s events ≤
        policy.maxRetries.toNat - p.retryCount.toNat ∧
      ∀ pre post, events = pre ++ post → ∃ q,
        (Runs.run monitorStep s pre).inst.phaseStates[s.inst.currentPhaseIdx]? = some q ∧
          q.retryCount ≤ policy.maxRetries ∧
          ∀ call, call.policy = policy → call.signal.CallsForRecovery →
            (Runs.run monitorStep s pre).inst.currentPhaseIdx = s.inst.currentPhaseIdx →
            q.retryCount = policy.maxRetries → ∃ reason,
              (handleSignal call (Runs.run monitorStep s pre).inst
                (Runs.run monitorStep s pre).db).1 = .ok (.escalate reason) := by
  refine ⟨Nat.le_sub_of_add_le (retriesWhile_add_le he hp hle), ?_⟩
  rintro pre post rfl
  obtain ⟨q, hq, hqle⟩ :=
    retryCount_le_run (fun e h => he e (List.mem_append_left _ h)) hp hle
  refine ⟨q, hq, hqle, ?_⟩
  rintro call rfl hs hidx hmax
  have hcount : (Runs.run monitorStep s pre).inst.currentPhase = some q := by
    rwa [currentPhase, hidx]
  obtain ⟨reason, heq⟩ := handleSignal_escalated hs (by rw [hcount]; exact hmax ▸ UInt32.le_refl _)
    (Runs.run monitorStep s pre).db
  exact ⟨reason, congrArg Prod.fst heq⟩

/-- Three failures of a stored workflow under the default policy: two retries, then the operator. -/
theorem recovery_bounded_three :
    let inst := applyOp (new "wf" implAuditDefault "handoff.md" 0)
      (.startPhase (fun _ => true) Int.ofNat)
    let db := (withTransaction (insertWorkflowWithHash inst none) .empty).2
    let failed : MonitorEvent :=
      .signal ⟨.failed "implement" "timeout", 0, {}, Int.ofNat, false⟩
    retriesWhile 0 ⟨inst, db⟩ [failed, failed, failed] = 2 ∧
      retriesWhile 0 ⟨inst, db⟩ [failed, failed, failed] ≤ 2 - 0 := by
  intro inst db failed
  obtain ⟨p, hp, hcount⟩ : ∃ p, inst.currentPhase = some p ∧ p.retryCount = 0 := ⟨_, rfl, rfl⟩
  have hle : p.retryCount ≤ RetryPolicy.maxRetries {} := by rw [hcount]; decide
  have hbound := (recovery_bounded {} ⟨inst, db⟩ p hp hle [failed, failed, failed]
    (by simp [MonitorEvent.Under, failed])).1
  rw [hcount] at hbound
  exact ⟨by decide +kernel, hbound⟩

end Hymenium
