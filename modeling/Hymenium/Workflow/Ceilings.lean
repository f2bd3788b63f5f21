import Hymenium.Workflow.Finality

/-!
# Ceilings

Tool failures and requests of a phase are counted against ceilings. A run counts a phase against the
ceilings of its template when each record is given the effective ceiling of the current phase
(`GivenCeiling`). In such a run both counters of a phase that is not done stay below their ceilings
(`WithinCeilings`): the ceiling is reached before the counter can saturate, and a phase that reached
it is failed for good (`ceilings_stop`).
-/

namespace Hymenium

/-- The tool failures allowed in phase `i`. -/
def WorkflowTemplate.toolFailureCeiling (template : WorkflowTemplate) (i : ℕ) : UInt32 :=
  (template.phases[i]?.bind (·.maxToolFailurePerPhase)).getD template.maxToolFailurePerPhase

/-- The requests allowed in phase `i`. -/
def WorkflowTemplate.requestCeiling (template : WorkflowTemplate) (i : ℕ) : UInt32 :=
  (template.phases[i]?.bind (·.maxRequestsPerPhase)).getD template.maxRequestsPerPhase

/-- The effective ceilings of every phase are at least 1. -/
def WorkflowTemplate.CeilingsPositive (template : WorkflowTemplate) : Prop :=
  ∀ i < template.phases.length, 1 ≤ template.toolFailureCeiling i ∧ 1 ≤ template.requestCeiling i

instance (template : WorkflowTemplate) : Decidable template.CeilingsPositive :=
  inferInstanceAs (Decidable (∀ i < template.phases.length, _ ∧ _))

/-- Both counters are below the ceilings of phase `i`. -/
structure PhaseState.Below (p : PhaseState) (template : WorkflowTemplate) (i : ℕ) : Prop where
  toolFailures : p.toolFailureCount < template.toolFailureCeiling i
  requests : p.requestCount < template.requestCeiling i

/-- The counters of `q` are those of `p`, or further. -/
structure PhaseState.CountsOn (p q : PhaseState) : Prop where
  toolFailures : p.toolFailureCount ≤ q.toolFailureCount
  requests : p.requestCount ≤ q.requestCount

theorem PhaseState.CountsOn.refl (p : PhaseState) : p.CountsOn p := ⟨UInt32.le_refl _, UInt32.le_refl _⟩

theorem PhaseState.CountsOn.trans {p q r : PhaseState} (h : p.CountsOn q) (h' : q.CountsOn r) :
    p.CountsOn r :=
  ⟨UInt32.le_trans h.toolFailures h'.toolFailures, UInt32.le_trans h.requests h'.requests⟩

theorem le_saturatingSucc (n : UInt32) : n ≤ saturatingSucc n := by
  unfold saturatingSucc
  split_ifs with h
  · exact UInt32.le_refl n
  · have hn := n.toNat_lt
    have hne : n.toNat ≠ 2 ^ 32 - 1 := by
      intro heq
      apply h
      rw [← heq, UInt32.ofNat_toNat]
    rw [UInt32.le_iff_toNat_le, UInt32.toNat_add, UInt32.toNat_one]
    omega

namespace WorkflowInstance

/-- A record is given the effective ceiling of the current phase. -/
def GivenCeiling (inst : WorkflowInstance) : Op → Prop
  | .recordToolFailure ceiling _ => ceiling = inst.effectiveToolFailureCeiling
  | .recordRequest ceiling _ => ceiling = inst.effectiveRequestCeiling
  | _ => True

instance (inst : WorkflowInstance) : DecidablePred inst.GivenCeiling
  | .recordToolFailure _ _ | .recordRequest _ _ => inferInstanceAs (Decidable (_ = _))
  | .startPhase _ _ | .completePhase _ | .reconcileComplete _ | .reconcileFail _ _
  | .failPhase _ _ | .incrementRetryCount _ | .advance _ _ _ | .completeWorkflow _
  | .handoffToUserPhase _ _ _ | .resumeFromUserInput _ => isTrue trivial

/-- The operation counts an event on `counter` against `ceiling`. -/
inductive Records : Op → CeilingCounter → UInt32 → Clock → Prop
  | toolFailure (ceiling : UInt32) (clk : Clock) :
      Records (.recordToolFailure ceiling clk) toolFailureCounter ceiling clk
  | request (ceiling : UInt32) (clk : Clock) :
      Records (.recordRequest ceiling clk) requestCounter ceiling clk

variable {inst out : WorkflowInstance} {op : Op} {p q : PhaseState} {counter : CeilingCounter}
  {ceiling : UInt32} {clk : Clock}

/-! ## One record -/

/-- What a record can return and leave behind. -/
inductive Recorded (inst : WorkflowInstance) (counter : CeilingCounter) (ceiling : UInt32) :
    Except WorkflowError Bool × WorkflowInstance → Prop
  | refused (e : WorkflowError) (h : ∀ p, inst.currentPhase = some p → p.status ≠ .active) :
      Recorded inst counter ceiling (.error e, inst)
  | counted (p : PhaseState) (t : DateTime) (hp : inst.currentPhase = some p)
      (hs : p.status = .active) (h : saturatingSucc (counter.get p) < ceiling) :
      Recorded inst counter ceiling (.ok false, { inst with
        phaseStates := inst.phaseStates.set inst.currentPhaseIdx
          (counter.set p (saturatingSucc (counter.get p)))
        updatedAt := t })
  | exceeded (p : PhaseState) (reason : String) (t t' : DateTime) (hp : inst.currentPhase = some p)
      (hs : p.status = .active) (h : ceiling ≤ saturatingSucc (counter.get p)) :
      Recorded inst counter ceiling (.ok true, { inst with
        phaseStates := inst.phaseStates.set inst.currentPhaseIdx
          (({ counter.set p (saturatingSucc (counter.get p)) with
            failureReason := some reason }).markFailed t)
        status := .failed
        updatedAt := t' })

theorem recordAgainst_recorded (inst : WorkflowInstance) (counter : CeilingCounter)
    (ceiling : UInt32) (clk : Clock) :
    Recorded inst counter ceiling (inst.recordAgainst counter ceiling clk) := by
  unfold recordAgainst
  cases hp : inst.currentPhase with
  | none =>
    refine .refused _ fun q hq => ?_
    cases hp.symm.trans hq
  | some p =>
    by_cases hs : p.status = .active
    · simp only [hs, ne_eq, not_true_eq_false, if_false, modifyCurrent_eq _ hp]
      by_cases hn : ceiling ≤ saturatingSucc (counter.get p)
      · simp only [hn, if_true]
        exact .exceeded p _ (clk 0) (clk 1) hp hs hn
      · simp only [hn, if_false]
        exact .counted p (clk 0) hp hs (UInt32.not_le.mp hn)
    · simp only [hs, ne_eq, not_false_eq_true, if_true]
      refine .refused _ fun q hq => ?_
      cases hp.symm.trans hq
      exact hs

namespace Records

theorem applyOp_eq (h : Records op counter ceiling clk) :
    applyOp inst op = (inst.recordAgainst counter ceiling clk).2 := by
  cases h <;> rfl

/-- A counter is read as it was written, also of a phase that is failed for it. -/
theorem get_set (h : Records op counter ceiling clk) (p : PhaseState) (n : UInt32) :
    counter.get (counter.set p n) = n ∧ ∀ reason t,
      counter.get (({ counter.set p n with failureReason := some reason }).markFailed t) = n := by
  cases h <;> exact ⟨rfl, fun _ _ => rfl⟩

theorem get_le (h : Records op counter ceiling clk) (hpq : p.CountsOn q) :
    counter.get p ≤ counter.get q := by
  cases h
  · exact hpq.toolFailures
  · exact hpq.requests

theorem get_lt (h : Records op counter ceiling clk) (hgiven : inst.GivenCeiling op)
    (hp : p.Below inst.template inst.currentPhaseIdx) : counter.get p < ceiling := by
  cases h
  · rw [show ceiling = _ from hgiven]
    exact hp.toolFailures
  · rw [show ceiling = _ from hgiven]
    exact hp.requests

/-- A count that does not reach the ceiling leaves both counters below. -/
theorem below_set (h : Records op counter ceiling clk) (hgiven : inst.GivenCeiling op)
    (hp : p.Below inst.template inst.currentPhaseIdx) {n : UInt32} (hn : n < ceiling) :
    (counter.set p n).Below inst.template inst.currentPhaseIdx := by
  cases h
  · rw [show ceiling = _ from hgiven] at hn
    exact ⟨hn, hp.requests⟩
  · rw [show ceiling = _ from hgiven] at hn
    exact ⟨hp.toolFailures, hn⟩

end Records

/-! ## Counters along a run -/

/-- No edit takes a count back. -/
theorem Edit.countsOn {ws ws' : WorkflowStatus} (he : Edit p ws q ws') : p.CountsOn q := by
  cases he with
  | count counter _ hc | exceed counter _ _ _ hc =>
    rcases hc with rfl | rfl
    · exact ⟨le_saturatingSucc _, UInt32.le_refl _⟩
    · exact ⟨UInt32.le_refl _, le_saturatingSucc _⟩
  | _ => exact ⟨UInt32.le_refl _, UInt32.le_refl _⟩

/-- A phase after an operation is the phase before, or what an edit made of it. -/
theorem Effect.phase (he : Effect inst op out) {i : ℕ} (hq : out.phaseStates[i]? = some q) :
    ∃ p, inst.phaseStates[i]? = some p ∧ (p = q ∨ ∃ ws ws', Edit p ws q ws') := by
  cases he with
  | refused | touched | refailed | finished => exact ⟨q, hq, .inl rfl⟩
  | entered =>
    rw [phaseStates_enterPhase] at hq
    exact ⟨q, hq, .inl rfl⟩
  | edited _ p p' ws' t hp he =>
    by_cases hi : inst.currentPhaseIdx = i
    · subst hi
      have hlt : inst.currentPhaseIdx < inst.phaseStates.length :=
        (List.getElem?_eq_some_iff.mp hp).1
      cases (List.getElem?_set_self hlt).symm.trans hq
      exact ⟨p, hp, .inr ⟨_, _, he⟩⟩
    · exact ⟨q, by simpa [List.getElem?_set, hi] using hq, .inl rfl⟩

theorem length_applyOp (inst : WorkflowInstance) (op : Op) :
    (applyOp inst op).phaseStates.length = inst.phaseStates.length := by
  simpa using congrArg List.length (applyOp_effect inst op).sameFrame.phaseIds

/-- Along a run every phase counts on. -/
theorem countsOn_runOps {i : ℕ} (ops : List Op) (hp : inst.phaseStates[i]? = some p) :
    ∃ q, (runOps inst ops).phaseStates[i]? = some q ∧ p.CountsOn q := by
  induction ops generalizing inst p with
  | nil => exact ⟨p, hp, .refl p⟩
  | cons op ops ih =>
    have hlt : i < (applyOp inst op).phaseStates.length := by
      rw [length_applyOp]
      exact (List.getElem?_eq_some_iff.mp hp).1
    obtain ⟨p₀, hp₀, hstep⟩ := (applyOp_effect inst op).phase (List.getElem?_eq_getElem hlt)
    cases hp.symm.trans hp₀
    have hcounts : p.CountsOn (applyOp inst op).phaseStates[i] := by
      rcases hstep with heq | ⟨ws, ws', he⟩
      · exact heq ▸ .refl p
      · exact he.countsOn
    obtain ⟨q, hq, hrest⟩ := ih (List.getElem?_eq_getElem hlt)
    exact ⟨q, hq, hcounts.trans hrest⟩

/-- Only a record changes a counter. -/
theorem map_counts_applyOp (inst : WorkflowInstance)
    (h : ∀ counter ceiling clk, ¬ Records op counter ceiling clk) :
    (applyOp inst op).phaseStates.map (fun p => (p.toolFailureCount, p.requestCount)) =
      inst.phaseStates.map fun p => (p.toolFailureCount, p.requestCount) := by
  have hedit : ∀ f : PhaseState → PhaseState,
      (∀ p, ((f p).toolFailureCount, (f p).requestCount) = (p.toolFailureCount, p.requestCount)) →
      (inst.modifyCurrent f).phaseStates.map (fun p => (p.toolFailureCount, p.requestCount)) =
        inst.phaseStates.map fun p => (p.toolFailureCount, p.requestCount) :=
    fun f hf => map_modifyCurrent hf
  cases op with
  | recordToolFailure ceiling clk => exact absurd (.toolFailure ceiling clk) (h _ _ _)
  | recordRequest ceiling clk => exact absurd (.request ceiling clk) (h _ _ _)
  | advance evaluator files clk => rw [applyOp, phaseStates_advance]
  | startPhase | completePhase | reconcileComplete | reconcileFail | failPhase | incrementRetryCount
  | completeWorkflow | handoffToUserPhase | resumeFromUserInput =>
    simp only [applyOp, startPhase, completePhase, reconcileCompleteCurrentPhase,
      reconcileFailCurrentPhase, failPhase, incrementRetryCount, completeWorkflow,
      handoffToUserPhase, resumeFromUserInput]
    -- a refused operation keeps the phases, any other edits the current one
    repeat' split
    all_goals first | rfl | exact hedit _ fun _ => rfl

/-! ## The invariant -/

/-- The counters of every phase that is not done are below its ceilings. -/
def WithinCeilings (inst : WorkflowInstance) : Prop :=
  ∀ (i : ℕ) (p : PhaseState), inst.phaseStates[i]? = some p → p.status ≠ .completed →
    p.status ≠ .failed → p.Below inst.template i

theorem withinCeilings_new (workflowId : WorkflowId) {template : WorkflowTemplate}
    (handoffPath : String) (now : DateTime) (hpos : template.CeilingsPositive) :
    (new workflowId template handoffPath now).WithinCeilings := by
  intro i p hp _ _
  obtain ⟨phase, hphase, rfl⟩ : ∃ phase, template.phases[i]? = some phase ∧
      PhaseState.new phase.phaseId phase.effectiveAgentRole = p := by
    simpa [new, List.getElem?_map, Option.map_eq_some_iff] using hp
  obtain ⟨htool, hrequest⟩ := hpos i (List.getElem?_eq_some_iff.mp hphase).1
  have hzero : ∀ n : UInt32, 1 ≤ n → 0 < n := by
    intro n hn
    rw [UInt32.le_iff_toNat_le] at hn
    rw [UInt32.lt_iff_toNat_lt]
    exact hn
  exact ⟨hzero _ htool, hzero _ hrequest⟩

namespace WithinCeilings

/-- The current phase is replaced by one that is done, or below its ceilings. -/
theorem set_current (h : inst.WithinCeilings) (hp : inst.currentPhase = some p)
    (hq : q.status = .failed ∨ q.Below inst.template inst.currentPhaseIdx)
    (ws : WorkflowStatus) (t : DateTime) :
    WithinCeilings { inst with
      phaseStates := inst.phaseStates.set inst.currentPhaseIdx q
      status := ws
      updatedAt := t } := by
  intro i r hr hcompleted hfailed
  by_cases hi : inst.currentPhaseIdx = i
  · subst hi
    have hlt : inst.currentPhaseIdx < inst.phaseStates.length := (List.getElem?_eq_some_iff.mp hp).1
    cases (List.getElem?_set_self hlt).symm.trans hr
    exact hq.resolve_left hfailed
  · exact h i r (by simpa [List.getElem?_set, hi] using hr) hcompleted hfailed

theorem record (h : inst.WithinCeilings) (hrec : Records op counter ceiling clk)
    (hgiven : inst.GivenCeiling op) : (applyOp inst op).WithinCeilings := by
  rw [hrec.applyOp_eq]
  have hrecorded := recordAgainst_recorded inst counter ceiling clk
  generalize inst.recordAgainst counter ceiling clk = result at hrecorded
  cases hrecorded with
  | refused => exact h
  | counted p t hp hs hn =>
    have hbelow : p.Below inst.template inst.currentPhaseIdx :=
      h _ p hp (by rw [hs]; nofun) (by rw [hs]; nofun)
    exact h.set_current hp (.inr (hrec.below_set hgiven hbelow hn)) inst.status t
  | exceeded p reason t t' hp => exact h.set_current hp (.inl rfl) .failed t'

/-- **Step lemma.** Records that are given the effective ceiling keep the invariant. -/
theorem operate (h : inst.WithinCeilings) (hgiven : inst.GivenCeiling op) :
    (applyOp inst op).WithinCeilings := by
  by_cases hrec : ∃ counter ceiling clk, Records op counter ceiling clk
  · obtain ⟨counter, ceiling, clk, hrec⟩ := hrec
    exact h.record hrec hgiven
  · simp only [not_exists] at hrec
    have heffect := applyOp_effect inst op
    intro i q hq hcompleted hfailed
    rw [heffect.sameFrame.template]
    obtain ⟨p, hp, hstep⟩ := heffect.phase hq
    -- a phase that is open after the operation was open before, with the same counts
    have hopen : p.status ≠ .completed ∧ p.status ≠ .failed := by
      rcases hstep with rfl | ⟨ws, ws', he⟩
      · exact ⟨hcompleted, hfailed⟩
      · exact he.status_open
    have hcounts := congrArg (·[i]?) (map_counts_applyOp inst hrec)
    simp only [List.getElem?_map, hq, hp, Option.map_some, Option.some.injEq, Prod.mk.injEq]
      at hcounts
    obtain ⟨htool, hrequest⟩ := h i p hp hopen.1 hopen.2
    exact ⟨hcounts.1 ▸ htool, hcounts.2 ▸ hrequest⟩

end WithinCeilings

/-! ## The ceiling is reached once -/

/-- At the moment after `pre` the operation brings a counter of the current phase to `n`, where it
never was before. -/
structure FirstReaches (start : WorkflowInstance) (pre : List Op) (op : Op)
    (counter : CeilingCounter) (n : UInt32) : Prop where
  before : ∀ earlier, earlier <+: pre → ∀ p,
    (runOps start earlier).phaseStates[(runOps start pre).currentPhaseIdx]? = some p →
      counter.get p < n
  reached : ∃ p, (runOps start (pre ++ [op])).phaseStates[(runOps start pre).currentPhaseIdx]? =
    some p ∧ n ≤ counter.get p

/-- Phase `i` is current and failed, its workflow is failed, and nothing is recorded any more. -/
structure StoppedAt (inst : WorkflowInstance) (i : ℕ) : Prop where
  index : inst.currentPhaseIdx = i
  phase : inst.currentPhase.map (·.status) = some .failed
  workflow : inst.status = .failed
  refuses : ∀ op counter ceiling clk, Records op counter ceiling clk →
    ∃ e, (inst.recordAgainst counter ceiling clk).1 = .error e

/-- A record returns `true` when its counter reaches the ceiling for the first time. -/
theorem record_true_iff {start : WorkflowInstance} {pre : List Op}
    (h : (runOps start pre).WithinCeilings) (hgiven : (runOps start pre).GivenCeiling op)
    (hrec : Records op counter ceiling clk) :
    ((runOps start pre).recordAgainst counter ceiling clk).1 = .ok true ↔
      FirstReaches start pre op counter ceiling := by
  have hafter : runOps start (pre ++ [op]) =
      ((runOps start pre).recordAgainst counter ceiling clk).2 := by
    rw [runOps_append, ← hrec.applyOp_eq]
    rfl
  have hrecorded := recordAgainst_recorded (runOps start pre) counter ceiling clk
  generalize (runOps start pre).recordAgainst counter ceiling clk = result at hafter hrecorded
  constructor
  · intro htrue
    cases hrecorded with
    | refused => cases htrue
    | counted => cases htrue
    | exceeded p reason t t' hp hs hn =>
      have hlt : (runOps start pre).currentPhaseIdx < (runOps start pre).phaseStates.length :=
        (List.getElem?_eq_some_iff.mp hp).1
      have hbelow : p.Below (runOps start pre).template (runOps start pre).currentPhaseIdx :=
        h _ p hp (by rw [hs]; nofun) (by rw [hs]; nofun)
      refine ⟨fun earlier hearlier q hq => ?_, ?_⟩
      · -- the counter of an earlier moment is at most the present one
        obtain ⟨rest, rfl⟩ := hearlier
        rw [runOps_append] at hq hp hbelow
        obtain ⟨q', hq', hcounts⟩ := countsOn_runOps rest hq
        cases hp.symm.trans hq'
        rw [runOps_append] at hgiven
        exact UInt32.lt_of_le_of_lt (hrec.get_le hcounts) (hrec.get_lt hgiven hbelow)
      · rw [hafter]
        refine ⟨_, List.getElem?_set_self hlt, ?_⟩
        rw [(hrec.get_set p _).2]
        exact hn
  · rintro ⟨hbefore, q, hq, hreached⟩
    rw [hafter] at hq
    cases hrecorded with
    | refused e hidle =>
      exact absurd hreached (UInt32.not_le.mpr (hbefore pre (List.prefix_refl pre) q hq))
    | counted p t hp hs hn =>
      have hlt : (runOps start pre).currentPhaseIdx < (runOps start pre).phaseStates.length :=
        (List.getElem?_eq_some_iff.mp hp).1
      cases (List.getElem?_set_self hlt).symm.trans hq
      rw [(hrec.get_set p _).1] at hreached
      exact absurd hreached (UInt32.not_le.mpr hn)
    | exceeded => rfl

/-- A record that returned `true` stops the phase for good. -/
theorem stoppedAt_of_true (h : inst.EndInvariant) (hrec : Records op counter ceiling clk)
    (htrue : (inst.recordAgainst counter ceiling clk).1 = .ok true) (more : List Op) :
    (runOps (applyOp inst op) more).StoppedAt inst.currentPhaseIdx := by
  have hend := h.effect (applyOp_effect inst op)
  have hstop : (applyOp inst op).status = .failed ∧
      (applyOp inst op).currentPhaseIdx = inst.currentPhaseIdx := by
    rw [hrec.applyOp_eq]
    have hrecorded := recordAgainst_recorded inst counter ceiling clk
    generalize inst.recordAgainst counter ceiling clk = result at htrue hrecorded
    cases hrecorded with
    | refused => cases htrue
    | counted => cases htrue
    | exceeded => exact ⟨rfl, rfl⟩
  obtain ⟨hfailed, hindex⟩ := hstop
  have hsame : SameEnd (applyOp inst op) (runOps (applyOp inst op) more) := by
    refine (hend.sameEnd_iff (.inr (.inl hfailed)) more).mpr (fun hw => ?_) more
      (List.prefix_refl more)
    cases hfailed.symm.trans hw
  have hphase := (hend.reached more).failed (.inl (hsame.status.trans hfailed))
  refine ⟨hsame.index.trans hindex, hphase, hsame.status.trans hfailed, ?_⟩
  intro op' counter' ceiling' clk' _
  obtain ⟨p, hp, hs⟩ := Option.map_eq_some_iff.mp hphase
  have hrecorded := recordAgainst_recorded (runOps (applyOp inst op) more) counter' ceiling' clk'
  generalize (runOps (applyOp inst op) more).recordAgainst counter' ceiling' clk' = result
    at hrecorded
  cases hrecorded with
  | refused e => exact ⟨e, rfl⟩
  | counted q t hq hactive | exceeded q reason t t' hq hactive =>
    cases hp.symm.trans hq
    cases hs.symm.trans hactive

/-- **Ceilings.** In a run whose records are given the effective ceiling of the current phase, the
counters of an active phase are below its ceilings; a record returns `true` exactly when its counter
reaches the ceiling for the first time; and from then on the phase and the workflow are failed, and
no record on the phase succeeds. -/
theorem ceilings_stop (workflowId : WorkflowId) (template : WorkflowTemplate)
    (handoffPath : String) (now : DateTime) (ops : List Op) (hpos : template.CeilingsPositive)
    (hgiven : Runs.Meets applyOp GivenCeiling (new workflowId template handoffPath now) ops) :
    (∀ (i : ℕ) (p : PhaseState),
      (runOps (new workflowId template handoffPath now) ops).phaseStates[i]? = some p →
        p.status = .active → p.Below template i) ∧
    ∀ pre op post, ops = pre ++ op :: post → ∀ counter ceiling clk,
      Records op counter ceiling clk →
        (((runOps (new workflowId template handoffPath now) pre).recordAgainst counter ceiling
            clk).1 = .ok true ↔
          FirstReaches (new workflowId template handoffPath now) pre op counter ceiling) ∧
        (((runOps (new workflowId template handoffPath now) pre).recordAgainst counter ceiling
            clk).1 = .ok true →
          ∀ more, more <+: post →
            (runOps (new workflowId template handoffPath now) (pre ++ op :: more)).StoppedAt
              (runOps (new workflowId template handoffPath now) pre).currentPhaseIdx) := by
  have hnew := withinCeilings_new workflowId handoffPath now hpos
  have htemplate : ∀ ops, (runOps (new workflowId template handoffPath now) ops).template =
      template := runOps_template
  have hend := endInvariant_new workflowId template handoffPath now
  generalize new workflowId template handoffPath now = start at hnew htemplate hend hgiven ⊢
  have hwithin : ∀ {ops : List Op}, Runs.Meets applyOp GivenCeiling start ops →
      (runOps start ops).WithinCeilings := fun hmeets =>
    Runs.run_invariant_of_meets (fun _ _ h hg => h.operate hg) hnew hmeets
  refine ⟨fun i p hp hs => ?_, ?_⟩
  · rw [← htemplate ops]
    exact hwithin hgiven i p hp (by rw [hs]; nofun) (by rw [hs]; nofun)
  · rintro pre op post rfl counter ceiling clk hrec
    obtain ⟨hpre, hop, -⟩ := Runs.meets_append.mp hgiven
    refine ⟨record_true_iff (hwithin hpre) hop hrec, fun htrue more _ => ?_⟩
    rw [runOps_append]
    exact stoppedAt_of_true (hend.reached pre) hrec htrue more

/-- With a ceiling of 2 the second tool failure stops the phase. -/
theorem ceilings_stop_implAudit :
    let template := { implAuditDefault with maxToolFailurePerPhase := 2 }
    let start := new "wf" template "handoff.md" 0
    let pre : List Op := [.startPhase (fun _ => true) Int.ofNat, .recordToolFailure 2 Int.ofNat]
    let retry : Op := .incrementRetryCount Int.ofNat
    (∀ (i : ℕ) (p : PhaseState), (runOps start pre).phaseStates[i]? = some p →
      p.status = .active → p.Below template i) ∧
    FirstReaches start pre (.recordToolFailure 2 Int.ofNat) toolFailureCounter 2 ∧
    (runOps start (pre ++ [.recordToolFailure 2 Int.ofNat, retry])).StoppedAt 0 := by
  intro template start pre retry
  have hpos : template.CeilingsPositive := by decide
  have hstops := (ceilings_stop "wf" template "handoff.md" 0
    (pre ++ [.recordToolFailure 2 Int.ofNat, retry]) hpos (by decide +kernel)).2 pre _ [retry] rfl
    toolFailureCounter 2 Int.ofNat (.toolFailure 2 Int.ofNat)
  have htrue : ((runOps start pre).recordAgainst toolFailureCounter 2 Int.ofNat).1 = .ok true := by
    decide +kernel
  refine ⟨?_, hstops.1.mp htrue, hstops.2 htrue [retry] (List.prefix_refl _)⟩
  exact (ceilings_stop "wf" template "handoff.md" 0 pre hpos (by decide +kernel)).1

end WorkflowInstance

end Hymenium
