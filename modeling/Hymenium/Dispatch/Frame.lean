import Hymenium.Dispatch.Reconcile

/-!
# What one reconciliation leaves alone

`reconcilePhasesLive` is `reconcilePhases` with its calls to Canopy on record: the client is any
process whose answer may depend on the calls before it. The loop makes at most one call, so that the
pure function tells the whole result (`reconcilePhasesLive_eq`).

The frame of a reconciliation follows from the list of instances it can leave behind. One of them,
`stranded`, moves the index without a transition: `advance` writes the index before it looks for the
phase state there.
-/

namespace Hymenium

open WorkflowInstance

/-- A Canopy client as its caller meets it: the answer to `get_task` after the earlier calls. -/
structure CanopySession where
  getTask : List String → String → Except DispatchError TaskDetail

/-- The client that answers every call the way the session answers the first one. -/
def CanopySession.first (session : CanopySession) : CanopyClient := ⟨session.getTask []⟩

/-- The loop body for the current phase, and the calls made so far. -/
def reconcileCurrentLive (inst : WorkflowInstance) (phase : PhaseState) (session : CanopySession)
    (forceAdvance : Bool) (files : Files) (clk : Clock) (calls : List String) :
    Except DispatchError (PhaseReconcileOutcome × WorkflowInstance) × List String :=
  match phase.canopyTaskId with
  | none => (.ok (.noTaskId, inst), calls)
  | some taskId =>
    if phase.status.isTerminal then (.ok (.alreadyTerminal phase.phaseId, inst), calls)
    else match session.getTask calls taskId with
    | .error e => (.error e, calls ++ [taskId])
    | .ok task =>
      (settleCurrent inst phase taskId task forceAdvance files clk, calls ++ [taskId])

/-- The phase loop over the remaining indices, and the calls made so far. -/
def reconcileLoopLive (session : CanopySession) (forceAdvance : Bool) (files : Files)
    (clk : Clock) (currentIdx : ℕ) :
    List ℕ → WorkflowInstance → List String → Except DispatchError ReconcileResult × List String
  | [], inst, calls => (.ok ⟨inst, []⟩, calls)
  | idx :: rest, inst, calls =>
    let (turn, calls) :=
      if idx ≠ currentIdx then (.ok (.noTaskId, inst), calls)
      else match inst.phaseStates[idx]? with
        | none => (.ok (.noTaskId, inst), calls)
        | some phase => reconcileCurrentLive inst phase session forceAdvance files clk calls
    match turn with
    | .error e => (.error e, calls)
    | .ok (outcome, inst) =>
      let (result, calls) :=
        reconcileLoopLive session forceAdvance files clk currentIdx rest inst calls
      (result.map fun r => { r with outcomes := outcome :: r.outcomes }, calls)

/-- Reconcile in-flight workflow phases against their Canopy task statuses, and the task ids asked
for on the way. -/
def reconcilePhasesLive (inst : WorkflowInstance) (session : CanopySession) (forceAdvance : Bool)
    (files : Files) (clk : Clock) : Except DispatchError ReconcileResult × List String :=
  reconcileLoopLive session forceAdvance files clk inst.currentPhaseIdx
    (List.range inst.phaseStates.length) inst []

/-! ## The calls of a reconciliation -/

section Calls

variable {inst : WorkflowInstance} {phase : PhaseState} {session : CanopySession}
  {canopy : CanopyClient} {forceAdvance : Bool} {files : Files} {clk : Clock} {currentIdx : ℕ}

/-- The body makes one call for an open phase with a task, and none otherwise. -/
theorem reconcileCurrentLive_eq (h : inst.currentPhase = some phase) :
    reconcileCurrentLive inst phase session forceAdvance files clk [] =
      (reconcileCurrent inst phase session.first forceAdvance files clk,
        inst.openTask.toList) := by
  unfold reconcileCurrentLive
  cases ht : phase.canopyTaskId with
  | none =>
    have hopen : inst.openTask = none := by
      unfold openTask
      rw [h, Option.bind_some, ht, ite_self]
    rw [hopen]
    unfold reconcileCurrent
    simp only [ht, Option.toList_none]
  | some taskId =>
    cases hs : phase.status.isTerminal with
    | true =>
      rw [openTask_of_terminal h hs]
      unfold reconcileCurrent
      simp only [ht, hs, if_true, Option.toList_none]
    | false =>
      rw [openTask_of_open h ht hs]
      simp only [Bool.false_eq_true, if_false, List.nil_append, Option.toList_some]
      have hfirst : session.first.getTask taskId = session.getTask [] taskId := rfl
      cases hans : session.getTask [] taskId with
      | error e => rw [reconcileCurrent_fetchError ht hs (hfirst.trans hans)]
      | ok task => rw [reconcileCurrent_fetched ht hs (hfirst.trans hans)]

theorem reconcileLoopLive_skip {l : List ℕ} {calls : List String} (h : currentIdx ∉ l) :
    reconcileLoopLive session forceAdvance files clk currentIdx l inst calls =
      (.ok ⟨inst, List.replicate l.length .noTaskId⟩, calls) := by
  induction l with
  | nil => rfl
  | cons idx rest ih =>
    rw [List.mem_cons, not_or] at h
    unfold reconcileLoopLive
    rw [if_pos (Ne.symm h.1)]
    simp only [ih h.2]
    rfl

/-- Only the turn of the current phase can make a call. -/
theorem reconcileLoopLive_split {pre post : List ℕ} (hpre : currentIdx ∉ pre)
    (hpost : currentIdx ∉ post) (hp : inst.phaseStates[currentIdx]? = some phase) :
    reconcileLoopLive session forceAdvance files clk currentIdx (pre ++ currentIdx :: post) inst
        [] =
      let turn := reconcileCurrentLive inst phase session forceAdvance files clk []
      (turn.1.map fun out => ⟨out.2, List.replicate pre.length .noTaskId ++
        out.1 :: List.replicate post.length .noTaskId⟩, turn.2) := by
  induction pre with
  | nil =>
    rw [List.nil_append, reconcileLoopLive]
    simp only [ne_eq, not_true_eq_false, if_false, hp]
    cases (reconcileCurrentLive inst phase session forceAdvance files clk []).1 with
    | error e => rfl
    | ok out =>
      simp only [reconcileLoopLive_skip hpost]
      rfl
  | cons idx rest ih =>
    rw [List.mem_cons, not_or] at hpre
    rw [List.cons_append, reconcileLoopLive, if_pos (Ne.symm hpre.1)]
    simp only [ih hpre.2]
    cases (reconcileCurrentLive inst phase session forceAdvance files clk []).1 <;> rfl

/-- **One call.** A reconciliation asks for the open task and nothing else, and its result is that of
the pure function on the answer. -/
theorem reconcilePhasesLive_eq (inst : WorkflowInstance) (session : CanopySession)
    (forceAdvance : Bool) (files : Files) (clk : Clock) :
    reconcilePhasesLive inst session forceAdvance files clk =
      (reconcilePhases inst session.first forceAdvance files clk, inst.openTask.toList) := by
  unfold reconcilePhasesLive
  cases hp : inst.currentPhase with
  | none =>
    have hle : inst.phaseStates.length ≤ inst.currentPhaseIdx := List.getElem?_eq_none_iff.mp hp
    have hopen : inst.openTask = none := by
      unfold openTask
      rw [hp, Option.bind_none]
    rw [reconcilePhases_none hp, hopen, reconcileLoopLive_skip (by simpa using hle),
      List.length_range]
    rfl
  | some phase =>
    have hlt : inst.currentPhaseIdx < inst.phaseStates.length :=
      (List.getElem?_eq_some_iff.mp hp).1
    rw [reconcilePhases_some hp, range_eq_of_lt hlt,
      reconcileLoopLive_split (by simp) (by simp; omega) hp]
    simp only [reconcileCurrentLive_eq hp, List.length_range, List.length_map]

end Calls

/-! ## The frame of a reconciliation -/

/-- At most one phase moved, on at most one call. -/
structure MovesOnePhase (inst : WorkflowInstance) (result : ReconcileResult)
    (calls : List String) : Prop where
  index : result.inst.currentPhaseIdx = inst.currentPhaseIdx ∨
    result.inst.currentPhaseIdx = inst.currentPhaseIdx + 1
  others : ∀ i ≠ inst.currentPhaseIdx, result.inst.phaseStates[i]? = inst.phaseStates[i]?
  workflowId : result.inst.workflowId = inst.workflowId
  template : result.inst.template = inst.template
  handoffPath : result.inst.handoffPath = inst.handoffPath
  createdAt : result.inst.createdAt = inst.createdAt
  log : ∃ entered, result.inst.transitions = inst.transitions ++ entered ∧
    result.inst.currentPhaseIdx = inst.currentPhaseIdx + entered.length
  outcomes : result.outcomes.length = inst.phaseStates.length
  calls : calls.length ≤ 1

/-- The answer moves the workflow to a phase of the template that has no state. -/
def WorkflowInstance.StrandedBy (inst : WorkflowInstance)
    (answer : Option (Except DispatchError TaskDetail)) (forceAdvance : Bool) (files : Files) :
    Prop :=
  ∃ task, answer = some (.ok task) ∧ inst.AdvancedBy forceAdvance files task ∧
    inst.phaseStates[inst.currentPhaseIdx + 1]? = none

section Frame

variable {inst out : WorkflowInstance} {canopy : CanopyClient} {forceAdvance : Bool}
  {files : Files} {clk : Clock} {answer : Option (Except DispatchError TaskDetail)}

theorem length_outcomes {result : ReconcileResult}
    (hr : reconcilePhases inst canopy forceAdvance files clk = .ok result) :
    result.outcomes.length = inst.phaseStates.length := by
  cases hp : inst.currentPhase with
  | none =>
    cases hr.symm.trans (reconcilePhases_none hp)
    exact List.length_replicate
  | some phase =>
    have hlt : inst.currentPhaseIdx < inst.phaseStates.length :=
      (List.getElem?_eq_some_iff.mp hp).1
    rw [reconcilePhases_some hp] at hr
    cases hturn : reconcileCurrent inst phase canopy forceAdvance files clk with
    | error e =>
      rw [hturn] at hr
      cases hr
    | ok turn =>
      rw [hturn] at hr
      cases hr
      simp only [List.length_append, List.length_replicate, List.length_cons]
      omega

/-- A phase state that is not the current one stays. -/
theorem Reconciled.others (h : Reconciled inst forceAdvance files answer out) {i : ℕ}
    (hi : i ≠ inst.currentPhaseIdx) : out.phaseStates[i]? = inst.phaseStates[i]? := by
  have hset : ∀ p', (inst.phaseStates.set inst.currentPhaseIdx p')[i]? = inst.phaseStates[i]? :=
    fun p' => List.getElem?_set_ne (Ne.symm hi)
  cases h with
  | unasked | waiting => rfl
  | failed | stopped | finished | entered | stranded | blocked => exact hset _

theorem Reconciled.index (h : Reconciled inst forceAdvance files answer out) :
    out.currentPhaseIdx = inst.currentPhaseIdx ∨
      out.currentPhaseIdx = inst.currentPhaseIdx + 1 := by
  cases h with
  | unasked | waiting | failed | stopped | finished | blocked => exact .inl rfl
  | entered | stranded => exact .inr rfl

/-- The log grows with the index, unless the workflow is stranded. -/
theorem Reconciled.log (h : Reconciled inst forceAdvance files answer out)
    (hkept : ¬ inst.StrandedBy answer forceAdvance files) :
    ∃ entered, out.transitions = inst.transitions ++ entered ∧
      out.currentPhaseIdx = inst.currentPhaseIdx + entered.length := by
  cases h with
  | unasked | waiting | failed | stopped | finished | blocked =>
    exact ⟨[], (List.append_nil _).symm, rfl⟩
  | entered task p' next t t' log => exact ⟨[log], rfl, rfl⟩
  | stranded task p' t hc hs hp hf ho hn => exact absurd ⟨task, rfl, ⟨hc, hs, hf, ho⟩, hn⟩ hkept

/-- A stranded workflow has moved without a transition. -/
theorem Reconciled.stranded_log (h : Reconciled inst forceAdvance files answer out)
    (hstranded : inst.StrandedBy answer forceAdvance files) :
    out.transitions = inst.transitions ∧ out.currentPhaseIdx = inst.currentPhaseIdx + 1 := by
  obtain ⟨task, hans, ⟨hc, hs, hf, ho⟩, hn⟩ := hstranded
  cases h with
  | unasked => cases hans
  | waiting task' hc' =>
    cases hans
    rw [hc] at hc'
    cases hc'
  | failed task' p' t hfailed =>
    cases hans
    rw [not_failed_of_completed hc] at hfailed
    cases hfailed
  | stopped task' p' t hc' hs' =>
    cases hans
    exact absurd hs hs'
  | finished task' p' t hc' hs' hp hf' => exact absurd hf' hf
  | entered task' p' next t t' log hc' hs' hp hf' ho' hn' => cases hn.symm.trans hn'
  | stranded => exact ⟨rfl, rfl⟩
  | blocked task' p' t b hc' hs' hp hf' ho' =>
    cases hans
    exact absurd ho ho'

end Frame

/-- **Frame.** A reconciliation that succeeds moves at most one phase, on at most one call and with
every move in the log, exactly when it does not move the workflow to a phase of the template that has
no state. -/
theorem movesOnePhase_iff (inst : WorkflowInstance) (session : CanopySession)
    (forceAdvance : Bool) (files : Files) (clk : Clock) (result : ReconcileResult)
    (calls : List String)
    (hr : reconcilePhasesLive inst session forceAdvance files clk = (.ok result, calls)) :
    MovesOnePhase inst result calls ↔
      ¬ inst.StrandedBy (inst.answer session.first) forceAdvance files := by
  rw [reconcilePhasesLive_eq] at hr
  have hresult : reconcilePhases inst session.first forceAdvance files clk = .ok result :=
    congrArg Prod.fst hr
  have hcalls : inst.openTask.toList = calls := congrArg Prod.snd hr
  have hcase := reconcilePhases_reconciled hresult
  constructor
  · intro hmoves hstranded
    obtain ⟨hlog, hidx⟩ := hcase.stranded_log hstranded
    obtain ⟨entered, htransitions, hlen⟩ := hmoves.log
    have hnil : entered = [] := List.append_right_eq_self.mp (hlog.symm.trans htransitions).symm
    rw [hnil, hidx, List.length_nil] at hlen
    omega
  · intro hkept
    have hframe := hcase.sameFrame
    refine ⟨hcase.index, fun i hi => hcase.others hi, hframe.workflowId, hframe.template,
      hframe.handoffPath, hframe.createdAt, hcase.log hkept, length_outcomes hresult, ?_⟩
    rw [← hcalls]
    cases inst.openTask with
    | none => exact Nat.zero_le 1
    | some taskId => exact le_rfl

/-- Canopy reports the task of every phase in this status. -/
def reporting (status : String) : CanopySession :=
  ⟨fun _ taskId => .ok { taskId := taskId, title := "implement", status := status }⟩

/-- A workflow at work on the first of its two phases. -/
def implementing : WorkflowInstance :=
  let inst := new "wf" implAuditDefault "handoff.md" 0
  { inst with
    status := .inProgress
    phaseStates := inst.phaseStates.set 0 { PhaseState.new "implement" .outputVerifier with
      status := .active, canopyTaskId := some "task-1", startedAt := some 0 } }

/-- The task of the first phase is completed, and the second phase is entered. -/
theorem movesOnePhase_iff_completed :
    ∃ result calls, reconcilePhasesLive implementing (reporting "completed") true (fun _ => true)
        Int.ofNat = (.ok result, calls) ∧
      result.inst.currentPhaseIdx = 1 ∧ result.inst.transitions.length = 1 ∧
      MovesOnePhase implementing result calls := by
  have hkept : ¬ implementing.StrandedBy
      (implementing.answer (reporting "completed").first) true fun _ => true := by
    rintro ⟨task, -, -, hnone⟩
    cases hnone
  exact ⟨_, _, rfl, rfl, rfl,
    (movesOnePhase_iff implementing (reporting "completed") true _ Int.ofNat _ _ rfl).mpr hkept⟩

/-- A workflow of two phases of one id, as it is loaded: the second state was stored over the
first. -/
def collapsed : WorkflowInstance :=
  { new "wf" { implAuditDefault with
      phases := implAuditDefault.phases.map fun p => { p with phaseId := "implement" } }
      "handoff.md" 0 with
    status := .inProgress
    phaseStates := [{ PhaseState.new "implement" .outputVerifier with
      status := .active, canopyTaskId := some "task-1", startedAt := some 0 }] }

/-- The index leaves the phase list, and the log does not tell. -/
theorem collapsed_strands :
    ∃ result calls, reconcilePhasesLive collapsed (reporting "completed") true (fun _ => true)
        Int.ofNat = (.ok result, calls) ∧
      result.inst.currentPhaseIdx = collapsed.currentPhaseIdx + 1 ∧
      result.inst.transitions.length = collapsed.transitions.length := by
  refine ⟨_, _, rfl, ?_, ?_⟩
  · rfl
  · rfl

end Hymenium
