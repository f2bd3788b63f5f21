import Hymenium.Commands.Effects
import Hymenium.Dispatch.Frame
import Hymenium.Store.Listing
import Hymenium.Workflow.Blocked

/-!
# What the reconcile command persists

The command writes the phase states, the status and the index of the instance it computed, and clears
`blockedOn`. So the stored workflow is the computed one, up to `updatedAt` and the transition log,
exactly when the reconciliation leaves no note of missing artifacts (`storedAs_iff`). The store may
hold any rows that load, in any order.
-/

namespace Hymenium

open WorkflowInstance Tables

/-! ## The note after a reconciliation -/

/-- The answer completes the current phase, and the advance that follows finds required artifacts of
the next phase missing. -/
def WorkflowInstance.BlockedBy (inst : WorkflowInstance)
    (answer : Option (Except DispatchError TaskDetail)) (forceAdvance : Bool) (files : Files) :
    Prop :=
  ∃ task, answer = some (.ok task) ∧ isCompletedStatus task.status = true ∧
    task.stopSignal = none ∧ inst.NextArtifactsMissing (reconcileEvaluator forceAdvance task) files

section Note

variable {inst : WorkflowInstance} {phase : PhaseState} {canopy : CanopyClient}
  {forceAdvance : Bool} {files : Files} {clk : Clock}

/-- The search for artifacts reads the id of the current phase and nothing else of its state. -/
theorem nextArtifactsMissing_withCurrent (h : inst.currentPhase = some phase) {p' : PhaseState}
    (hid : p'.phaseId = phase.phaseId) {t : DateTime} {evaluator : GateEvaluator} :
    (inst.withCurrent p' t).NextArtifactsMissing evaluator files ↔
      inst.NextArtifactsMissing evaluator files := by
  unfold NextArtifactsMissing
  rw [currentPhase_withCurrent h]
  constructor
  · rintro ⟨current, p, next, hc, hp, hn, hexit, hmissing⟩
    obtain rfl := Option.some.inj hc
    exact ⟨phase, p, next, h, hp, hn, by rw [← hid]; exact hexit, hmissing⟩
  · rintro ⟨current, p, next, hc, hp, hn, hexit, hmissing⟩
    obtain rfl := Option.some.inj (h.symm.trans hc)
    exact ⟨p', p, next, rfl, hp, hn, by rw [hid]; exact hexit, hmissing⟩

theorem blockedOn_advanceReconciled (inst : WorkflowInstance) (evaluator : GateEvaluator)
    (files : Files) (clk : Clock) :
    (advanceReconciled inst evaluator files clk).1.blockedOn =
      (inst.advance evaluator files clk).2.blockedOn := by
  unfold advanceReconciled
  split
  · next heq => rw [heq]
  · next heq => rw [heq]
  · next heq => rw [heq]

/-- A fetched task leaves the note as it was, unless the advance finds artifacts missing. -/
theorem Settled.blockedOn {taskId : String} {task : TaskDetail} {outcome : PhaseReconcileOutcome}
    {out : WorkflowInstance} (h : inst.currentPhase = some phase)
    (hsettled : Settled inst phase taskId task forceAdvance files clk outcome out) :
    (inst.BlockedBy (some (.ok task)) forceAdvance files ∧ out.blockedOn ≠ none) ∨
      (¬ inst.BlockedBy (some (.ok task)) forceAdvance files ∧
        out.blockedOn = inst.blockedOn) := by
  cases hsettled with
  | stopped p' t signal hc hs =>
    refine .inr ⟨?_, rfl⟩
    rintro ⟨task', heq, -, hs', -⟩
    cases heq
    cases hs.symm.trans hs'
  | advanced p' t hc hs hp hid =>
    have hcur := currentPhase_withCurrent h p' t
    rw [blockedOn_advanceReconciled]
    by_cases hm : inst.NextArtifactsMissing (reconcileEvaluator forceAdvance task) files
    · have hadv : ∃ b, (inst.withCurrent p' t).advance (reconcileEvaluator forceAdvance task)
          files (fun k => clk (k + 3)) = (_, { inst.withCurrent p' t with blockedOn := some b }) :=
        advance_missing hcur hp ((nextArtifactsMissing_withCurrent h hid).mpr hm)
      obtain ⟨b, hadv⟩ := hadv
      rw [hadv]
      exact .inl ⟨⟨task, rfl, hc, hs, hm⟩, Option.some_ne_none b⟩
    · refine .inr ⟨?_, ?_⟩
      · rintro ⟨task', heq, -, -, hm'⟩
        cases heq
        exact hm hm'
      · exact advance_keeps hcur fun hm' => hm ((nextArtifactsMissing_withCurrent h hid).mp hm')
  | failed p' t hf =>
    refine .inr ⟨?_, rfl⟩
    rintro ⟨task', heq, hc, -⟩
    cases heq
    rw [not_failed_of_completed hc] at hf
    cases hf
  | waiting hc hf =>
    refine .inr ⟨?_, rfl⟩
    rintro ⟨task', heq, hc', -⟩
    cases heq
    cases hc.symm.trans hc'

/-- A reconciliation leaves the note as it was, unless the advance finds artifacts missing. -/
theorem blockedOn_reconcilePhases {result : ReconcileResult}
    (hr : reconcilePhases inst canopy forceAdvance files clk = .ok result) :
    (inst.BlockedBy (inst.answer canopy) forceAdvance files ∧ result.inst.blockedOn ≠ none) ∨
      (¬ inst.BlockedBy (inst.answer canopy) forceAdvance files ∧
        result.inst.blockedOn = inst.blockedOn) := by
  rcases reconcilePhases_ok_cases hr with
    ⟨hnone, hout⟩ | ⟨phase, taskId, task, outcome, h, hans, hsettled⟩
  · rw [hnone, hout]
    refine .inr ⟨?_, rfl⟩
    rintro ⟨task, hsome, -⟩
    cases hsome
  · rw [hans]
    exact hsettled.blockedOn h

end Note

/-! ## What is stored -/

/-- Loading a workflow reads one row of the workflows, and the phases. -/
theorem getWorkflow_eq_some {t : Tables} {id : WorkflowId} {inst : WorkflowInstance}
    (h : t.getWorkflow id = .ok (some inst)) :
    ∃ row, t.workflow id = some row ∧ fromJson row.templateJson = .ok inst.template ∧
      parseDatetime "created_at" row.createdAt = .ok inst.createdAt ∧
      row.handoffPath = inst.handoffPath ∧ inst.workflowId = id ∧ inst.transitions = [] ∧
      t.loadPhaseStates id = .ok inst.phaseStates := by
  unfold Tables.getWorkflow at h
  cases hrow : t.workflow id with
  | none => simp [hrow] at h
  | some row =>
    have hid : row.workflowId = id := (workflow_eq_some hrow).2
    simp only [hrow, hid, bind_ok_iff] at h
    obtain ⟨status, -, template, htemplate, createdAt, hcreated, updatedAt, -, idx, -, states,
      hphases, hinst⟩ := h
    cases hinst
    exact ⟨row, rfl, htemplate, hcreated, rfl, rfl, rfl, hphases⟩

theorem phaseId_of_toState {row : PhaseRow} {state : PhaseState} (h : row.toState = .ok state) :
    state.phaseId = row.phaseId := by
  unfold PhaseRow.toState at h
  simp only [bind_ok_iff] at h
  obtain ⟨_, -, _, -, _, -, _, -, _, -, _, -, _, -, hstate⟩ := h
  cases hstate
  rfl

/-- The keys of the phase rows are the ids of the phases that were loaded. -/
theorem keys_of_loadPhaseStates {t : Tables} {id : WorkflowId} {states : List PhaseState}
    (h : t.loadPhaseStates id = .ok states) :
    ((t.phasesOf id).map PhaseRow.key).Perm ((states.map (·.phaseId)).map (Prod.mk id)) := by
  unfold Tables.loadPhaseStates at h
  have hperm := List.perm_insertionSort (fun a b : PhaseRow => a.phaseOrder ≤ b.phaseOrder)
    (t.phasesOf id)
  have howner : ∀ row ∈ (t.phasesOf id).insertionSort (·.phaseOrder ≤ ·.phaseOrder),
      row.workflowId = id := by
    intro row hrow
    have hmem := hperm.mem_iff.mp hrow
    exact of_decide_eq_true (List.mem_filter.mp hmem).2
  have hkeys : ∀ {rows : List PhaseRow} {states : List PhaseState},
      List.Forall₂ (fun row state => row.toState = .ok state) rows states →
      (∀ row ∈ rows, row.workflowId = id) →
      rows.map PhaseRow.key = (states.map (·.phaseId)).map (Prod.mk id) := by
    intro rows states hrows
    induction hrows with
    | nil => exact fun _ => rfl
    | cons hstate hrest ih =>
      intro hown
      rw [List.map_cons, List.map_cons, List.map_cons,
        ih fun row hrow => hown row (List.mem_cons_of_mem _ hrow), phaseId_of_toState hstate]
      rw [PhaseRow.key, hown _ List.mem_cons_self]
  rw [← hkeys (mapM_ok_iff.mp h) howner]
  exact (hperm.map PhaseRow.key).symm

/-- The rows of a list of phases have orders of their own. -/
theorem PhaseRow.eq_of_phaseOrder {id : WorkflowId} {states : List PhaseState} {order : ℕ}
    {a b : PhaseRow} (ha : a ∈ PhaseRow.ofStates id states order)
    (hb : b ∈ PhaseRow.ofStates id states order) (hle : a.phaseOrder ≤ b.phaseOrder)
    (hge : b.phaseOrder ≤ a.phaseOrder) : a = b := by
  induction states generalizing order with
  | nil => cases ha
  | cons state states ih =>
    -- the first row comes strictly before the others
    have hlater : ∀ row ∈ PhaseRow.ofStates id states (order + 1), (order : ℤ) < row.phaseOrder := by
      intro row hrow
      have hbound := (PhaseRow.pairwise_ofStates id states (order + 1)).2 row hrow
      omega
    have hfirst : (PhaseRow.ofState id state order).phaseOrder = order := rfl
    rcases List.mem_cons.mp ha with rfl | ha <;> rcases List.mem_cons.mp hb with rfl | hb
    · rfl
    · have hlt := hlater b hb
      omega
    · have hlt := hlater a ha
      omega
    · exact ih ha hb

/-- Upserting phases over rows of the same keys, in whatever order they stand, is read back as the
phases. -/
theorem loadPhaseStates_upsertPhases {t : Tables} (hc : t.Constraints) {id : WorkflowId}
    {old new : List PhaseState} (hold : t.loadPhaseStates id = .ok old)
    (hids : new.map (·.phaseId) = old.map (·.phaseId)) :
    (t.upsertPhases (PhaseRow.ofStates id new 0)).loadPhaseStates id = .ok new := by
  have hkeys : ((t.phasesOf id).map PhaseRow.key).Perm
      ((PhaseRow.ofStates id new 0).map PhaseRow.key) := by
    rw [PhaseRow.map_key_ofStates, hids]
    exact keys_of_loadPhaseStates hold
  have hnodup : ((t.phasesOf id).map PhaseRow.key).Nodup :=
    hc.phaseKeys.sublist (List.filter_sublist.map _)
  have hperm : ((t.upsertPhases (PhaseRow.ofStates id new 0)).phasesOf id).Perm
      (PhaseRow.ofStates id new 0) := by
    rw [phasesOf_upsertPhases fun row hrow => PhaseRow.workflowId_of_mem_ofStates hrow]
    exact Keyed.upsertAll_perm hkeys (hkeys.nodup_iff.mp hnodup)
  have hsorted : ((t.upsertPhases (PhaseRow.ofStates id new 0)).phasesOf id).insertionSort
      (·.phaseOrder ≤ ·.phaseOrder) = PhaseRow.ofStates id new 0 := by
    have hsort := (List.perm_insertionSort (fun a b : PhaseRow => a.phaseOrder ≤ b.phaseOrder)
      ((t.upsertPhases (PhaseRow.ofStates id new 0)).phasesOf id)).trans hperm
    refine hsort.eq_of_pairwise (fun a b ha hb => ?_) (List.pairwise_insertionSort _ _)
      (PhaseRow.pairwise_ofStates id new 0).1
    exact PhaseRow.eq_of_phaseOrder (hsort.mem_iff.mp ha) hb
  rw [Tables.loadPhaseStates, hsorted]
  exact PhaseRow.mapM_toState_ofStates id new 0

/-- The three writes of a reconciliation. -/
theorem toTables_persistReconciled {db : Db} {id : WorkflowId} {out : WorkflowInstance}
    {clk : Clock} {r : Unit × Db} (h : (persistReconciled id out clk).run db = .ok r) :
    r.2.toTables = ((db.upsertPhases (PhaseRow.ofStates id out.phaseStates 0)).setStatus id
      out.status none (clk 5)).setPhaseIdx id out.currentPhaseIdx (clk 6) := by
  unfold persistReconciled at h
  simp only [Txn.run_bind_ok, Txn.run_liftStore_ok] at h
  obtain ⟨_, db₁, h₁, _, db₂, h₂, h₃⟩ := h
  have ht₂ : db₂.toTables = _ := (updateWorkflowStatus_ok.mp h₂).2.2
  rw [(updateCurrentPhaseIdx_ok.mp h₃).2.2.2, ht₂, upsertPhaseStates_eq h₁]

/-- The computed instance as it is loaded back. -/
def WorkflowInstance.persisted (inst out : WorkflowInstance) (clk : Clock) : WorkflowInstance :=
  { inst with
    status := out.status
    blockedOn := none
    currentPhaseIdx := out.currentPhaseIdx
    phaseStates := out.phaseStates
    updatedAt := clk 6 }

theorem getWorkflow_persistReconciled {db : Db} {id : WorkflowId} {inst out : WorkflowInstance}
    (hload : db.getWorkflow id = .ok (some inst)) (hsame : inst.SameFrame out) {clk : Clock}
    {r : Unit × Db} (h : (persistReconciled id out clk).run db = .ok r) :
    r.2.getWorkflow id = .ok (some (inst.persisted out clk)) := by
  obtain ⟨row, hrow, htemplate, hcreated, hpath, hid, hlog, hphases⟩ := getWorkflow_eq_some hload
  have hstates := loadPhaseStates_upsertPhases db.constraints hphases hsame.phaseIds
  have hrowid : row.workflowId = id := (workflow_eq_some hrow).2
  rw [toTables_persistReconciled h]
  generalize hrows : PhaseRow.ofStates id out.phaseStates 0 = rows at hstates ⊢
  have hload' : (((db.upsertPhases rows).setStatus id out.status none (clk 5)).setPhaseIdx id
      out.currentPhaseIdx (clk 6)).loadPhaseStates id = .ok out.phaseStates := hstates
  have hupdated : parseDatetime "updated_at" (.encoded (clk 6)) = .ok (clk 6) := rfl
  unfold Tables.getWorkflow WorkflowInstance.persisted
  simp only [workflow_setPhaseIdx, workflow_setStatus, workflow_upsertPhases, if_true, hrow,
    Option.map_some, WorkflowRow.withPhaseIdx, WorkflowRow.withStatus, parseWorkflowStatus_toString,
    hrowid, hload', htemplate, hcreated, hupdated, toUsize, Int.natCast_nonneg,
    Int.toNat_natCast, bind, Except.bind, pure, Except.pure, hpath, hlog, hid]

/-- The stored workflow is the computed one in every field but `updatedAt` and the transition
log. -/
def StoredAs (stored computed : WorkflowInstance) : Prop :=
  { stored with updatedAt := computed.updatedAt, transitions := computed.transitions } = computed

theorem storedAs_persisted {inst out : WorkflowInstance} (hsame : inst.SameFrame out)
    (clk : Clock) : StoredAs (inst.persisted out clk) out ↔ out.blockedOn = none := by
  obtain ⟨hid, htemplate, hpath, hcreated, -⟩ := hsame
  constructor
  · intro h
    exact (congrArg WorkflowInstance.blockedOn h).symm
  · intro h
    unfold StoredAs WorkflowInstance.persisted
    rw [← hid, ← htemplate, ← hpath, ← hcreated, ← h]

/-- **Write-back.** After a reconciliation that succeeds, the stored workflow is the computed one
exactly when nothing was noted before, and the advance finds no required artifacts missing. -/
theorem storedAs_iff (db : Db) (id : WorkflowId) (inst : WorkflowInstance)
    (canopy : CanopyClient) (forceAdvance : Bool) (files : Files) (clk : Clock)
    (hload : db.getWorkflow id = .ok (some inst))
    (hok : (reconcile id canopy forceAdvance files clk db).1 = .ok ()) :
    (∃ result stored, reconcilePhases inst canopy forceAdvance files clk = .ok result ∧
        (reconcile id canopy forceAdvance files clk db).2.getWorkflow id = .ok (some stored) ∧
        StoredAs stored result.inst) ↔
      inst.blockedOn = none ∧ ¬ inst.BlockedBy (inst.answer canopy) forceAdvance files := by
  unfold reconcile at hok ⊢
  rw [hload] at hok ⊢
  dsimp only at hok ⊢
  cases hr : reconcilePhases inst canopy forceAdvance files clk with
  | error e =>
    rw [hr] at hok
    cases hok
  | ok result =>
    rw [hr] at hok
    have hsame := (reconcilePhases_reconciled hr).sameFrame
    simp only at hok ⊢
    rcases withTransaction_cases (persistReconciled id result.inst clk) db with
      ⟨e, herr⟩ | ⟨u, db', hrun, hcommit⟩
    · rw [herr] at hok
      cases hok
    rw [hcommit]
    have hstored := getWorkflow_persistReconciled hload hsame hrun
    have hnote : result.inst.blockedOn = none ↔
        inst.blockedOn = none ∧ ¬ inst.BlockedBy (inst.answer canopy) forceAdvance files := by
      rcases blockedOn_reconcilePhases hr with ⟨hblocked, hne⟩ | ⟨hfree, hkept⟩
      · exact iff_of_false hne fun h => h.2 hblocked
      · rw [hkept]
        exact (and_iff_left hfree).symm
    rw [← hnote, ← storedAs_persisted hsame clk]
    constructor
    · rintro ⟨result', stored, hres, hget, hs⟩
      cases hres
      cases hstored.symm.trans hget
      exact hs
    · intro hs
      exact ⟨result, _, rfl, hstored, hs⟩

/-- A workflow at work on its first phase, with a plan required before each phase. -/
def plannedWorkflow : WorkflowInstance :=
  let inst := new "wf" plannedTemplate "handoff.md" 0
  { inst with
    status := .dispatched
    phaseStates := inst.phaseStates.set 0 { PhaseState.new "implement" .worker with
      status := .active, canopyTaskId := some "task-1", startedAt := some 0 } }

def plannedDb : Db := (withTransaction (insertWorkflowWithHash plannedWorkflow none) Db.empty).2

/-- The plan is there when the first phase completes: the second phase is entered, and stored. -/
theorem storedAs_iff_completed :
    ∃ result stored, reconcilePhases plannedWorkflow (reporting "completed").first true
        (fun _ => true) Int.ofNat = .ok result ∧
      result.inst.currentPhaseIdx = 1 ∧
      (reconcile "wf" (reporting "completed").first true (fun _ => true) Int.ofNat
        plannedDb).2.getWorkflow "wf" = .ok (some stored) ∧
      StoredAs stored result.inst := by
  have hfree : ¬ plannedWorkflow.BlockedBy
      (plannedWorkflow.answer (reporting "completed").first) true fun _ => true := by
    rintro ⟨task, -, -, -, current, p, next, -, -, -, -, hmissing⟩
    exact hmissing fun _ _ _ => rfl
  obtain ⟨result, stored, hresult, hrest⟩ := (storedAs_iff plannedDb "wf" plannedWorkflow
    (reporting "completed").first true (fun _ => true) Int.ofNat (by rfl) (by rfl)).mpr ⟨rfl, hfree⟩
  have hmoved : (reconcilePhases plannedWorkflow (reporting "completed").first true
      (fun _ => true) Int.ofNat).map (·.inst.currentPhaseIdx) = .ok 1 := rfl
  rw [hresult] at hmoved
  exact ⟨result, stored, hresult, Except.ok.inj hmoved, hrest⟩

/-- The plan is missing when the first phase completes: the note is computed, and not stored. -/
theorem note_not_stored :
    ∃ result stored, (reconcile "wf" (reporting "completed").first true (fun _ => false) Int.ofNat
          plannedDb).1 = .ok () ∧
      reconcilePhases plannedWorkflow (reporting "completed").first true (fun _ => false)
        Int.ofNat = .ok result ∧
      (reconcile "wf" (reporting "completed").first true (fun _ => false) Int.ofNat
        plannedDb).2.getWorkflow "wf" = .ok (some stored) ∧
      result.inst.blockedOn = some "Required artifact missing: plan.md (the plan)" ∧
      stored.blockedOn = none := by
  refine ⟨_, _, rfl, rfl, rfl, ?_, ?_⟩
  · rfl
  · rfl

end Hymenium
