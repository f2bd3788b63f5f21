import Hymenium.Store.Statements

/-!
# The ledger: what the store is for

Seen from outside, the store is a ledger: for each workflow id an instance, its content hash and its
outcome. `Tables.Represents` relates tables to a ledger. Loading a workflow returns the instance in
the ledger (`getWorkflow_of_represents`), and each write of the store is an edit of one entry
(`Holds.setStatus` and its siblings), seen by no other (`SameViews`).
-/

namespace Hymenium

/-- What the store knows about one workflow. -/
structure Entry where
  inst : WorkflowInstance
  contentHash : Option String
  outcome : Option WorkflowOutcome

/-- The entries by workflow id. -/
abbrev Ledger := WorkflowId → Option Entry

namespace Entry

variable (e : Entry)

def setStatus (status : WorkflowStatus) (blockedOn : Option String) (now : DateTime) : Entry :=
  { e with inst := { e.inst with status, blockedOn, updatedAt := now } }

def setPhaseIdx (currentPhaseIdx : ℕ) (now : DateTime) : Entry :=
  { e with inst := { e.inst with currentPhaseIdx, updatedAt := now } }

def setPhases (phaseStates : List PhaseState) : Entry :=
  { e with inst := { e.inst with phaseStates } }

def setOutcome (outcome : WorkflowOutcome) : Entry := { e with outcome := some outcome }

end Entry

/-! ## Rows that hold an entry -/

/-- The workflow row of an entry. -/
structure WorkflowRow.Encodes (row : WorkflowRow) (e : Entry) : Prop where
  workflowId : row.workflowId = e.inst.workflowId
  handoffPath : row.handoffPath = e.inst.handoffPath
  status : row.status = e.inst.status.toString
  blockedOn : row.blockedOn = e.inst.blockedOn
  currentPhaseIdx : row.currentPhaseIdx = e.inst.currentPhaseIdx
  createdAt : row.createdAt = .encoded e.inst.createdAt
  updatedAt : row.updatedAt = .encoded e.inst.updatedAt
  templateJson : row.templateJson = .encoded e.inst.template
  contentHash : row.contentHash = e.contentHash

/-- The entry is in no terminal status. -/
def Entry.Live (e : Entry) : Prop := e.inst.status.toString ∉ terminalStatuses

theorem WorkflowRow.Encodes.live_iff {row : WorkflowRow} {e : Entry} (h : row.Encodes e) :
    row.Live ↔ e.Live := by
  unfold WorkflowRow.Live Entry.Live
  rw [h.status]

/-- Phases and outcome stand in tables of their own. -/
theorem WorkflowRow.Encodes.setPhases {row : WorkflowRow} {e : Entry} (h : row.Encodes e)
    (states : List PhaseState) : row.Encodes (e.setPhases states) :=
  ⟨h.workflowId, h.handoffPath, h.status, h.blockedOn, h.currentPhaseIdx, h.createdAt, h.updatedAt,
    h.templateJson, h.contentHash⟩

theorem WorkflowRow.Encodes.setOutcome {row : WorkflowRow} {e : Entry} (h : row.Encodes e)
    (outcome : WorkflowOutcome) : row.Encodes (e.setOutcome outcome) :=
  ⟨h.workflowId, h.handoffPath, h.status, h.blockedOn, h.currentPhaseIdx, h.createdAt, h.updatedAt,
    h.templateJson, h.contentHash⟩

/-- The rows of workflow `id` are those of `e`. The transition log is not loaded with an
instance. -/
structure Tables.Holds (t : Tables) (id : WorkflowId) (e : Entry) : Prop where
  row : ∃ row, t.workflow id = some row ∧ row.Encodes e
  phases : t.phasesOf id = PhaseRow.ofStates id e.inst.phaseStates 0
  outcome : (t.outcome id).map (·.outcomeJson) = e.outcome.map .encoded
  transitions : e.inst.transitions = []

/-- The tables hold the entries of the ledger and no other workflow. -/
def Tables.Represents (t : Tables) (ledger : Ledger) : Prop :=
  ∀ id, match ledger id with
    | none => t.workflow id = none ∧ t.outcome id = none
    | some e => t.Holds id e

namespace Tables

variable {t t' : Tables} {id : WorkflowId} {e : Entry} {ledger : Ledger}

theorem Holds.workflowId_eq (h : t.Holds id e) : e.inst.workflowId = id := by
  obtain ⟨row, hrow, henc⟩ := h.row
  rw [← henc.workflowId, (workflow_eq_some hrow).2]

/-- Loading a workflow returns the instance of its entry. -/
theorem Holds.getWorkflow (h : t.Holds id e) : t.getWorkflow id = .ok (some e.inst) := by
  obtain ⟨row, hrow, henc⟩ := h.row
  have hid : row.workflowId = id := (workflow_eq_some hrow).2
  unfold Tables.getWorkflow
  simp only [hrow, henc.status, henc.templateJson, henc.createdAt, henc.updatedAt,
    henc.currentPhaseIdx, parseWorkflowStatus_toString, fromJson, parseDatetime, toUsize, hid,
    loadPhaseStates_ofStates h.phases, henc.handoffPath, henc.blockedOn, Int.natCast_nonneg,
    if_true, Int.toNat_natCast, bind, Except.bind, pure, Except.pure]
  rw [← h.transitions, ← h.workflowId_eq]

theorem Holds.getOutcome (h : t.Holds id e) : t.getOutcome id = .ok e.outcome := by
  have hout := h.outcome
  unfold Tables.getOutcome
  cases hrow : t.outcome id with
  | none =>
    rw [hrow] at hout
    cases ho : e.outcome with
    | none => rfl
    | some o => simp [ho] at hout
  | some row =>
    rw [hrow] at hout
    cases ho : e.outcome with
    | none => simp [ho] at hout
    | some o =>
      rw [ho, Option.map_some, Option.map_some, Option.some.injEq] at hout
      simp only [hout, fromJson, Except.map]

theorem Represents.holds (h : t.Represents ledger) (he : ledger id = some e) : t.Holds id e := by
  have hid := h id
  rw [he] at hid
  exact hid

theorem Represents.absent (h : t.Represents ledger) (he : ledger id = none) :
    t.workflow id = none ∧ t.outcome id = none := by
  have hid := h id
  rw [he] at hid
  exact hid

/-- What `get_workflow` answers on tables that represent a ledger. -/
theorem getWorkflow_of_represents (h : t.Represents ledger) (id : WorkflowId) :
    t.getWorkflow id = .ok ((ledger id).map (·.inst)) := by
  cases he : ledger id with
  | none => simp [Tables.getWorkflow, (h.absent he).1]
  | some e => exact (h.holds he).getWorkflow

/-- A stored workflow has an entry. -/
theorem Represents.entry_of_row (h : t.Represents ledger) {row : WorkflowRow}
    (hrow : t.workflow id = some row) : ∃ e, ledger id = some e ∧ row.Encodes e := by
  cases he : ledger id with
  | none => simp [(h.absent he).1] at hrow
  | some e =>
    obtain ⟨row', hrow', henc⟩ := (h.holds he).row
    obtain rfl := Option.some.inj (hrow'.symm.trans hrow)
    exact ⟨e, rfl, henc⟩

/-- The ledger reads the index on content hashes: two live entries with one hash are one. -/
theorem Represents.exclusive (h : t.Represents ledger) (hc : t.Constraints) {id id' : WorkflowId}
    {e e' : Entry} (he : ledger id = some e) (he' : ledger id' = some e') (hlive : e.Live)
    (hlive' : e'.Live) {hash : String} (hhash : e.contentHash = some hash)
    (hhash' : e'.contentHash = some hash) : id = id' := by
  obtain ⟨row, hrow, henc⟩ := (h.holds he).row
  obtain ⟨row', hrow', henc'⟩ := (h.holds he').row
  obtain ⟨hmem, hid⟩ := workflow_eq_some hrow
  obtain ⟨hmem', hid'⟩ := workflow_eq_some hrow'
  rw [← hid, ← hid']
  exact (nodup_activeHashes_iff hc.workflowKeys).mp hc.activeHashes row hmem row' hmem'
    (henc.live_iff.mpr hlive) (henc'.live_iff.mpr hlive') hash (henc.contentHash.trans hhash)
    (henc'.contentHash.trans hhash')

/-- A hash is free when no live entry of the ledger has it. -/
theorem Represents.hashFree (h : t.Represents ledger) (hc : t.Constraints) {id : WorkflowId}
    (hfree : ∀ e, ledger id = some e → ∀ id' e', ledger id' = some e' → e'.Live →
      ∀ hash, e.contentHash = some hash → e'.contentHash ≠ some hash) : t.HashFree id := by
  intro row hrow hash hhash
  rw [liveByHash_eq_none_iff]
  intro row' hmem' hhash' hlive'
  obtain ⟨e, he, henc⟩ := h.entry_of_row hrow
  obtain ⟨e', he', henc'⟩ := h.entry_of_row (Keyed.find_of_mem hc.workflowKeys hmem')
  exact hfree e he _ e' he' (henc'.live_iff.mp hlive') hash (henc.contentHash.symm.trans hhash)
    (henc'.contentHash.symm.trans hhash')

/-- The stored phase ids of a workflow are distinct. -/
theorem Holds.nodup (hc : t.Constraints) (h : t.Holds id e) :
    (e.inst.phaseStates.map (·.phaseId)).Nodup := by
  have hkeys : ((t.phasesOf id).map PhaseRow.key).Nodup :=
    hc.phaseKeys.sublist (List.filter_sublist.map _)
  rw [h.phases] at hkeys
  exact (PhaseRow.nodup_key_ofStates id 0).mp hkeys

/-! ## Edits of one entry -/

theorem Holds.setStatus (h : t.Holds id e) (status : WorkflowStatus) (blockedOn : Option String)
    (now : DateTime) :
    (t.setStatus id status blockedOn now).Holds id (e.setStatus status blockedOn now) := by
  obtain ⟨row, hrow, henc⟩ := h.row
  refine ⟨⟨row.withStatus status blockedOn now, ?_, ?_⟩, h.phases, h.outcome, h.transitions⟩
  · rw [workflow_setStatus, if_pos rfl, hrow]
    rfl
  · exact ⟨henc.workflowId, henc.handoffPath, rfl, rfl, henc.currentPhaseIdx, henc.createdAt, rfl,
      henc.templateJson, henc.contentHash⟩

theorem Holds.setPhaseIdx (h : t.Holds id e) (idx : ℕ) (now : DateTime) :
    (t.setPhaseIdx id idx now).Holds id (e.setPhaseIdx idx now) := by
  obtain ⟨row, hrow, henc⟩ := h.row
  refine ⟨⟨row.withPhaseIdx idx now, ?_, ?_⟩, h.phases, h.outcome, h.transitions⟩
  · rw [workflow_setPhaseIdx, if_pos rfl, hrow]
    rfl
  · exact ⟨henc.workflowId, henc.handoffPath, henc.status, henc.blockedOn, rfl, henc.createdAt, rfl,
      henc.templateJson, henc.contentHash⟩

/-- Upserting a list of phases with the ids of the stored ones writes over them. -/
theorem Holds.setPhases (h : t.Holds id e) {states : List PhaseState}
    (hids : states.map (·.phaseId) = e.inst.phaseStates.map (·.phaseId))
    (hnodup : (e.inst.phaseStates.map (·.phaseId)).Nodup) :
    (t.upsertPhases (PhaseRow.ofStates id states 0)).Holds id (e.setPhases states) := by
  obtain ⟨row, hrow, henc⟩ := h.row
  refine ⟨⟨row, hrow, henc.setPhases _⟩, ?_, h.outcome, h.transitions⟩
  rw [phasesOf_upsertPhases fun row => PhaseRow.workflowId_of_mem_ofStates, h.phases]
  refine Keyed.upsertAll_over ?_ ?_
  · rw [PhaseRow.map_key_ofStates, PhaseRow.map_key_ofStates, hids]
  · rw [PhaseRow.nodup_key_ofStates, hids]
    exact hnodup

/-- Upserting the phase at one position writes over it. -/
theorem Holds.setPhase (h : t.Holds id e) {i : ℕ} {p p' : PhaseState}
    (hnodup : (e.inst.phaseStates.map (·.phaseId)).Nodup) (hp : e.inst.phaseStates[i]? = some p)
    (hid : p'.phaseId = p.phaseId) :
    (t.upsertPhase (.ofState id p' i)).Holds id (e.setPhases (e.inst.phaseStates.set i p')) := by
  obtain ⟨row, hrow, henc⟩ := h.row
  refine ⟨⟨row, hrow, henc.setPhases _⟩, ?_, h.outcome, h.transitions⟩
  have hid' : ∀ row ∈ [PhaseRow.ofState id p' i], row.workflowId = id := by
    intro row hr
    rw [List.mem_singleton.mp hr]
    rfl
  refine (phasesOf_upsertPhases (t := t) hid').trans ?_
  rw [h.phases]
  have hupsert := PhaseRow.upsert_ofStates id hnodup hp hid 0
  rw [Nat.zero_add] at hupsert
  exact hupsert

theorem Holds.addTransition (h : t.Holds id e) (row : TransitionRow) :
    (t.addTransition row).Holds id e := ⟨h.row, h.phases, h.outcome, h.transitions⟩

theorem Holds.setOutcome (h : t.Holds id e) (outcome : WorkflowOutcome) (now : DateTime) :
    (t.replaceOutcome ⟨id, .encoded outcome, .encoded now⟩).Holds id (e.setOutcome outcome) := by
  obtain ⟨row, hrow, henc⟩ := h.row
  refine ⟨⟨row, hrow, henc.setOutcome outcome⟩, h.phases, ?_, h.transitions⟩
  rw [outcome_replaceOutcome, if_pos rfl]
  rfl

/-- A new workflow, inserted with its phases. -/
theorem holds_insert (hc : t.Constraints) {inst : WorkflowInstance}
    (hfresh : inst.workflowId ∉ t.workflowIds) (hout : t.outcome inst.workflowId = none)
    (hlog : inst.transitions = []) (hnodup : (inst.phaseStates.map (·.phaseId)).Nodup)
    (contentHash : Option String) :
    ((t.insertWorkflow (.ofInstance inst inst.currentPhaseIdx contentHash)).upsertPhases
      (PhaseRow.ofStates inst.workflowId inst.phaseStates 0)).Holds inst.workflowId
        ⟨inst, contentHash, none⟩ := by
  refine ⟨⟨.ofInstance inst inst.currentPhaseIdx contentHash, ?_, ?_⟩, ?_, ?_, hlog⟩
  · rw [workflow_upsertPhases, workflow_insertWorkflow hfresh]
    exact if_pos rfl
  · exact ⟨rfl, rfl, rfl, rfl, rfl, rfl, rfl, rfl, rfl⟩
  · have hnone : t.phasesOf inst.workflowId = [] := by
      rw [phasesOf, List.filter_eq_nil_iff]
      intro row hrow hid
      have heq : row.workflowId = inst.workflowId := by simpa using hid
      exact hfresh (heq ▸ hc.phaseOwners row hrow)
    rw [phasesOf_upsertPhases fun row => PhaseRow.workflowId_of_mem_ofStates,
      phasesOf_insertWorkflow, hnone]
    refine Keyed.upsertAll_fresh ?_
    rw [List.nil_append]
    exact (PhaseRow.nodup_key_ofStates _ 0).mpr hnodup
  · rw [outcome_upsertPhases, outcome_insertWorkflow, hout]
    rfl

/-! ## Frames -/

/-- The views of workflow `id` are the same. -/
structure SameViews (t t' : Tables) (id : WorkflowId) : Prop where
  workflow : t'.workflow id = t.workflow id
  phases : t'.phasesOf id = t.phasesOf id
  outcome : t'.outcome id = t.outcome id

theorem SameViews.refl (t : Tables) (id : WorkflowId) : SameViews t t id := ⟨rfl, rfl, rfl⟩

theorem SameViews.trans {t'' : Tables} (h : SameViews t t' id) (h' : SameViews t' t'' id) :
    SameViews t t'' id :=
  ⟨h'.workflow.trans h.workflow, h'.phases.trans h.phases, h'.outcome.trans h.outcome⟩

theorem SameViews.holds (h : SameViews t t' id) (he : t.Holds id e) : t'.Holds id e :=
  ⟨by rw [h.workflow]; exact he.row, by rw [h.phases]; exact he.phases,
    by rw [h.outcome]; exact he.outcome, he.transitions⟩

section Frames

variable {id' : WorkflowId} (hne : id' ≠ id)

include hne

theorem sameViews_setStatus (status : WorkflowStatus) (blockedOn : Option String)
    (now : DateTime) : SameViews t (t.setStatus id status blockedOn now) id' :=
  ⟨by rw [workflow_setStatus, if_neg hne], rfl, rfl⟩

theorem sameViews_setPhaseIdx (idx : ℤ) (now : DateTime) :
    SameViews t (t.setPhaseIdx id idx now) id' :=
  ⟨by rw [workflow_setPhaseIdx, if_neg hne], rfl, rfl⟩

theorem sameViews_insertWorkflow {row : WorkflowRow} (hid : row.workflowId = id)
    (hfresh : id ∉ t.workflowIds) : SameViews t (t.insertWorkflow row) id' := by
  subst hid
  exact ⟨by rw [workflow_insertWorkflow hfresh, if_neg hne], rfl, rfl⟩

theorem sameViews_upsertPhases (states : List PhaseState) (order : ℕ) :
    SameViews t (t.upsertPhases (PhaseRow.ofStates id states order)) id' :=
  ⟨rfl, phasesOf_upsertPhases_ne (fun _ => PhaseRow.workflowId_of_mem_ofStates) hne, rfl⟩

theorem sameViews_replaceOutcome (outcome : Stored WorkflowOutcome) (createdAt : Stored DateTime) :
    SameViews t (t.replaceOutcome ⟨id, outcome, createdAt⟩) id' :=
  ⟨rfl, rfl, by rw [outcome_replaceOutcome, if_neg hne]⟩

end Frames

theorem sameViews_addTransition (t : Tables) (row : TransitionRow) (id : WorkflowId) :
    SameViews t (t.addTransition row) id := ⟨rfl, rfl, rfl⟩

/-- Tables with the views of `t` represent its ledger. -/
theorem Represents.congr (h : t.Represents ledger) (hsame : ∀ id, SameViews t t' id) :
    t'.Represents ledger := by
  intro id
  cases he : ledger id with
  | none =>
    have habsent := h.absent he
    constructor
    · rw [(hsame id).workflow]; exact habsent.1
    · rw [(hsame id).outcome]; exact habsent.2
  | some e => exact (hsame id).holds (h.holds he)

/-- Tables that differ in workflow `id` only represent a ledger updated there. -/
theorem Represents.update (h : t.Represents ledger) (hframe : ∀ id' ≠ id, SameViews t t' id')
    (he : t'.Holds id e) : t'.Represents (Function.update ledger id (some e)) := by
  intro id'
  by_cases hid : id' = id
  · subst hid
    rw [Function.update_self]
    exact he
  · rw [Function.update_of_ne hid]
    cases he' : ledger id' with
    | none =>
      have habsent := h.absent he'
      exact ⟨by rw [(hframe id' hid).workflow]; exact habsent.1,
        by rw [(hframe id' hid).outcome]; exact habsent.2⟩
    | some e' => exact (hframe id' hid).holds (h.holds he')

/-! ## Statements on one entry -/

/-- From `t` to `t'` only workflow `id` was written; its rows are now those of `e`. -/
structure Edits (t : Tables) (id : WorkflowId) (t' : Tables) (e : Entry) : Prop where
  holds : t'.Holds id e
  frame : ∀ id' ≠ id, SameViews t t' id'

theorem Holds.edits (h : t.Holds id e) : t.Edits id t e := ⟨h, fun id' _ => .refl t id'⟩

theorem Edits.represents (h : t.Represents ledger) (hedits : t.Edits id t' e) :
    t'.Represents (Function.update ledger id (some e)) := h.update hedits.frame hedits.holds

namespace Edits

variable {db : Db} {r : Unit × Db} (h : t.Edits id db.toTables e)

include h

theorem updateWorkflowStatus {status : WorkflowStatus} {blockedOn : Option String}
    {now : DateTime} (hrun : (updateWorkflowStatus id status blockedOn now).run db = .ok r) :
    t.Edits id r.2.toTables (e.setStatus status blockedOn now) := by
  rw [(updateWorkflowStatus_ok.mp hrun).2.2]
  exact ⟨h.holds.setStatus .., fun id' hne => (h.frame id' hne).trans (sameViews_setStatus hne ..)⟩

theorem updateCurrentPhaseIdx {idx : ℕ} {now : DateTime}
    (hrun : (updateCurrentPhaseIdx id idx now).run db = .ok r) :
    t.Edits id r.2.toTables (e.setPhaseIdx idx now) := by
  rw [(updateCurrentPhaseIdx_ok.mp hrun).2.2.2]
  exact ⟨h.holds.setPhaseIdx ..,
    fun id' hne => (h.frame id' hne).trans (sameViews_setPhaseIdx hne ..)⟩

theorem upsertPhaseStates {states : List PhaseState}
    (hids : states.map (·.phaseId) = e.inst.phaseStates.map (·.phaseId))
    (hrun : (upsertPhaseStates id states 0).run db = .ok r) :
    t.Edits id r.2.toTables (e.setPhases states) := by
  rw [upsertPhaseStates_eq hrun]
  exact ⟨h.holds.setPhases hids (h.holds.nodup db.constraints),
    fun id' hne => (h.frame id' hne).trans (sameViews_upsertPhases hne ..)⟩

theorem upsertPhaseState {i : ℕ} {p p' : PhaseState} (hp : e.inst.phaseStates[i]? = some p)
    (hid : p'.phaseId = p.phaseId) (hrun : (upsertPhaseState id p' i).run db = .ok r) :
    t.Edits id r.2.toTables (e.setPhases (e.inst.phaseStates.set i p')) := by
  rw [(upsertPhaseState_ok.mp hrun).2.2]
  exact ⟨h.holds.setPhase (h.holds.nodup db.constraints) hp hid,
    fun id' hne => (h.frame id' hne).trans (sameViews_upsertPhases hne [p'] i)⟩

theorem recordTransition {fromPhase toPhase reason : Option String} {now : DateTime}
    (hrun : (recordTransition id fromPhase toPhase reason now).run db = .ok r) :
    t.Edits id r.2.toTables e := by
  rw [(recordTransition_ok.mp hrun).2]
  exact ⟨h.holds.addTransition _,
    fun id' hne => (h.frame id' hne).trans (sameViews_addTransition ..)⟩

theorem emitTerminalOutcome {inst : WorkflowInstance} {failure : Option FailureKind}
    {clk : Clock} (hid : inst.workflowId = id)
    (hrun : (emitTerminalOutcome inst failure clk).run db = .ok r) :
    ∃ outcome, WorkflowOutcome.build inst failure (clk 0) = some outcome ∧
      t.Edits id r.2.toTables (e.setOutcome outcome) := by
  subst hid
  obtain ⟨outcome, hbuild, htables⟩ := emitTerminalOutcome_eq hrun
  refine ⟨outcome, hbuild, ?_⟩
  rw [htables]
  exact ⟨h.holds.setOutcome .., fun id' hne => (h.frame id' hne).trans
    (sameViews_replaceOutcome hne ..)⟩

end Edits

end Tables

/-- The empty database represents the empty ledger. -/
theorem Db.empty_represents : Db.empty.Represents fun _ => none := fun _ => ⟨rfl, rfl⟩

end Hymenium
