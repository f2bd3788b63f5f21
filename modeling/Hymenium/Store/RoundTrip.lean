import Hymenium.Store.Ledger
import Hymenium.Workflow.Steps

/-!
# Inserting and loading workflows

A workflow that is inserted is loaded as it was, without the list of its transitions
(`insertWorkflow_getWorkflow`). An insertion by hash returns the live workflow that has the hash, and
writes nothing unless there was none, except for one kind of input: `INSERT OR IGNORE` does not
ignore a terminal row (`exactByHash_iff`).
-/

namespace Hymenium

open Tables

/-- Insert a new workflow instance. -/
def insertWorkflow (inst : WorkflowInstance) : Txn StoreError Unit :=
  insertWorkflowWithHash inst none

namespace Tables

variable {t : Tables}

/-- A row with a new id can be inserted, unless it is live and its hash is taken. -/
theorem Constraints.insertWorkflow (hc : t.Constraints) {row : WorkflowRow}
    (hfresh : row.workflowId ∉ t.workflowIds)
    (hhash : row.Live → ∀ hash, row.contentHash = some hash → t.liveByHash hash = none) :
    (t.insertWorkflow row).Constraints := by
  have hids : (t.insertWorkflow row).workflowIds = t.workflowIds ++ [row.workflowId] :=
    List.map_append
  have hkeys : (t.insertWorkflow row).workflowIds.Nodup := by
    rw [hids]
    exact List.nodup_append.mpr ⟨hc.workflowKeys, List.nodup_singleton _, fun id hid id' hid' => by
      rw [List.mem_singleton.mp hid']
      rintro rfl
      exact hfresh hid⟩
  have hkept : ∀ id ∈ t.workflowIds, id ∈ (t.insertWorkflow row).workflowIds := by
    intro id hid
    rw [hids]
    exact List.mem_append_left _ hid
  have htaken : ∀ old ∈ t.workflows, old.Live → row.Live → ∀ hash, old.contentHash = some hash →
      row.contentHash ≠ some hash := by
    intro old hold holive hlive hash hohash hrhash
    exact liveByHash_eq_none_iff.mp (hhash hlive hash hrhash) old hold hohash holive
  refine ⟨hkeys, hc.phaseKeys, hc.outcomeKeys, hc.runtimeKeys, ?_,
    fun r hr => hkept _ (hc.phaseOwners r hr), fun r hr => hkept _ (hc.transitionOwners r hr)⟩
  rw [nodup_activeHashes_iff hkeys]
  have hold := (nodup_activeHashes_iff hc.workflowKeys).mp hc.activeHashes
  intro a ha b hb halive hblive hash hahash hbhash
  rcases List.mem_append.mp ha with ha | ha <;> rcases List.mem_append.mp hb with hb | hb
  · exact hold a ha b hb halive hblive hash hahash hbhash
  · rw [List.mem_singleton.mp hb] at hblive hbhash
    exact absurd hbhash (htaken a ha halive hblive hash hahash)
  · rw [List.mem_singleton.mp ha] at halive hahash
    exact absurd hahash (htaken b hb hblive halive hash hbhash)
  · rw [List.mem_singleton.mp ha, List.mem_singleton.mp hb]

/-- Loading reads the views of the workflow. -/
theorem SameViews.getWorkflow {t' : Tables} {id : WorkflowId} (h : SameViews t t' id) :
    t'.getWorkflow id = t.getWorkflow id := by
  unfold Tables.getWorkflow
  rw [h.workflow]
  cases hrow : t.workflow id with
  | none => rfl
  | some row =>
    obtain rfl : row.workflowId = id := (workflow_eq_some hrow).2
    simp only [loadPhaseStates, h.phases]

/-- No table has a row of the workflow. The phase rows and the log have owners. -/
def NoRows (t : Tables) (id : WorkflowId) : Prop := id ∉ t.workflowIds ∧ t.outcome id = none

end Tables

section Insert

variable {db : Db} {inst : WorkflowInstance}

/-- The phases of a workflow row that was just inserted can be written. -/
theorem exists_insertPhases {row : WorkflowRow} (hid : row.workflowId = inst.workflowId)
    (hc : (db.insertWorkflow row).Constraints) (hlen : inst.phaseStates.length ≤ 2 ^ 63) :
    ∃ db', (upsertPhaseStates inst.workflowId inst.phaseStates 0).run ⟨_, hc⟩ = .ok ((), db') ∧
      db'.toTables = (db.insertWorkflow row).upsertPhases
        (PhaseRow.ofStates inst.workflowId inst.phaseStates 0) := by
  have hmem : inst.workflowId ∈ (⟨_, hc⟩ : Db).workflowIds := by
    rw [← hid]
    exact List.mem_map_of_mem (List.mem_append_right _ (List.mem_singleton_self _))
  have hlen' : 0 + inst.phaseStates.length ≤ 2 ^ 63 := by omega
  obtain ⟨db', hrun⟩ := exists_upsertPhaseStates hmem hlen'
  exact ⟨db', hrun, upsertPhaseStates_eq hrun⟩

/-- **Round trip.** A workflow inserted under an id the store has no rows for is loaded as it was,
but for the transitions. -/
theorem insertWorkflow_getWorkflow (db : Db) (inst : WorkflowInstance)
    (hnone : db.NoRows inst.workflowId) (hids : (inst.phaseStates.map (·.phaseId)).Nodup)
    (hidx : inst.currentPhaseIdx < 2 ^ 63) (hlen : inst.phaseStates.length ≤ 2 ^ 63) :
    ∃ db', (insertWorkflow inst).run db = .ok ((), db') ∧
      db'.getWorkflow inst.workflowId = .ok (some { inst with transitions := [] }) := by
  have hc : (db.insertWorkflow (.ofInstance inst inst.currentPhaseIdx none)).Constraints :=
    db.constraints.insertWorkflow hnone.1 fun _ _ h => nomatch h
  obtain ⟨db', hphases, htables⟩ := exists_insertPhases rfl hc hlen
  refine ⟨db', ?_, ?_⟩
  · unfold insertWorkflow insertWorkflowWithHash
    simp only [Txn.run_bind_ok, Txn.run_liftExcept_ok, Txn.execute_ok, toI64_ok]
    exact ⟨inst.currentPhaseIdx, db, ⟨⟨hidx, rfl⟩, rfl⟩, (), ⟨_, hc⟩, ⟨hc, rfl⟩, hphases⟩
  · -- the row does not mention the transitions
    let loaded : WorkflowInstance := { inst with transitions := [] }
    have hfresh : loaded.workflowId ∉ db.workflowIds := hnone.1
    have hlog : loaded.transitions = [] := rfl
    have hinsert := holds_insert db.constraints hfresh hnone.2 hlog hids none
    have hholds : db'.Holds loaded.workflowId ⟨loaded, none, none⟩ := by
      rw [htables]
      exact hinsert
    exact hholds.getWorkflow

end Insert

/-- A workflow in its second phase, with a transition behind it. -/
theorem insertWorkflow_getWorkflow_second :
    let inst := runOps (.new "wf" implAuditDefault "handoff.md" 0)
      [.startPhase (fun _ => true) Int.ofNat, .completePhase Int.ofNat,
        .advance permissiveGateEvaluator (fun _ => true) Int.ofNat]
    inst.transitions.length = 1 ∧ ∃ db, (insertWorkflow inst).run .empty = .ok ((), db) ∧
      db.getWorkflow "wf" = .ok (some { inst with transitions := [] }) := by
  intro inst
  exact ⟨by decide, insertWorkflow_getWorkflow .empty inst ⟨nofun, rfl⟩ (by decide) (by decide)
    (by decide)⟩

/-! ## Insertion by hash -/

/-- The row is live and has this content hash. -/
def WorkflowRow.LiveUnder (contentHash : String) (row : WorkflowRow) : Prop :=
  row.contentHash = some contentHash ∧ row.Live

/-- The tables with the rows of an instance added. -/
def Tables.addInstance (t : Tables) (inst : WorkflowInstance) (contentHash : String) : Tables :=
  { t with
    workflows := t.workflows ++ [.ofInstance inst inst.currentPhaseIdx (some contentHash)]
    phaseStates := t.phaseStates ++ PhaseRow.ofStates inst.workflowId inst.phaseStates 0 }

/-- What the caller of an insertion by hash relies on: a returned workflow is the one live workflow
with the hash, which was there before or was added, and an error changes nothing. -/
def ExactByHash (inst : WorkflowInstance) (contentHash : String) (db : Db) :
    Except StoreError WorkflowInstance × Db → Prop
  | (.error _, db') => db' = db
  | (.ok w, db') => (∃ row, (∀ r, r ∈ db'.workflows ∧ r.LiveUnder contentHash ↔ r = row) ∧
      db'.getWorkflow row.workflowId = .ok (some w)) ∧
      ((∃ r ∈ db.workflows, r.LiveUnder contentHash) → db' = db) ∧
      ((¬ ∃ r ∈ db.workflows, r.LiveUnder contentHash) →
        db'.toTables = db.addInstance inst contentHash)

/-- The instance would be added beside the live workflow that is returned: it is terminal, its id is
new, its numbers can be stored, and the live workflow can be loaded. -/
structure AddedBeside (inst : WorkflowInstance) (contentHash : String) (db : Db) : Prop where
  terminal : inst.status.toString ∈ terminalStatuses
  fresh : inst.workflowId ∉ db.workflowIds
  index : inst.currentPhaseIdx < 2 ^ 63
  phases : inst.phaseStates.length ≤ 2 ^ 63
  loaded : ∃ row w, db.liveByHash contentHash = some row ∧
    db.getWorkflow row.workflowId = .ok (some w)

section ByHash

variable {db : Db} {inst : WorkflowInstance} {contentHash : String}

/-- The phase rows of a new instance come after those of the others. -/
theorem upsertPhases_eq_addInstance (hfresh : inst.workflowId ∉ db.workflowIds)
    (hids : (inst.phaseStates.map (·.phaseId)).Nodup) :
    (db.insertWorkflow (.ofInstance inst inst.currentPhaseIdx (some contentHash))).upsertPhases
        (PhaseRow.ofStates inst.workflowId inst.phaseStates 0) =
      db.addInstance inst contentHash := by
  have hkeys : ((db.phaseStates ++ PhaseRow.ofStates inst.workflowId inst.phaseStates 0).map
      PhaseRow.key).Nodup := by
    rw [List.map_append]
    refine List.nodup_append.mpr ⟨db.constraints.phaseKeys,
      (PhaseRow.nodup_key_ofStates _ 0).mpr hids, fun k hk k' hk' => ?_⟩
    obtain ⟨row, hrow, rfl⟩ := List.mem_map.mp hk
    obtain ⟨new, hnew, rfl⟩ := List.mem_map.mp hk'
    intro heq
    have hid : row.workflowId = inst.workflowId :=
      (congrArg Prod.fst heq).trans (PhaseRow.workflowId_of_mem_ofStates hnew)
    exact hfresh (hid ▸ db.constraints.phaseOwners row hrow)
  have hphases : (db.insertWorkflow (.ofInstance inst inst.currentPhaseIdx
      (some contentHash))).phaseStates = db.phaseStates := rfl
  rw [Tables.upsertPhases, hphases, Keyed.upsertAll_fresh hkeys]
  rfl

/-- The index leaves one live row under a hash. -/
theorem liveByHash_eq_some_iff {row : WorkflowRow} :
    db.liveByHash contentHash = some row ↔ row ∈ db.workflows ∧ row.LiveUnder contentHash := by
  have hfound : ∀ r, db.liveByHash contentHash = some r →
      r ∈ db.workflows ∧ r.LiveUnder contentHash := fun r hr =>
    ⟨List.mem_of_find?_eq_some hr, by
      simpa [WorkflowRow.LiveUnder] using List.find?_some hr⟩
  refine ⟨hfound row, fun ⟨hmem, hhash, hlive⟩ => ?_⟩
  cases hr : db.liveByHash contentHash with
  | none => exact absurd hlive (liveByHash_eq_none_iff.mp hr row hmem hhash)
  | some r =>
    obtain ⟨hrmem, hrhash, hrlive⟩ := hfound r hr
    have hid := (nodup_activeHashes_iff db.constraints.workflowKeys).mp
      db.constraints.activeHashes r hrmem row hmem hrlive hlive contentHash hrhash hhash
    rw [List.inj_on_of_nodup_map db.constraints.workflowKeys hrmem hmem hid]

/-- The rows of a new instance are not seen from another workflow. -/
theorem getWorkflow_of_added {db' : Db} (hfresh : inst.workflowId ∉ db.workflowIds)
    (htables : db'.toTables =
      (db.insertWorkflow (.ofInstance inst inst.currentPhaseIdx (some contentHash))).upsertPhases
        (PhaseRow.ofStates inst.workflowId inst.phaseStates 0)) {row : WorkflowRow}
    (hrow : row ∈ db.workflows) :
    row ∈ db'.workflows ∧ db'.getWorkflow row.workflowId = db.getWorkflow row.workflowId := by
  have hne : row.workflowId ≠ inst.workflowId := fun h => hfresh (h ▸ List.mem_map_of_mem hrow)
  rw [htables]
  exact ⟨List.mem_append_left _ hrow, ((sameViews_insertWorkflow hne rfl hfresh).trans
    (sameViews_upsertPhases hne ..)).getWorkflow⟩

/-- An insertion beside a live workflow succeeds, and adds a row. -/
theorem findAndInsert_beside (h : AddedBeside inst contentHash db) : ∃ w db',
    withTransaction (findAndInsertWorkflowByHash inst contentHash) db = (.ok w, db') ∧
      db' ≠ db := by
  obtain ⟨row, w, hrow, hload⟩ := h.loaded
  obtain ⟨hmem, hunder⟩ := liveByHash_eq_some_iff.mp hrow
  -- the index does not see a terminal row
  have hc : (db.insertWorkflow
      (.ofInstance inst inst.currentPhaseIdx (some contentHash))).Constraints :=
    db.constraints.insertWorkflow h.fresh fun hlive => absurd h.terminal hlive
  obtain ⟨db', hphases, htables⟩ := exists_insertPhases rfl hc h.phases
  obtain ⟨hmem', hload'⟩ := getWorkflow_of_added h.fresh htables hmem
  have hcanonical : (canonicalByHash contentHash).run db' = .ok (w, db') := by
    have hrow' := liveByHash_eq_some_iff.mpr ⟨hmem', hunder⟩
    unfold canonicalByHash
    refine Txn.run_bind_ok.mpr ⟨db', db', Txn.run_get_ok.mpr rfl, ?_⟩
    rw [hrow']
    exact Txn.run_bind_ok.mpr ⟨some w, db', Txn.run_query_ok.mpr ⟨hload'.trans hload, rfl⟩,
      Txn.run_pure_ok.mpr rfl⟩
  refine ⟨w, db', withTransaction_ok ?_, fun heq => ?_⟩
  · refine Txn.run_bind_ok.mpr ⟨inst.currentPhaseIdx, db,
      Txn.run_liftExcept_ok.mpr ⟨toI64_ok.mpr ⟨h.index, rfl⟩, rfl⟩,
      Txn.run_bind_ok.mpr ⟨1, ⟨_, hc⟩, dif_pos hc, ?_⟩⟩
    rw [if_pos Nat.one_pos]
    exact Txn.run_bind_ok.mpr ⟨(), db', hphases, hcanonical⟩
  · have hworkflows := congrArg (fun d : Db => d.workflows.length) heq
    simp only [htables, Tables.upsertPhases, Tables.insertWorkflow, List.length_append,
      List.length_singleton] at hworkflows
    omega

theorem not_exactByHash (h : AddedBeside inst contentHash db) :
    ¬ ExactByHash inst contentHash db
      (withTransaction (findAndInsertWorkflowByHash inst contentHash) db) := by
  intro hexact
  obtain ⟨w, db', hrun, hne⟩ := findAndInsert_beside h
  obtain ⟨row, -, hrow, -⟩ := h.loaded
  rw [hrun] at hexact
  exact hne (hexact.2.1 ⟨row, liveByHash_eq_some_iff.mp hrow⟩)

/-- **Find or insert.** An insertion by hash is exact unless it adds a terminal workflow beside the
live one it returns. -/
theorem exactByHash_iff (db : Db) (inst : WorkflowInstance) (contentHash : String)
    (hids : (inst.phaseStates.map (·.phaseId)).Nodup) :
    ExactByHash inst contentHash db
        (withTransaction (findAndInsertWorkflowByHash inst contentHash) db) ↔
      ¬ AddedBeside inst contentHash db := by
  constructor
  · exact fun hexact hbeside => not_exactByHash hbeside hexact
  · intro hbeside
    cases hrun : (findAndInsertWorkflowByHash inst contentHash).run db with
    | error e =>
      rw [withTransaction_error hrun]
      rfl
    | ok q =>
      rw [withTransaction_ok hrun]
      obtain ⟨row, hrow, hload⟩ := findAndInsertWorkflowByHash_canonical hrun
      refine ⟨⟨row, fun r => ?_, hload⟩, ?_, ?_⟩
      · rw [← liveByHash_eq_some_iff, hrow, Option.some.injEq, eq_comm]
      · rintro ⟨old, hold, hunder⟩
        by_contra hne
        obtain ⟨hfresh, htables, hidx, hlen⟩ :=
          (findAndInsertWorkflowByHash_ok hrun).resolve_left hne
        by_cases hterminal : inst.status.toString ∈ terminalStatuses
        · obtain ⟨hmem', hload'⟩ := getWorkflow_of_added hfresh htables hold
          obtain rfl : row = old := Option.some.inj
            (hrow.symm.trans (liveByHash_eq_some_iff.mpr ⟨hmem', hunder⟩))
          exact hbeside ⟨hterminal, hfresh, hidx, hlen, row, q.1,
            liveByHash_eq_some_iff.mpr ⟨hold, hunder⟩, hload'.symm.trans hload⟩
        · exact hne (findAndInsertWorkflowByHash_live hold hunder.1 hunder.2 hterminal hrun).1
      · intro hnone
        rcases findAndInsertWorkflowByHash_ok hrun with hsame | ⟨hfresh, htables, -⟩
        · rw [hsame] at hrow
          exact absurd ⟨row, liveByHash_eq_some_iff.mp hrow⟩ hnone
        · exact htables.trans (upsertPhases_eq_addInstance hfresh hids)

end ByHash

/-- A first workflow, under a hash nobody has. -/
theorem exactByHash_first :
    let inst : WorkflowInstance := .new "wf" implAuditDefault "handoff.md" 0
    ExactByHash inst "hash" .empty
      (withTransaction (findAndInsertWorkflowByHash inst "hash") .empty) := by
  intro inst
  refine (exactByHash_iff .empty inst "hash" (by decide)).mpr fun h => ?_
  obtain ⟨row, w, hrow, -⟩ := h.loaded
  cases hrow

/-- A completed workflow is added under the hash of a live one, which is returned. -/
theorem completed_added_beside :
    let live : WorkflowInstance := .new "wf" implAuditDefault "handoff.md" 0
    let done : WorkflowInstance :=
      { WorkflowInstance.new "done" implAuditDefault "handoff.md" 0 with status := .completed }
    let db := (withTransaction (findAndInsertWorkflowByHash live "hash") .empty).2
    let out := withTransaction (findAndInsertWorkflowByHash done "hash") db
    db.workflows.length = 1 ∧ out.2.workflows.length = 2 ∧ ¬ ExactByHash done "hash" db out := by
  intro live done db out
  refine ⟨by decide +kernel, by decide +kernel, not_exactByHash ⟨by decide, ?_, by decide,
    by decide, ?_⟩⟩
  · decide +kernel
  · have hok : ((findAndInsertWorkflowByHash live "hash").run .empty).isOk = true := by
      decide +kernel
    cases hrun : (findAndInsertWorkflowByHash live "hash").run .empty with
    | error e => simp [hrun, Except.isOk, Except.toBool] at hok
    | ok q =>
      have hdb : db = q.2 := congrArg Prod.snd (withTransaction_ok hrun)
      obtain ⟨row, hrow, hload⟩ := findAndInsertWorkflowByHash_canonical hrun
      exact ⟨row, q.1, hdb ▸ hrow, hdb ▸ hload⟩

end Hymenium
