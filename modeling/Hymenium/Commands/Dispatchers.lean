import Hymenium.Commands.History
import Hymenium.Commands.Redispatch
import Hymenium.Store.Listing
import Hymenium.Store.RoundTrip

/-!
# Concurrent dispatchers

`hymenium dispatch` writes to the store in two transactions: it finds or inserts the workflow of the
handoff, and it logs the initial transition of the workflow it got. Other processes run before,
between and after the two. `dispatch_eq_halves` splits the command; a run interleaves the halves of
any number of dispatchers with whole commands.

* `dispatchers_agree`: while no command ends the workflow of a content, all dispatchers of that
  content get the same workflow.
* `dispatchers_answered`: a dispatcher whose workflow id is its own and whose Canopy answers gets a
  workflow that is stored, whatever runs beside it.
-/

namespace Hymenium

open Tables

/-- Where a dispatcher stands. -/
inductive DispatcherPc where
  | start
  | inserted (persisted : WorkflowInstance)
  | finished (result : Except CommandError WorkflowInstance)

namespace DispatchRequest

variable (request : DispatchRequest)

/-- The command until its first transaction is over. -/
def insert (db : Db) : DispatcherPc × Db :=
  match request.handoff with
  | .error e => (.finished (.error e), db)
  | .ok brief =>
    match implAuditDefault.validate with
    | .error e => (.finished (.error (.template e)), db)
    | .ok () =>
      match (dispatchWorkflow brief implAuditDefault request.workflowId request.path
          request.canopy (request.clk 0)).1 with
      | .error e => (.finished (.error (.dispatch e)), db)
      | .ok inst =>
        match withTransaction (findAndInsertWorkflowByHash inst request.contentHash) db with
        | (.error e, db) => (.finished (.error (.store e)), db)
        | (.ok persisted, db) => (.inserted persisted, db)

/-- The rest of the command. -/
def log (persisted : WorkflowInstance) (db : Db) : DispatcherPc × Db :=
  match withTransaction (recordTransition persisted.workflowId none
      (persisted.phaseStates.head?.map (·.phaseId)) (some "initial dispatch")
      (request.clk 1)) db with
  | (.error e, db) => (.finished (.error (.store e)), db)
  | (.ok (), db) => (.finished (.ok persisted), db)

/-- A dispatcher moves. -/
def move (db : Db) : DispatcherPc → DispatcherPc × Db
  | .start => request.insert db
  | .inserted persisted => request.log persisted db
  | .finished result => (.finished result, db)

/-- **Two halves.** The command is its two halves, one after the other. -/
theorem dispatch_eq_halves (db : Db) :
    (.finished (dispatch request db).1.1, (dispatch request db).2) =
      request.move (request.insert db).2 (request.insert db).1 := by
  unfold dispatch insert
  cases request.handoff with
  | error e => rfl
  | ok brief =>
    cases implAuditDefault.validate with
    | error e => rfl
    | ok u =>
      simp only
      rcases dispatchWorkflow brief implAuditDefault request.workflowId request.path
        request.canopy (request.clk 0) with ⟨answer, calls⟩
      cases answer with
      | error e => rfl
      | ok inst =>
        simp only
        rcases withTransaction (findAndInsertWorkflowByHash inst request.contentHash) db with
          ⟨answer, db₁⟩
        cases answer with
        | error e => rfl
        | ok persisted =>
          simp only [move, log]
          generalize withTransaction (recordTransition _ _ _ _ _) db₁ = out
          obtain ⟨answer, db₂⟩ := out
          cases answer <;> rfl

/-- What the first half does to the store: nothing, or it runs the insertion of a fresh instance. -/
theorem insert_cases (db : Db) :
    (∃ e, request.insert db = (.finished (.error e), db)) ∨
      ∃ inst persisted db', FreshDispatch request.workflowId implAuditDefault inst ∧
        (findAndInsertWorkflowByHash inst request.contentHash).run db = .ok (persisted, db') ∧
        request.insert db = (.inserted persisted, db') := by
  unfold insert
  cases request.handoff with
  | error e => exact .inl ⟨e, rfl⟩
  | ok brief =>
    simp only [implAuditDefault_validate]
    cases hdispatch : dispatchWorkflow brief implAuditDefault request.workflowId request.path
      request.canopy (request.clk 0) with
    | mk answer calls =>
    cases answer with
    | error e => exact .inl ⟨_, rfl⟩
    | ok inst =>
      rcases withTransaction_cases (findAndInsertWorkflowByHash inst request.contentHash) db with
        ⟨e, heq⟩ | ⟨persisted, db', hrun, heq⟩ <;> simp only [heq]
      · exact .inl ⟨_, rfl⟩
      · exact .inr ⟨inst, persisted, db', dispatchWorkflow_ok hdispatch, hrun, rfl⟩

/-- What the second half does to the store: nothing, or it adds a transition. -/
theorem log_cases (persisted : WorkflowInstance) (db : Db) :
    (∃ e, request.log persisted db = (.finished (.error e), db)) ∨
      ∃ db', db'.toTables = db.addTransition (initialTransition persisted (request.clk 1)) ∧
        request.log persisted db = (.finished (.ok persisted), db') := by
  unfold log
  rcases withTransaction_cases (recordTransition persisted.workflowId none
      (persisted.phaseStates.head?.map (·.phaseId)) (some "initial dispatch") (request.clk 1)) db
    with ⟨e, heq⟩ | ⟨u, db', hrun, heq⟩ <;> simp only [heq]
  · exact .inl ⟨_, rfl⟩
  · exact .inr ⟨db', (recordTransition_ok.mp hrun).2, rfl⟩

/-- What a move does to the store. -/
inductive StoreMove (db : Db) : Db → Prop where
  | stays : StoreMove db db
  | inserts (inst persisted : WorkflowInstance) (db' : Db)
      (hinst : FreshDispatch request.workflowId implAuditDefault inst)
      (hrun : (findAndInsertWorkflowByHash inst request.contentHash).run db =
        .ok (persisted, db')) : StoreMove db db'
  | logs (persisted : WorkflowInstance) (db' : Db)
      (htables : db'.toTables = db.addTransition (initialTransition persisted (request.clk 1))) :
      StoreMove db db'

theorem storeMove (db : Db) (pc : DispatcherPc) :
    request.StoreMove db (request.move db pc).2 := by
  cases pc with
  | start =>
    show request.StoreMove db (request.insert db).2
    rcases request.insert_cases db with ⟨e, heq⟩ | ⟨inst, persisted, db', hinst, hrun, heq⟩ <;>
      rw [heq]
    · exact .stays
    · exact .inserts inst persisted db' hinst hrun
  | inserted persisted =>
    show request.StoreMove db (request.log persisted db).2
    rcases request.log_cases persisted db with ⟨e, heq⟩ | ⟨db', htables, heq⟩ <;> rw [heq]
    · exact .stays
    · exact .logs persisted db' htables
  | finished result => exact .stays

end DispatchRequest

/-! ## Runs -/

/-- The store, and where each dispatcher stands. -/
structure Dispatchers (ι : Type) where
  db : Db
  pc : ι → DispatcherPc

/-- A dispatcher moves, or another process runs a command. -/
inductive DispatchersEvent (ι : Type) where
  | moves (i : ι)
  | runs (cmd : Command)

/-- The workflow that a dispatcher has got. -/
def DispatcherPc.got : DispatcherPc → Option WorkflowInstance
  | .inserted persisted | .finished (.ok persisted) => some persisted
  | .start | .finished (.error _) => none

namespace Dispatchers

variable {ι : Type} [DecidableEq ι]

def init (db : Db) : Dispatchers ι := ⟨db, fun _ => .start⟩

def step (requests : ι → DispatchRequest) (st : Dispatchers ι) :
    DispatchersEvent ι → Dispatchers ι
  | .moves i =>
    let out := (requests i).move st.db (st.pc i)
    ⟨out.2, Function.update st.pc i out.1⟩
  | .runs cmd => { st with db := Hymenium.step st.db cmd }

abbrev run (requests : ι → DispatchRequest) (db : Db) (events : List (DispatchersEvent ι)) :
    Dispatchers ι :=
  Runs.run (step requests) (init db) events

end Dispatchers

/-! ## Agreement -/

/-- The live workflow under a hash, if any, is live under it afterwards. -/
def Db.KeepsLive (hash : String) (db db' : Db) : Prop :=
  ∀ row ∈ db.workflows, row.LiveUnder hash →
    ∃ row' ∈ db'.workflows, row'.LiveUnder hash ∧ row'.workflowId = row.workflowId

instance (hash : String) (db db' : Db) : Decidable (db.KeepsLive hash db') :=
  inferInstanceAs (Decidable (∀ row ∈ db.workflows,
    row.contentHash = some hash ∧ row.Live → ∃ row' ∈ db'.workflows,
      (row'.contentHash = some hash ∧ row'.Live) ∧ row'.workflowId = row.workflowId))

/-- Workflow `id` is live under the hash. -/
def Db.LiveAs (db : Db) (hash : String) (id : WorkflowId) : Prop :=
  ∃ row ∈ db.workflows, row.LiveUnder hash ∧ row.workflowId = id

theorem Db.LiveAs.unique {db : Db} {hash : String} {id id' : WorkflowId} (h : db.LiveAs hash id)
    (h' : db.LiveAs hash id') : id = id' := by
  obtain ⟨row, hrow, hunder, rfl⟩ := h
  obtain ⟨row', hrow', hunder', rfl⟩ := h'
  have heq := (liveByHash_eq_some_iff.mpr ⟨hrow, hunder⟩).symm.trans
    (liveByHash_eq_some_iff.mpr ⟨hrow', hunder'⟩)
  rw [Option.some.inj heq]

namespace DispatchRequest

variable {request : DispatchRequest} {db : Db}

/-- No move of a dispatcher takes a row away. -/
theorem StoreMove.mem_workflows {db' : Db} (h : request.StoreMove db db') {row : WorkflowRow}
    (hrow : row ∈ db.workflows) : row ∈ db'.workflows := by
  cases h with
  | stays => exact hrow
  | inserts inst persisted _ _ hrun =>
    rcases findAndInsertWorkflowByHash_ok hrun with hsame | ⟨hfresh, htables, -⟩
    · obtain rfl : db' = db := hsame
      exact hrow
    · exact (getWorkflow_of_added hfresh htables hrow).1
  | logs persisted _ htables =>
    rw [htables]
    exact hrow

/-- A move leaves a dispatcher without a workflow, with the one it had, or with the live one. -/
theorem got_move (pc : DispatcherPc) {inst : WorkflowInstance}
    (hgot : (request.move db pc).1.got = some inst) :
    pc.got = some inst ∨ (request.move db pc).2.LiveAs request.contentHash inst.workflowId := by
  cases pc with
  | start =>
    right
    change (request.insert db).1.got = some inst at hgot
    show (request.insert db).2.LiveAs _ _
    rcases request.insert_cases db with ⟨e, heq⟩ | ⟨_, persisted, db', -, hrun, heq⟩ <;>
      rw [heq] at hgot ⊢
    · cases hgot
    · cases hgot
      obtain ⟨row, hrow, hload⟩ := findAndInsertWorkflowByHash_canonical hrun
      obtain ⟨hmem, hunder⟩ := liveByHash_eq_some_iff.mp hrow
      obtain ⟨-, -, hid, -⟩ := exists_row_of_getWorkflow hload
      exact ⟨row, hmem, hunder, hid.symm⟩
  | inserted persisted =>
    left
    change (request.log persisted db).1.got = some inst at hgot
    rcases request.log_cases persisted db with ⟨e, heq⟩ | ⟨db', -, heq⟩ <;> rw [heq] at hgot
    · cases hgot
    · exact hgot
  | finished result => exact .inl hgot

end DispatchRequest

section Agreement

variable {ι : Type} [DecidableEq ι] {requests : ι → DispatchRequest} {hash : String}

/-- What the dispatchers of a content have got is its live workflow. -/
def Dispatchers.Agree (requests : ι → DispatchRequest) (hash : String) (st : Dispatchers ι) :
    Prop :=
  ∀ i inst, (requests i).contentHash = hash → (st.pc i).got = some inst →
    st.db.LiveAs hash inst.workflowId

/-- No command ends the live workflow of the content. -/
def Dispatchers.SparesLive (hash : String) (st : Dispatchers ι) : DispatchersEvent ι → Prop
  | .moves _ => True
  | .runs cmd => st.db.KeepsLive hash (Hymenium.step st.db cmd)

theorem Dispatchers.Agree.step {st : Dispatchers ι} (h : st.Agree requests hash)
    {event : DispatchersEvent ι} (hspares : st.SparesLive hash event) :
    (st.step requests event).Agree requests hash := by
  intro j inst hhash hgot
  cases event with
  | runs cmd =>
    obtain ⟨row, hrow, hunder, hid⟩ := h j inst hhash hgot
    obtain ⟨row', hrow', hunder', hid'⟩ := hspares row hrow hunder
    exact ⟨row', hrow', hunder', hid'.trans hid⟩
  | moves i =>
    have hkept : st.db.LiveAs hash inst.workflowId →
        (st.step requests (.moves i)).db.LiveAs hash inst.workflowId := fun ⟨row, hrow, hlive⟩ =>
      ⟨row, ((requests i).storeMove st.db (st.pc i)).mem_workflows hrow, hlive⟩
    change (Function.update st.pc i _ j).got = some inst at hgot
    by_cases hij : j = i
    · subst hij
      rw [Function.update_self] at hgot
      rcases DispatchRequest.got_move _ hgot with hbefore | hlive
      · exact hkept (h j inst hhash hbefore)
      · rw [hhash] at hlive
        exact hlive
    · rw [Function.update_of_ne hij] at hgot
      exact hkept (h j inst hhash hgot)

/-- **Agreement.** However the dispatchers of a content are interleaved with each other, with other
dispatchers and with commands that do not end its workflow, those that have got a workflow have got
the same one, and it is live. -/
theorem dispatchers_agree (requests : ι → DispatchRequest) (hash : String) (db : Db)
    (events : List (DispatchersEvent ι))
    (hspares : Runs.Meets (Dispatchers.step requests) (Dispatchers.SparesLive hash)
      (Dispatchers.init db) events) {i j : ι} {inst inst' : WorkflowInstance}
    (hi : (requests i).contentHash = hash) (hj : (requests j).contentHash = hash)
    (hgot : ((Dispatchers.run requests db events).pc i).got = some inst)
    (hgot' : ((Dispatchers.run requests db events).pc j).got = some inst') :
    inst.workflowId = inst'.workflowId ∧
      (Dispatchers.run requests db events).db.LiveAs hash inst.workflowId := by
  have hagree : (Dispatchers.run requests db events).Agree requests hash :=
    Runs.run_invariant_of_meets (fun st event h hspares => h.step hspares)
      (fun _ _ _ hgot => nomatch hgot) hspares
  have hlive := hagree i inst hi hgot
  exact ⟨hlive.unique (hagree j inst' hj hgot'), hlive⟩

end Agreement

/-- Two dispatchers of one handoff. -/
def samplePair (second : Bool) : DispatchRequest :=
  if second then sampleRedispatch else sampleDispatch

/-- The second inserts between the two transactions of the first, while a runtime reports. -/
def sampleRace : List (DispatchersEvent Bool) :=
  [.moves false, .runs (.heartbeat "rt" 0), .moves true, .moves false, .moves true]

theorem dispatchers_agree_pair :
    let final := Dispatchers.run samplePair Db.empty sampleRace
    ∃ inst inst', (final.pc false).got = some inst ∧ (final.pc true).got = some inst' ∧
      inst.workflowId = inst'.workflowId ∧ final.db.LiveAs "hash" inst.workflowId := by
  intro final
  have hfirst : (final.pc false).got.isSome = true := by decide +kernel
  have hsecond : (final.pc true).got.isSome = true := by decide +kernel
  obtain ⟨inst, hgot⟩ := Option.isSome_iff_exists.mp hfirst
  obtain ⟨inst', hgot'⟩ := Option.isSome_iff_exists.mp hsecond
  exact ⟨inst, inst', hgot, hgot', dispatchers_agree samplePair "hash" Db.empty sampleRace
    ⟨trivial, by unfold Dispatchers.SparesLive; decide +kernel, trivial, trivial, trivial, trivial⟩
    (by decide) (by decide) hgot hgot'⟩

/-! ## Answers -/

section Answers

variable {db : Db} {request : DispatchRequest}

/-- A live workflow that can be loaded is the canonical one of its hash. -/
theorem canonicalByHash_of_live {hash : String} {row : WorkflowRow} {w : WorkflowInstance}
    (hrow : row ∈ db.workflows) (hunder : row.LiveUnder hash)
    (hload : db.getWorkflow row.workflowId = .ok (some w)) :
    (canonicalByHash hash).run db = .ok (w, db) := by
  unfold canonicalByHash
  refine Txn.run_bind_ok.mpr ⟨db, db, Txn.run_get_ok.mpr rfl, ?_⟩
  rw [liveByHash_eq_some_iff.mpr ⟨hrow, hunder⟩]
  exact Txn.run_bind_ok.mpr ⟨some w, db, Txn.run_query_ok.mpr ⟨hload, rfl⟩,
    Txn.run_pure_ok.mpr rfl⟩

/-- A fresh instance whose row meets the constraints is inserted and read back. -/
theorem exists_insertByHash (h : db.Reached) {hash : String} {inst : WorkflowInstance}
    (hinst : FreshDispatch request.workflowId implAuditDefault inst)
    (hfresh : inst.workflowId ∉ db.workflowIds)
    (hc : (db.insertWorkflow (.ofInstance inst inst.currentPhaseIdx (some hash))).Constraints) :
    ∃ db', (upsertPhaseStates inst.workflowId inst.phaseStates 0).run ⟨_, hc⟩ = .ok ((), db') ∧
      (canonicalByHash hash).run db' = .ok (inst, db') := by
  have hlen : inst.phaseStates.length = 2 := by
    have hids := congrArg List.length hinst.phaseIds
    rwa [List.length_map, List.length_map] at hids
  obtain ⟨db', hphases, htables⟩ := exists_insertPhases rfl hc (by omega)
  have hout : db.outcome inst.workflowId = none := by
    obtain ⟨ledger, hrep, -⟩ := h
    refine (hrep.absent ?_).2
    cases he : ledger inst.workflowId with
    | none => rfl
    | some e =>
      obtain ⟨row, hrow, -⟩ := (hrep.holds he).row
      rw [workflow_eq_none_iff.mpr hfresh] at hrow
      cases hrow
  have hnodup : (inst.phaseStates.map (·.phaseId)).Nodup := by
    rw [hinst.phaseIds]
    decide
  have hholds := holds_insert db.constraints hfresh hout hinst.transitions hnodup (some hash)
  rw [← htables] at hholds
  have hmem : WorkflowRow.ofInstance inst inst.currentPhaseIdx (some hash) ∈ db'.workflows := by
    rw [htables]
    exact List.mem_append_right _ List.mem_cons_self
  refine ⟨db', hphases, canonicalByHash_of_live hmem ⟨rfl, ?_⟩ hholds.getWorkflow⟩
  show inst.status.toString ∉ terminalStatuses
  rw [hinst.status]
  decide

/-- In a reached store, a fresh instance is inserted by hash, or gives way to a live workflow. -/
theorem exists_findAndInsert (h : db.Reached) {inst : WorkflowInstance}
    (hinst : FreshDispatch request.workflowId implAuditDefault inst)
    (hfresh : request.workflowId ∉ db.workflowIds) (hash : String) :
    ∃ q, (findAndInsertWorkflowByHash inst hash).run db = .ok q := by
  rw [← hinst.workflowId] at hfresh
  have hidx : toI64 "current_phase_idx" inst.currentPhaseIdx = .ok (inst.currentPhaseIdx : ℤ) := by
    rw [hinst.currentPhaseIdx]
    rfl
  by_cases hc : (db.insertWorkflow
      (.ofInstance inst inst.currentPhaseIdx (some hash))).Constraints
  · obtain ⟨db', hphases, hread⟩ := exists_insertByHash h hinst hfresh hc
    refine ⟨(inst, db'), Txn.run_bind_ok.mpr ⟨_, db, Txn.run_liftExcept_ok.mpr ⟨hidx, rfl⟩,
      Txn.run_bind_ok.mpr ⟨1, ⟨_, hc⟩, dif_pos hc, ?_⟩⟩⟩
    rw [if_pos Nat.one_pos]
    exact Txn.run_bind_ok.mpr ⟨(), db', hphases, hread⟩
  · -- another workflow is live under the hash
    obtain ⟨row, hlive⟩ : ∃ row, db.liveByHash hash = some row := by
      by_contra hnone
      refine hc (db.constraints.insertWorkflow hfresh fun _ hash' hhash' => ?_)
      cases hhash'
      exact Option.eq_none_iff_forall_ne_some.mpr fun row hrow => hnone ⟨row, hrow⟩
    obtain ⟨hmem, hunder⟩ := liveByHash_eq_some_iff.mp hlive
    obtain ⟨ledger, hrep, -⟩ := h
    obtain ⟨e, he, -⟩ := hrep.entry_of_row (Keyed.find_of_mem db.constraints.workflowKeys hmem)
    refine ⟨(e.inst, db), Txn.run_bind_ok.mpr ⟨_, db, Txn.run_liftExcept_ok.mpr ⟨hidx, rfl⟩,
      Txn.run_bind_ok.mpr ⟨0, db, dif_neg hc, ?_⟩⟩⟩
    exact canonicalByHash_of_live hmem hunder (hrep.holds he).getWorkflow

namespace DispatchRequest.StoreMove

variable {db' : Db} (hmove : request.StoreMove db db')

include hmove

theorem reached (h : db.Reached) : db'.Reached := by
  cases hmove with
  | stays => exact h
  | inserts inst persisted _ hinst hrun =>
    obtain ⟨ledger, hrep, hcoh⟩ := h
    obtain ⟨ledger', heffect, hrep'⟩ := findAndInsert_effect hrep request hinst hrun
    exact ⟨ledger', hrep', fun id => (heffect.change hcoh id).coherent (hcoh id)⟩
  | logs persisted _ htables =>
    obtain ⟨ledger, hrep, hcoh⟩ := h
    refine ⟨ledger, ?_, hcoh⟩
    rw [htables]
    exact hrep.congr fun id => sameViews_addTransition _ _ id

/-- What is stored stays as it is. -/
theorem getWorkflow {id : WorkflowId} {inst : WorkflowInstance}
    (hload : db.getWorkflow id = .ok (some inst)) : db'.getWorkflow id = .ok (some inst) := by
  cases hmove with
  | stays => exact hload
  | inserts _ persisted _ hinst hrun =>
    rcases findAndInsertWorkflowByHash_ok hrun with hsame | ⟨hfresh, htables, -⟩
    · obtain rfl : db' = db := hsame
      exact hload
    · obtain ⟨row, hrow, -⟩ := exists_row_of_getWorkflow hload
      obtain ⟨hmem, rfl⟩ := Tables.workflow_eq_some hrow
      exact (getWorkflow_of_added hfresh htables hmem).2.trans hload
  | logs persisted _ htables =>
    rw [htables, (sameViews_addTransition _ _ id).getWorkflow]
    exact hload

/-- A dispatcher stores no id but its own. -/
theorem workflowIds {id : WorkflowId} (h : id ∈ db'.workflowIds) :
    id ∈ db.workflowIds ∨ id = request.workflowId := by
  cases hmove with
  | stays => exact .inl h
  | inserts inst persisted _ hinst hrun =>
    rcases findAndInsertWorkflowByHash_ok hrun with hsame | ⟨-, htables, -⟩
    · obtain rfl : db' = db := hsame
      exact .inl h
    · change id ∈ db'.workflows.map (·.workflowId) at h
      obtain ⟨row, hrow, rfl⟩ := List.mem_map.mp h
      have hworkflows : db'.workflows = db.workflows ++
          [.ofInstance inst inst.currentPhaseIdx (some request.contentHash)] :=
        congrArg Tables.workflows htables
      rw [hworkflows] at hrow
      rcases List.mem_append.mp hrow with hold | hnew
      · exact .inl (List.mem_map_of_mem hold)
      · rw [List.mem_singleton.mp hnew]
        exact .inr hinst.workflowId
  | logs persisted _ htables =>
    change id ∈ db'.workflows.map (·.workflowId) at h
    rw [htables] at h
    exact .inl h

end DispatchRequest.StoreMove

/-- Canopy answers the dispatcher, and its handoff can be dispatched. -/
def DispatchRequest.Answered (request : DispatchRequest) : Prop :=
  ∃ brief inst calls, request.handoff = .ok brief ∧
    dispatchWorkflow brief implAuditDefault request.workflowId request.path request.canopy
      (request.clk 0) = (.ok inst, calls)

/-- A dispatcher that is answered and whose id is fresh gets a workflow. -/
theorem exists_insert (h : db.Reached) (hanswered : request.Answered)
    (hfresh : request.workflowId ∉ db.workflowIds) :
    ∃ persisted db', request.insert db = (.inserted persisted, db') ∧
      db'.getWorkflow persisted.workflowId = .ok (some persisted) := by
  obtain ⟨brief, inst, calls, hhandoff, hdispatch⟩ := hanswered
  obtain ⟨⟨persisted, db'⟩, hrun⟩ := exists_findAndInsert h (dispatchWorkflow_ok hdispatch) hfresh
    request.contentHash
  refine ⟨persisted, db', ?_, ?_⟩
  · unfold DispatchRequest.insert
    simp only [hhandoff, implAuditDefault_validate, hdispatch, withTransaction_ok hrun]
  · obtain ⟨row, -, hload⟩ := findAndInsertWorkflowByHash_canonical hrun
    obtain ⟨-, -, hid, -⟩ := exists_row_of_getWorkflow hload
    rw [hid]
    exact hload

/-- A dispatcher logs the workflow it has got, which stays stored. -/
theorem exists_log {persisted inst : WorkflowInstance}
    (hload : db.getWorkflow persisted.workflowId = .ok (some inst)) :
    ∃ db', request.log persisted db = (.finished (.ok persisted), db') ∧
      db'.getWorkflow persisted.workflowId = .ok (some inst) := by
  obtain ⟨row, hrow, -⟩ := exists_row_of_getWorkflow hload
  have hmem : persisted.workflowId ∈ db.workflowIds := by
    obtain ⟨hmem, hid⟩ := Tables.workflow_eq_some hrow
    exact hid ▸ List.mem_map_of_mem hmem
  have hc : (db.addTransition (initialTransition persisted (request.clk 1))).Constraints := by
    refine { db.constraints with transitionOwners := fun row hrow => ?_ }
    rcases List.mem_append.mp hrow with hold | hnew
    · exact db.constraints.transitionOwners row hold
    · rw [List.mem_singleton.mp hnew]
      exact hmem
  have hrun : (recordTransition persisted.workflowId none
      (persisted.phaseStates.head?.map (·.phaseId)) (some "initial dispatch")
      (request.clk 1)).run db = .ok ((), ⟨_, hc⟩) := recordTransition_ok.mpr ⟨hc, rfl⟩
  refine ⟨⟨_, hc⟩, ?_, (sameViews_addTransition _ _ persisted.workflowId).getWorkflow.trans hload⟩
  unfold DispatchRequest.log
  rw [withTransaction_ok hrun]

end Answers

section Served

variable {ι : Type} [DecidableEq ι] {requests : ι → DispatchRequest}

/-- The dispatcher moves. -/
def DispatchersEvent.isMove (i : ι) : DispatchersEvent ι → Bool
  | .moves j => j = i
  | .runs _ => false

/-- No command stores a workflow under the id of a dispatcher. -/
def Dispatchers.SparesIds (requests : ι → DispatchRequest) (st : Dispatchers ι) :
    DispatchersEvent ι → Prop
  | .moves _ => True
  | .runs cmd => ∀ i, (requests i).workflowId ∈ (Hymenium.step st.db cmd).workflowIds →
      (requests i).workflowId ∈ st.db.workflowIds

/-- Where a dispatcher stands after `k` moves, if it is served. -/
inductive DispatcherPc.Served (id : WorkflowId) (db : Db) : ℕ → DispatcherPc → Prop
  | start (hfresh : id ∉ db.workflowIds) : Served id db 0 .start
  | inserted (persisted inst : WorkflowInstance)
      (hload : db.getWorkflow persisted.workflowId = .ok (some inst)) :
      Served id db 1 (.inserted persisted)
  | finished (k : ℕ) (inst stored : WorkflowInstance)
      (hload : db.getWorkflow inst.workflowId = .ok (some stored)) :
      Served id db (k + 2) (.finished (.ok inst))

/-- The store is reached, and a dispatcher is served. -/
structure Dispatchers.Serves (requests : ι → DispatchRequest) (i : ι) (k : ℕ)
    (st : Dispatchers ι) : Prop where
  reached : st.db.Reached
  served : (st.pc i).Served (requests i).workflowId st.db k

/-- A dispatcher that is answered is served when it moves. -/
theorem DispatcherPc.Served.move {request : DispatchRequest} {db : Db} {k : ℕ}
    {pc : DispatcherPc} (h : pc.Served request.workflowId db k) (hdb : db.Reached)
    (hanswered : request.Answered) :
    (request.move db pc).1.Served request.workflowId (request.move db pc).2 (k + 1) := by
  cases h with
  | start hfresh =>
    obtain ⟨persisted, db', heq, hload⟩ := exists_insert hdb hanswered hfresh
    show (request.insert db).1.Served _ (request.insert db).2 1
    rw [heq]
    exact .inserted persisted persisted hload
  | inserted persisted inst hload =>
    obtain ⟨db', heq, hload'⟩ := exists_log hload
    show (request.log persisted db).1.Served _ (request.log persisted db).2 2
    rw [heq]
    exact .finished 0 persisted inst hload'
  | finished k inst stored hload => exact .finished (k + 1) inst stored hload

/-- Another process leaves a dispatcher served. -/
theorem DispatcherPc.Served.frame {id : WorkflowId} {db db' : Db} {k : ℕ} {pc : DispatcherPc}
    (h : pc.Served id db k) (hids : id ∈ db'.workflowIds → id ∈ db.workflowIds)
    (hkept : db.KeepsHistory db') : pc.Served id db' k := by
  cases h with
  | start hfresh => exact .start (mt hids hfresh)
  | inserted persisted inst hload =>
    obtain ⟨inst', hload', -⟩ := hkept _ _ hload
    exact .inserted persisted inst' hload'
  | finished k inst stored hload =>
    obtain ⟨stored', hload', -⟩ := hkept _ _ hload
    exact .finished k inst stored' hload'

theorem Dispatchers.Serves.step {i : ι} {k : ℕ} {st : Dispatchers ι}
    (h : st.Serves requests i k) (hanswered : (requests i).Answered)
    (hids : Function.Injective fun i => (requests i).workflowId) (event : DispatchersEvent ι)
    (hspares : st.SparesIds requests event) :
    (st.step requests event).Serves requests i (k + (event.isMove i).toNat) := by
  cases event with
  | runs cmd =>
    exact ⟨h.reached.next cmd, h.served.frame (hspares i) (h.reached.keepsHistory cmd)⟩
  | moves j =>
    have hmove := (requests j).storeMove st.db (st.pc j)
    refine ⟨hmove.reached h.reached, ?_⟩
    show (Function.update st.pc j _ i).Served _ _ _
    by_cases hij : j = i
    · subst hij
      rw [Function.update_self, show (DispatchersEvent.moves j).isMove j = true from
        decide_eq_true rfl]
      exact h.served.move h.reached hanswered
    · rw [Function.update_of_ne (Ne.symm hij), show (DispatchersEvent.moves j).isMove i = false from
        decide_eq_false hij]
      refine h.served.frame (fun hmem => ?_) fun _ _ hload => ⟨_, hmove.getWorkflow hload, .refl _⟩
      exact (hmove.workflowIds hmem).resolve_right fun heq => hij (hids heq.symm)

/-- **Answers.** A dispatcher whose id is its own and whose Canopy answers has got a stored workflow
after two moves, whatever the other dispatchers and commands did meanwhile. -/
theorem dispatchers_answered (requests : ι → DispatchRequest) (db : Db)
    (events : List (DispatchersEvent ι)) (hdb : db.Reached)
    (hids : Function.Injective fun i => (requests i).workflowId)
    (hspares : Runs.Meets (Dispatchers.step requests) (Dispatchers.SparesIds requests)
      (Dispatchers.init db) events) {i : ι} (hfresh : (requests i).workflowId ∉ db.workflowIds)
    (hanswered : (requests i).Answered) (hmoves : 2 ≤ events.countP (·.isMove i)) :
    ∃ inst, (Dispatchers.run requests db events).pc i = .finished (.ok inst) ∧
      (∃ stored, (Dispatchers.run requests db events).db.getWorkflow inst.workflowId =
        .ok (some stored)) ∧ (Dispatchers.run requests db events).db.Reached := by
  have hserves : Dispatchers.Serves requests i
      (0 + Runs.count (Dispatchers.step requests) (fun _ event => event.isMove i)
        (Dispatchers.init db) events) (Dispatchers.run requests db events) :=
    Runs.run_count (fun k st event h hspares => h.step hanswered hids event hspares)
      ⟨hdb, .start hfresh⟩ hspares
  rw [Runs.count_event] at hserves
  obtain ⟨hreached, hserved⟩ := hserves
  generalize hn : 0 + events.countP (·.isMove i) = n at hserved
  generalize Dispatchers.run requests db events = final at hserved hreached ⊢
  cases hpc : final.pc i with
  | start =>
    rw [hpc] at hserved
    cases hserved
    omega
  | inserted persisted =>
    rw [hpc] at hserved
    cases hserved
    omega
  | finished result =>
    rw [hpc] at hserved
    cases hserved with
    | finished k inst stored hload => exact ⟨inst, rfl, ⟨stored, hload⟩, hreached⟩

theorem dispatchers_answered_pair :
    ∃ inst, (Dispatchers.run samplePair Db.empty sampleRace).pc true = .finished (.ok inst) ∧
      (∃ stored, (Dispatchers.run samplePair Db.empty sampleRace).db.getWorkflow inst.workflowId =
        .ok (some stored)) ∧ (Dispatchers.run samplePair Db.empty sampleRace).db.Reached := by
  have hanswered : (samplePair true).Answered := by
    have hok : (dispatchWorkflow
        ⟨"Fix it", ".", "hymenium", "fix-it", .ok "do it", fun phase => phase.phaseId⟩
        implAuditDefault "wf-2" "handoff.md" acceptingCanopy 100).1.isOk = true := by
      decide +kernel
    cases hdispatch : dispatchWorkflow
        ⟨"Fix it", ".", "hymenium", "fix-it", .ok "do it", fun phase => phase.phaseId⟩
        implAuditDefault "wf-2" "handoff.md" acceptingCanopy 100 with
    | mk answer calls =>
    rw [hdispatch] at hok
    cases answer with
    | error e => cases hok
    | ok inst => exact ⟨_, inst, calls, rfl, hdispatch⟩
  have hids : Function.Injective fun second => (samplePair second).workflowId := by
    intro first second h
    cases first <;> cases second
    · rfl
    · exact absurd h (by decide)
    · exact absurd h (by decide)
    · rfl
  exact dispatchers_answered samplePair Db.empty sampleRace (Db.reached_run []) hids
    ⟨trivial, fun second => by cases second <;> decide +kernel, trivial, trivial, trivial, trivial⟩
    (by decide) hanswered (by decide)

end Served

end Hymenium
