import Hymenium.Foundations.Batches
import Hymenium.Foundations.Timestamp
import Hymenium.Store.Statements

/-!
# Listing the live workflows

`WorkflowStore::list_active_workflows` (`src/store.rs`) decodes the rows itself: one query for the
workflows, one for each 999 of their ids for the phases, and a map from which every workflow takes
its phases. It succeeds exactly when the single loads of the same workflows do, with the same instances
(`listActiveWorkflows_spec`).
-/

namespace Hymenium

/-- The phases gathered for each workflow. -/
abbrev PhaseMap := WorkflowId → Option (List PhaseState)

namespace PhaseMap

/-- `entry(id).or_default().push(state)` -/
def push (m : PhaseMap) (id : WorkflowId) (state : PhaseState) : PhaseMap :=
  Function.update m id (some ((m id).getD [] ++ [state]))

/-- `remove(id).unwrap_or_default()` -/
def take (m : PhaseMap) (id : WorkflowId) : List PhaseState × PhaseMap :=
  ((m id).getD [], Function.update m id none)

/-- Decode phase rows into the map. -/
def gather (m : PhaseMap) : List PhaseRow → Except StoreError PhaseMap
  | [] => .ok m
  | row :: rows => do
    let state ← row.toState
    gather (m.push row.workflowId state) rows

end PhaseMap

/-- The instance of a row, with its phases. -/
def WorkflowRow.toInstance (row : WorkflowRow) (phaseStates : List PhaseState) :
    Except StoreError WorkflowInstance := do
  let status ← parseWorkflowStatus row.status
  let template ← fromJson row.templateJson
  let createdAt ← parseDatetime "created_at" row.createdAt
  let updatedAt ← parseDatetime "updated_at" row.updatedAt
  let currentPhaseIdx ← toUsize "current_phase_idx" row.currentPhaseIdx
  return {
    workflowId := row.workflowId
    template
    handoffPath := row.handoffPath
    status
    blockedOn := row.blockedOn
    currentPhaseIdx
    phaseStates
    transitions := []
    createdAt
    updatedAt }

/-- Every row takes its phases out of the map. -/
def assemble : List WorkflowRow → PhaseMap → Except StoreError (List WorkflowInstance)
  | [], _ => .ok []
  | row :: rows, m => do
    let (phaseStates, m) := m.take row.workflowId
    let inst ← row.toInstance phaseStates
    let results ← assemble rows m
    return inst :: results

namespace Tables

/-- The rows of the live workflows, the latest first. `createdAtText` is the text of the column
`created_at`, by which SQLite sorts: a time has several spellings. -/
def activeRows (t : Tables) (createdAtText : WorkflowRow → String) : List WorkflowRow :=
  (t.workflows.filter (·.Live)).insertionSort fun a b => createdAtText b ≤ createdAtText a

/-- The phase rows of a chunk of workflows, by workflow and in phase order. -/
def phaseRowsOf (t : Tables) (ids : List WorkflowId) : List PhaseRow :=
  Batches.query PhaseRow.workflowId (·.phaseOrder ≤ ·.phaseOrder) t.phaseStates ids

/-- Gather the phases of workflows, chunk by chunk. -/
def phaseMap (t : Tables) : PhaseMap → List (List WorkflowId) → Except StoreError PhaseMap
  | m, [] => .ok m
  | m, ids :: chunks => do
    let m ← m.gather (t.phaseRowsOf ids)
    phaseMap t m chunks

/-- List all workflows that are not in a terminal state. -/
def listActiveWorkflows (t : Tables) (createdAtText : WorkflowRow → String) :
    Except StoreError (List WorkflowInstance) := do
  let rows := t.activeRows createdAtText
  if rows.isEmpty then return []
  let m ← t.phaseMap (fun _ => none) (Batches.batches 999 (rows.map (·.workflowId)))
  assemble rows m

end Tables

/-! ## Decoding -/

/-- A list is decoded when each of its elements is. -/
theorem mapM_ok_iff {α β ε : Type} {f : α → Except ε β} {l : List α} {l' : List β} :
    l.mapM f = .ok l' ↔ List.Forall₂ (fun a b => f a = .ok b) l l' := by
  induction l generalizing l' with
  | nil =>
    rw [List.mapM_nil, List.forall₂_nil_left_iff]
    exact ⟨fun h => (Except.ok.inj h).symm, fun h => h ▸ rfl⟩
  | cons a l ih =>
    rw [List.mapM_cons, List.forall₂_cons_left_iff]
    simp only [← ih]
    cases ha : f a with
    | error e => simp [bind, Except.bind]
    | ok b =>
      cases hl : l.mapM f with
      | error e => simp [bind, Except.bind]
      | ok bs =>
        simp only [bind, Except.bind, pure, Except.pure, Except.ok.injEq]
        exact ⟨fun h => ⟨b, bs, rfl, rfl, h.symm⟩, fun ⟨_, _, hb, hbs, h⟩ => hb ▸ hbs ▸ h.symm⟩

/-- Each element has a partner when some list has all of them. -/
theorem exists_forall₂_iff {α β : Type} {R : α → β → Prop} {l : List α} :
    (∃ l', List.Forall₂ R l l') ↔ ∀ a ∈ l, ∃ b, R a b := by
  induction l with
  | nil => exact iff_of_true ⟨[], .nil⟩ fun _ h => nomatch h
  | cons a l ih =>
    rw [List.forall_mem_cons, ← ih]
    constructor
    · rintro ⟨_, hab | ⟨hab, hrest⟩⟩
      exact ⟨⟨_, hab⟩, _, hrest⟩
    · rintro ⟨⟨b, hab⟩, l', hrest⟩
      exact ⟨b :: l', .cons hab hrest⟩

theorem forall₂_congr {α β : Type} {R S : α → β → Prop} {l : List α}
    (h : ∀ a ∈ l, ∀ b, R a b ↔ S a b) {l' : List β} :
    List.Forall₂ R l l' ↔ List.Forall₂ S l l' := by
  induction l generalizing l' with
  | nil => rw [List.forall₂_nil_left_iff, List.forall₂_nil_left_iff]
  | cons a l ih =>
    obtain ⟨ha, hl⟩ := List.forall_mem_cons.mp h
    simp only [List.forall₂_cons_left_iff, ha, ih hl]

theorem bind_ok_iff {α β ε : Type} {x : Except ε α} {f : α → Except ε β} {b : β} :
    (x >>= f) = .ok b ↔ ∃ a, x = .ok a ∧ f a = .ok b := by
  cases x with
  | error e => simp [bind, Except.bind]
  | ok a => simp [bind, Except.bind]

/-- The instance has the phases it was given. -/
theorem WorkflowRow.toInstance_ok_iff {row : WorkflowRow} {phaseStates : List PhaseState}
    {inst : WorkflowInstance} :
    row.toInstance phaseStates = .ok inst ↔ ∃ status template createdAt updatedAt idx,
      parseWorkflowStatus row.status = .ok status ∧ fromJson row.templateJson = .ok template ∧
      parseDatetime "created_at" row.createdAt = .ok createdAt ∧
      parseDatetime "updated_at" row.updatedAt = .ok updatedAt ∧
      toUsize "current_phase_idx" row.currentPhaseIdx = .ok idx ∧
      inst = ⟨row.workflowId, template, row.handoffPath, status, row.blockedOn, idx, phaseStates,
        [], createdAt, updatedAt⟩ := by
  unfold toInstance
  simp only [bind_ok_iff, pure, Except.pure, Except.ok.injEq]
  constructor
  · rintro ⟨status, hs, template, ht, createdAt, hc, updatedAt, hu, idx, hi, rfl⟩
    exact ⟨status, template, createdAt, updatedAt, idx, hs, ht, hc, hu, hi, rfl⟩
  · rintro ⟨status, template, createdAt, updatedAt, idx, hs, ht, hc, hu, hi, rfl⟩
    exact ⟨status, hs, template, ht, createdAt, hc, updatedAt, hu, idx, hi, rfl⟩

/-- A stored workflow is loaded when its phases and its row decode. -/
theorem Tables.getWorkflow_ok_iff {t : Tables} {row : WorkflowRow}
    (hrow : t.workflow row.workflowId = some row) {loaded : Option WorkflowInstance} :
    t.getWorkflow row.workflowId = .ok loaded ↔ ∃ phases inst,
      t.loadPhaseStates row.workflowId = .ok phases ∧ row.toInstance phases = .ok inst ∧
      loaded = some inst := by
  unfold getWorkflow
  simp only [hrow, bind_ok_iff, WorkflowRow.toInstance_ok_iff, pure, Except.pure, Except.ok.injEq]
  constructor
  · rintro ⟨status, hs, template, ht, createdAt, hc, updatedAt, hu, idx, hi, phases, hp, rfl⟩
    exact ⟨phases, _, hp, ⟨status, template, createdAt, updatedAt, idx, hs, ht, hc, hu, hi, rfl⟩,
      rfl⟩
  · rintro ⟨phases, _, hp, ⟨status, template, createdAt, updatedAt, idx, hs, ht, hc, hu, hi, rfl⟩,
      rfl⟩
    exact ⟨status, hs, template, ht, createdAt, hc, updatedAt, hu, idx, hi, phases, hp, rfl⟩

/-! ## The map of phases -/

namespace PhaseMap

variable {m m' : PhaseMap}

theorem take_snd (id k : WorkflowId) : (m.take id).2 k = if k = id then none else m k :=
  Function.update_apply m id none k

/-- The rows of the map's phases decode, all of them. -/
theorem exists_gather {rows : List PhaseRow} :
    (∃ m', m.gather rows = .ok m') ↔ ∀ row ∈ rows, ∃ state, row.toState = .ok state := by
  induction rows generalizing m with
  | nil => exact iff_of_true ⟨m, rfl⟩ fun _ h => nomatch h
  | cons row rows ih =>
    simp only [gather, bind_ok_iff, List.forall_mem_cons]
    constructor
    · rintro ⟨m', state, hstate, hrest⟩
      exact ⟨⟨state, hstate⟩, ih.mp ⟨m', hrest⟩⟩
    · rintro ⟨⟨state, hstate⟩, hrest⟩
      obtain ⟨m', hm'⟩ := ih.mpr hrest
      exact ⟨m', state, hstate, hm'⟩

/-- Each workflow gets the phases of its rows, in the order of the rows. -/
theorem gather_spec {rows : List PhaseRow} (h : m.gather rows = .ok m') (id : WorkflowId) :
    ∃ states, List.Forall₂ (fun row state => row.toState = .ok state)
        (rows.filter (·.workflowId = id)) states ∧
      (m' id).getD [] = (m id).getD [] ++ states := by
  induction rows generalizing m with
  | nil =>
    obtain rfl : m = m' := Except.ok.inj h
    exact ⟨[], .nil, (List.append_nil _).symm⟩
  | cons row rows ih =>
    obtain ⟨state, hstate, hrest⟩ := bind_ok_iff.mp h
    obtain ⟨states, hstates, hm'⟩ := ih hrest
    by_cases hid : row.workflowId = id
    · refine ⟨state :: states, ?_, ?_⟩
      · rw [List.filter_cons_of_pos (by simpa using hid)]
        exact .cons hstate hstates
      · rw [hm', push, hid, Function.update_self, Option.getD_some, List.append_assoc]
        rfl
    · refine ⟨states, ?_, ?_⟩
      · rwa [List.filter_cons_of_neg (by simpa using hid)]
      · rw [hm', push, Function.update_of_ne (Ne.symm hid)]

theorem gather_append (rows rows' : List PhaseRow) :
    m.gather (rows ++ rows') = m.gather rows >>= (gather · rows') := by
  induction rows generalizing m with
  | nil => rfl
  | cons row rows ih =>
    rw [List.cons_append, gather, gather, bind_assoc]
    exact bind_congr fun state => ih

end PhaseMap

namespace Tables

variable {t : Tables} {m : PhaseMap}

/-- The chunks are gathered like one list of rows. -/
theorem phaseMap_eq (chunks : List (List WorkflowId)) :
    t.phaseMap m chunks = m.gather (chunks.flatMap t.phaseRowsOf) := by
  induction chunks generalizing m with
  | nil => rfl
  | cons ids chunks ih =>
    rw [phaseMap, List.flatMap_cons, PhaseMap.gather_append]
    exact bind_congr fun m => ih

/-- The phases gathered for a listed workflow are those a single load returns. -/
theorem loadPhaseStates_of_phaseMap {ids : List WorkflowId} (hnodup : ids.Nodup)
    (hm : t.phaseMap (fun _ => none) (Batches.batches 999 ids) = .ok m) {id : WorkflowId}
    (hid : id ∈ ids) : t.loadPhaseStates id = .ok ((m id).getD []) := by
  rw [phaseMap_eq] at hm
  obtain ⟨states, hstates, hget⟩ := PhaseMap.gather_spec hm id
  have hrows : ((Batches.batches 999 ids).flatMap t.phaseRowsOf).filter (·.workflowId = id) =
      (t.phasesOf id).insertionSort (·.phaseOrder ≤ ·.phaseOrder) :=
    Batches.filter_flatMap_batches PhaseRow.workflowId _ (Nat.succ_ne_zero 998) hnodup hid _
  rw [hrows] at hstates
  rw [loadPhaseStates, mapM_ok_iff, hget]
  exact hstates

end Tables

/-- Only the phases of the listed workflows matter. -/
theorem assemble_congr {rows : List WorkflowRow} {m m' : PhaseMap}
    (h : ∀ row ∈ rows, m row.workflowId = m' row.workflowId) :
    assemble rows m = assemble rows m' := by
  induction rows generalizing m m' with
  | nil => rfl
  | cons row rows ih =>
    obtain ⟨hrow, hrows⟩ := List.forall_mem_cons.mp h
    have htaken : ∀ r ∈ rows,
        (m.take row.workflowId).2 r.workflowId = (m'.take row.workflowId).2 r.workflowId := by
      intro r hr
      rw [PhaseMap.take_snd, PhaseMap.take_snd, hrows r hr]
    have hphases : (m.take row.workflowId).1 = (m'.take row.workflowId).1 := by
      unfold PhaseMap.take
      rw [hrow]
    simp only [assemble, hphases, ih htaken]

/-- Rows of different workflows find the phases gathered for them. -/
theorem assemble_ok_iff {rows : List WorkflowRow} (hnodup : (rows.map (·.workflowId)).Nodup)
    {m : PhaseMap} {insts : List WorkflowInstance} :
    assemble rows m = .ok insts ↔ List.Forall₂
      (fun row inst => row.toInstance ((m row.workflowId).getD []) = .ok inst) rows insts := by
  induction rows generalizing insts with
  | nil =>
    rw [List.forall₂_nil_left_iff]
    exact ⟨fun h => (Except.ok.inj h).symm, fun h => h ▸ rfl⟩
  | cons row rows ih =>
    obtain ⟨hfresh, hrest⟩ := List.nodup_cons.mp hnodup
    -- the rows that follow have other ids: they do not see what this one took
    have hkept : assemble rows (m.take row.workflowId).2 = assemble rows m := by
      refine assemble_congr fun r hr => ?_
      rw [PhaseMap.take_snd, if_neg fun heq => hfresh (List.mem_map.mpr ⟨r, hr, heq⟩)]
    simp only [assemble, hkept, bind_ok_iff, ih hrest, List.forall₂_cons_left_iff, pure,
      Except.pure, Except.ok.injEq]
    constructor
    · rintro ⟨inst, hinst, results, hresults, rfl⟩
      exact ⟨inst, results, hinst, hresults, rfl⟩
    · rintro ⟨inst, results, hinst, hresults, rfl⟩
      exact ⟨inst, hinst, results, hresults, rfl⟩

/-! ## The listing and the single loads -/

/-- The phase rows, in phase order, of the phases of an instance. -/
def Tables.InPhaseOrder (t : Tables) (inst : WorkflowInstance) : Prop :=
  ∃ rows, rows.Perm (t.phasesOf inst.workflowId) ∧ rows.Pairwise (·.phaseOrder ≤ ·.phaseOrder) ∧
    List.Forall₂ (fun row state => row.toState = .ok state) rows inst.phaseStates

/-- The text is what the store writes for a time, with a year of four digits. -/
def WorkflowRow.AsWritten (createdAtText : WorkflowRow → String) (row : WorkflowRow) : Prop :=
  ∃ time, Timestamp.InRange time ∧ row.createdAt = .encoded time ∧
    createdAtText row = Timestamp.rfc3339 time

section Listing

variable {db : Db} {createdAtText : WorkflowRow → String}

theorem mem_activeRows {row : WorkflowRow} :
    row ∈ db.activeRows createdAtText ↔ row ∈ db.workflows ∧ row.Live := by
  unfold Tables.activeRows
  rw [List.mem_insertionSort, List.mem_filter, decide_eq_true_iff]

theorem nodup_activeRows : ((db.activeRows createdAtText).map (·.workflowId)).Nodup := by
  have hperm := List.perm_insertionSort (fun a b => createdAtText b ≤ createdAtText a)
    (db.workflows.filter (·.Live))
  refine (hperm.map _).nodup_iff.mpr ?_
  exact db.constraints.workflowKeys.sublist (List.filter_sublist.map _)

/-- Where there is nothing to list, the second query finds nothing either. -/
theorem listActiveWorkflows_eq : db.listActiveWorkflows createdAtText =
    db.phaseMap (fun _ => none)
        (Batches.batches 999 ((db.activeRows createdAtText).map (·.workflowId))) >>=
      assemble (db.activeRows createdAtText) := by
  unfold Tables.listActiveWorkflows
  cases db.activeRows createdAtText with
  | nil => rfl
  | cons row rows => rfl

theorem workflow_of_mem_activeRows {row : WorkflowRow} (h : row ∈ db.activeRows createdAtText) :
    db.workflow row.workflowId = some row :=
  Keyed.find_of_mem db.constraints.workflowKeys (mem_activeRows.mp h).1

/-- A listed row decodes with its gathered phases to what a single load returns. -/
theorem toInstance_ok_iff_of_phaseMap {m : PhaseMap}
    (hm : db.phaseMap (fun _ => none)
      (Batches.batches 999 ((db.activeRows createdAtText).map (·.workflowId))) = .ok m)
    {row : WorkflowRow} (hrow : row ∈ db.activeRows createdAtText) (inst : WorkflowInstance) :
    row.toInstance ((m row.workflowId).getD []) = .ok inst ↔
      db.getWorkflow row.workflowId = .ok (some inst) := by
  have hload := Tables.loadPhaseStates_of_phaseMap nodup_activeRows hm
    (List.mem_map_of_mem (f := (·.workflowId)) hrow)
  rw [Tables.getWorkflow_ok_iff (workflow_of_mem_activeRows hrow)]
  constructor
  · intro hinst
    exact ⟨_, inst, hload, hinst, rfl⟩
  · rintro ⟨phases, inst', hphases, hinst, heq⟩
    obtain rfl := Option.some.inj heq
    rwa [Except.ok.inj (hload.symm.trans hphases)]

/-- The phases of loadable workflows can be gathered. -/
theorem exists_phaseMap (h : ∀ row ∈ db.activeRows createdAtText,
      ∃ loaded, db.getWorkflow row.workflowId = .ok loaded) :
    ∃ m, db.phaseMap (fun _ => none)
      (Batches.batches 999 ((db.activeRows createdAtText).map (·.workflowId))) = .ok m := by
  simp only [Tables.phaseMap_eq]
  refine PhaseMap.exists_gather.mpr fun phase hphase => ?_
  obtain ⟨ids, hids, hmem⟩ := List.mem_flatMap.mp hphase
  obtain ⟨hstored, hid⟩ : phase ∈ db.phaseStates ∧ phase.workflowId ∈ ids := by
    simpa [Tables.phaseRowsOf, Batches.query] using hmem
  have hlisted := List.mem_flatten_of_mem hids hid
  rw [Batches.flatten_batches (Nat.succ_ne_zero 998)] at hlisted
  obtain ⟨row, hrow, hown⟩ := List.mem_map.mp hlisted
  obtain ⟨loaded, hloaded⟩ := h row hrow
  obtain ⟨phases, -, hphases, -⟩ :=
    (Tables.getWorkflow_ok_iff (workflow_of_mem_activeRows hrow)).mp hloaded
  have hdecoded := exists_forall₂_iff.mp ⟨phases, mapM_ok_iff.mp hphases⟩
  refine hdecoded phase ((List.mem_insertionSort _).mpr (List.mem_filter.mpr ⟨hstored, ?_⟩))
  exact decide_eq_true hown.symm

/-- The listing succeeds with the instances that single loads of the same rows return. -/
theorem listActiveWorkflows_ok_iff {insts : List WorkflowInstance} :
    db.listActiveWorkflows createdAtText = .ok insts ↔ List.Forall₂
      (fun row inst => db.getWorkflow row.workflowId = .ok (some inst))
      (db.activeRows createdAtText) insts := by
  rw [listActiveWorkflows_eq, bind_ok_iff]
  constructor
  · rintro ⟨m, hm, hinsts⟩
    exact (forall₂_congr fun row => toInstance_ok_iff_of_phaseMap hm).mp
      ((assemble_ok_iff nodup_activeRows).mp hinsts)
  · intro hloads
    obtain ⟨m, hm⟩ := exists_phaseMap fun row hrow =>
      (exists_forall₂_iff.mp ⟨insts, hloads⟩ row hrow).imp' _ fun _ h => h
    exact ⟨m, hm, (assemble_ok_iff nodup_activeRows).mpr
      ((forall₂_congr fun row => toInstance_ok_iff_of_phaseMap hm).mpr hloads)⟩

/-- What a successful load says about the row and its phases. -/
theorem exists_row_of_getWorkflow {id : WorkflowId} {inst : WorkflowInstance}
    (h : db.getWorkflow id = .ok (some inst)) : ∃ row, db.workflow id = some row ∧
      inst.workflowId = id ∧ parseDatetime "created_at" row.createdAt = .ok inst.createdAt ∧
      db.loadPhaseStates id = .ok inst.phaseStates := by
  cases hrow : db.workflow id with
  | none =>
    unfold Tables.getWorkflow at h
    rw [hrow] at h
    cases h
  | some row =>
    obtain rfl : row.workflowId = id := (Tables.workflow_eq_some hrow).2
    obtain ⟨phases, inst', hphases, hinst, heq⟩ := (Tables.getWorkflow_ok_iff hrow).mp h
    obtain rfl := Option.some.inj heq
    obtain ⟨_, _, _, _, _, -, -, hcreated, -, -, rfl⟩ := WorkflowRow.toInstance_ok_iff.mp hinst
    exact ⟨row, rfl, rfl, hcreated, hphases⟩

/-- A loaded workflow has its phases in phase order. -/
theorem inPhaseOrder_of_getWorkflow {id : WorkflowId} {inst : WorkflowInstance}
    (h : db.getWorkflow id = .ok (some inst)) : db.InPhaseOrder inst := by
  obtain ⟨row, -, rfl, -, hphases⟩ := exists_row_of_getWorkflow h
  exact ⟨_, List.perm_insertionSort _ _, List.pairwise_insertionSort _ _,
    mapM_ok_iff.mp hphases⟩

/-- Instances of rows in the order of their texts are in the order of their times. -/
theorem pairwise_createdAt {insts : List WorkflowInstance}
    (hwritten : ∀ row ∈ db.activeRows createdAtText, row.AsWritten createdAtText)
    (hloads : List.Forall₂ (fun row inst => db.getWorkflow row.workflowId = .ok (some inst))
      (db.activeRows createdAtText) insts) :
    insts.Pairwise fun a b => b.createdAt ≤ a.createdAt := by
  have htexts : List.Forall₂ (fun row inst => createdAtText row = Timestamp.rfc3339 inst.createdAt ∧
      Timestamp.InRange inst.createdAt) (db.activeRows createdAtText) insts := by
    have hrows := (List.forall₂_and_left _ _).mpr ⟨fun row hrow => hrow, hloads⟩
    refine hrows.imp fun row inst ⟨hrow, hload⟩ => ?_
    obtain ⟨row', hrow', -, hcreated, -⟩ := exists_row_of_getWorkflow hload
    obtain rfl := Option.some.inj ((workflow_of_mem_activeRows hrow).symm.trans hrow')
    obtain ⟨time, hrange, henc, htext⟩ := hwritten row hrow
    rw [henc] at hcreated
    obtain rfl := Except.ok.inj hcreated
    exact ⟨htext, hrange⟩
  have hrange : ∀ inst ∈ insts, Timestamp.InRange inst.createdAt := fun inst hinst =>
    have ⟨_, _, h⟩ := exists_forall₂_iff.mp ⟨_, htexts.flip⟩ inst hinst
    h
  have hmap : (db.activeRows createdAtText).map createdAtText =
      insts.map fun inst => Timestamp.rfc3339 inst.createdAt := by
    rw [← List.forall₂_eq_eq_eq, List.forall₂_map_left_iff, List.forall₂_map_right_iff]
    exact htexts.imp fun _ _ h => h.1
  have hsorted : ((db.activeRows createdAtText).map createdAtText).Pairwise fun a b => b ≤ a :=
    List.pairwise_map.mpr (List.pairwise_insertionSort _ _)
  rw [hmap, List.pairwise_map] at hsorted
  refine hsorted.imp_of_mem fun ha hb hle => ?_
  by_contra hlt
  exact hle.not_gt (Timestamp.rfc3339_lt (hrange _ ha) (hrange _ hb) (Int.not_le.mp hlt))

end Listing

/-- **Listing.** `list_active_workflows` succeeds exactly when a single load of each live workflow
does. It lists what the loads return, one instance for each live row, the latest first by the text
of `created_at` and, where the store wrote these texts, by time, each with its phases in order. -/
theorem listActiveWorkflows_spec (db : Db) (createdAtText : WorkflowRow → String) :
    ((∃ insts, db.listActiveWorkflows createdAtText = .ok insts) ↔
      ∀ row ∈ db.workflows, row.Live → ∃ loaded, db.getWorkflow row.workflowId = .ok loaded) ∧
    ∀ insts, db.listActiveWorkflows createdAtText = .ok insts →
      ∃ rows : List WorkflowRow, rows.Perm (db.workflows.filter (·.Live)) ∧
        rows.Pairwise (fun a b => createdAtText b ≤ createdAtText a) ∧
        List.Forall₂ (fun row inst => db.getWorkflow row.workflowId = .ok (some inst) ∧
          db.InPhaseOrder inst) rows insts ∧
        ((∀ row ∈ rows, row.AsWritten createdAtText) →
          insts.Pairwise fun a b => b.createdAt ≤ a.createdAt) := by
  constructor
  · simp only [listActiveWorkflows_ok_iff]
    rw [exists_forall₂_iff]
    constructor
    · intro h row hrow hlive
      obtain ⟨inst, hinst⟩ := h row (mem_activeRows.mpr ⟨hrow, hlive⟩)
      exact ⟨some inst, hinst⟩
    · intro h row hrow
      obtain ⟨hstored, hlive⟩ := mem_activeRows.mp hrow
      obtain ⟨loaded, hloaded⟩ := h row hstored hlive
      obtain ⟨_, inst, -, -, rfl⟩ :=
        (Tables.getWorkflow_ok_iff (workflow_of_mem_activeRows hrow)).mp hloaded
      exact ⟨inst, hloaded⟩
  · intro insts hinsts
    have hloads := listActiveWorkflows_ok_iff.mp hinsts
    refine ⟨db.activeRows createdAtText, List.perm_insertionSort _ _,
      List.pairwise_insertionSort _ _, hloads.imp fun _ _ h => ⟨h, inPhaseOrder_of_getWorkflow h⟩,
      fun hwritten => pairwise_createdAt hwritten hloads⟩

end Hymenium
