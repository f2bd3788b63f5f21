import Hymenium.Store.WorkflowStore

/-!
# What the statements of the store do

A reader of the database looks at three views of a workflow: its row, its phase rows, its outcome
row. This file says what every write does to these views, when a statement succeeds, and which
writes keep the constraints of the schema.
-/

namespace Hymenium

namespace Txn

variable {ε α : Type}

theorem run_throw_ne_ok {e : ε} {db : Db} {r : α × Db} :
    (throw e : Txn ε α).run db ≠ .ok r := fun h => nomatch h

theorem run_ite_throw_ok {c : Prop} [Decidable c] {e : ε} {db : Db} {r : Unit × Db} :
    (if c then throw e else pure () : Txn ε Unit).run db = .ok r ↔ ¬ c ∧ r = ((), db) := by
  split_ifs with h
  · exact ⟨fun hr => absurd hr run_throw_ne_ok, fun hr => absurd h hr.1⟩
  · rw [run_pure_ok]
    exact ⟨fun hr => ⟨h, hr⟩, fun hr => hr.2⟩

@[simp] theorem run_get_ok {db : Db} {r : Db × Db} :
    (get : Txn ε Db).run db = .ok r ↔ r = (db, db) := by
  show Except.ok (db, db) = Except.ok r ↔ _
  rw [Except.ok.injEq, eq_comm]

@[simp] theorem run_liftExcept_ok {x : Except ε α} {db : Db} {r : α × Db} :
    (liftM x : Txn ε α).run db = .ok r ↔ x = .ok r.1 ∧ r.2 = db := by
  cases x with
  | error e =>
    show Except.error e = Except.ok r ↔ _
    simp
  | ok a =>
    show Except.ok (a, db) = Except.ok r ↔ _
    rw [Except.ok.injEq, Except.ok.injEq, Prod.ext_iff, eq_comm (a := db)]

@[simp] theorem run_query_ok {f : Tables → Except StoreError α} {db : Db} {r : α × Db} :
    (query f).run db = .ok r ↔ f db.toTables = .ok r.1 ∧ r.2 = db := by
  show (f db.toTables).map (·, db) = .ok r ↔ _
  cases f db.toTables with
  | error e => simp [Except.map]
  | ok a =>
    show Except.ok (a, db) = Except.ok r ↔ _
    rw [Except.ok.injEq, Except.ok.injEq, Prod.ext_iff, eq_comm (a := db)]

/-! ### Invariants of transactions -/

/-- When the body runs to its end it keeps `I`. -/
def Keeps (I : Db → Prop) (body : Txn ε α) : Prop :=
  ∀ db r, I db → body.run db = .ok r → I r.2

namespace Keeps

variable {I : Db → Prop} {β : Type}

theorem bind {x : Txn ε α} {f : α → Txn ε β} (hx : Keeps I x) (hf : ∀ a, Keeps I (f a)) :
    Keeps I (x >>= f) := by
  intro db r h hrun
  obtain ⟨a, db₁, h₁, h₂⟩ := run_bind_ok.mp hrun
  exact hf a db₁ r (hx db (a, db₁) h h₁) h₂

theorem throw (e : ε) : Keeps I (throw e : Txn ε α) := fun _ _ _ hrun => absurd hrun run_throw_ne_ok

theorem pure (a : α) : Keeps I (pure a : Txn ε α) := by
  intro db r h hrun
  rw [run_pure_ok.mp hrun]
  exact h

theorem get : Keeps I (get : Txn ε Db) := by
  intro db r h hrun
  rw [run_get_ok.mp hrun]
  exact h

theorem liftExcept (x : Except ε α) : Keeps I (liftM x : Txn ε α) := by
  intro db r h hrun
  rw [(run_liftExcept_ok.mp hrun).2]
  exact h

theorem query (f : Tables → Except StoreError α) : Keeps I (query f) := by
  intro db r h hrun
  rw [(run_query_ok.mp hrun).2]
  exact h

theorem execute {f : Tables → Tables}
    (hf : ∀ db (hc : (f db.toTables).Constraints), I db → I ⟨f db.toTables, hc⟩) :
    Keeps I (execute f) := by
  intro db r h hrun
  obtain ⟨hc, htables⟩ := execute_ok.mp hrun
  rw [show r.2 = ⟨f db.toTables, hc⟩ from Db.ext_tables htables]
  exact hf db hc h

/-- Committed or rolled back, the transaction keeps the invariant. -/
theorem withTransaction {body : Txn ε α} (h : Keeps I body) {db : Db} (hdb : I db) :
    I (withTransaction body db).2 := by
  unfold Hymenium.withTransaction
  cases hrun : body.run db with
  | error e => exact hdb
  | ok r => exact h db r hdb hrun

end Keeps

end Txn

theorem withTransaction_ok {ε α : Type} {body : Txn ε α} {db : Db} {a : α} {db' : Db}
    (h : body.run db = .ok (a, db')) : withTransaction body db = (.ok a, db') := by
  rw [withTransaction, h]

theorem withTransaction_error {ε α : Type} {body : Txn ε α} {db : Db} {e : ε}
    (h : body.run db = .error e) : withTransaction body db = (.error e, db) := by
  rw [withTransaction, h]

theorem toI64_ok {field : String} {n : ℕ} {z : ℤ} :
    toI64 field n = .ok z ↔ n < 2 ^ 63 ∧ z = n := by
  unfold toI64
  split_ifs with h
  · rw [Except.ok.injEq, eq_comm]
    exact ⟨fun hz => ⟨h, hz⟩, fun hz => hz.2⟩
  · exact ⟨(fun hz => nomatch hz), fun hz => absurd hz.1 h⟩

/-! ## Views -/

namespace Tables

variable {t : Tables} {id id' : WorkflowId}

theorem workflow_eq_some {row : WorkflowRow} (h : t.workflow id = some row) :
    row ∈ t.workflows ∧ row.workflowId = id := Keyed.find_eq_some h

theorem workflow_eq_none_iff : t.workflow id = none ↔ id ∉ t.workflowIds :=
  Keyed.find_eq_none_iff

/-- A write to the row of one workflow that keeps its id. -/
theorem workflow_update {f : WorkflowRow → WorkflowRow}
    (hf : ∀ row, (f row).workflowId = row.workflowId) :
    ({ t with workflows := Keyed.update (·.workflowId) id f t.workflows } : Tables).workflow id' =
      if id' = id then (t.workflow id').map f else t.workflow id' :=
  Keyed.find_update hf t.workflows

@[simp] theorem workflow_setStatus {status : WorkflowStatus} {blockedOn : Option String}
    {now : DateTime} : (t.setStatus id status blockedOn now).workflow id' =
      if id' = id then (t.workflow id').map (·.withStatus status blockedOn now)
      else t.workflow id' := workflow_update fun _ => rfl

@[simp] theorem workflow_setPhaseIdx {idx : ℤ} {now : DateTime} :
    (t.setPhaseIdx id idx now).workflow id' =
      if id' = id then (t.workflow id').map (·.withPhaseIdx idx now) else t.workflow id' :=
  workflow_update fun _ => rfl

theorem workflow_insertWorkflow {row : WorkflowRow} (h : row.workflowId ∉ t.workflowIds) :
    (t.insertWorkflow row).workflow id =
      if id = row.workflowId then some row else t.workflow id := Keyed.find_append_singleton h

@[simp] theorem phasesOf_insertWorkflow {row : WorkflowRow} :
    (t.insertWorkflow row).phasesOf id = t.phasesOf id := rfl

@[simp] theorem outcome_insertWorkflow {row : WorkflowRow} :
    (t.insertWorkflow row).outcome id = t.outcome id := rfl

@[simp] theorem outcome_replaceOutcome {row : OutcomeRow} :
    (t.replaceOutcome row).outcome id =
      if id = row.workflowId then some row else t.outcome id := Keyed.find_replace id row _

/-- Upsert phase rows one after the other. -/
def upsertPhases (t : Tables) (rows : List PhaseRow) : Tables :=
  { t with phaseStates := Keyed.upsertAll PhaseRow.key rows t.phaseStates }

@[simp] theorem workflow_upsertPhases {rows : List PhaseRow} :
    (t.upsertPhases rows).workflow id = t.workflow id := rfl

@[simp] theorem outcome_upsertPhases {rows : List PhaseRow} :
    (t.upsertPhases rows).outcome id = t.outcome id := rfl

/-- Upserts of one workflow are not seen in the phases of another. -/
theorem phasesOf_upsertPhases_ne {rows : List PhaseRow} (hrows : ∀ row ∈ rows, row.workflowId = id)
    (hne : id' ≠ id) : (t.upsertPhases rows).phasesOf id' = t.phasesOf id' :=
  Keyed.filter_upsertAll_of_neg PhaseRow.key (q := fun k => k.1 = id')
    (fun row hr h => hne (h.symm.trans (hrows row hr))) t.phaseStates

theorem phasesOf_upsertPhases {rows : List PhaseRow} (hrows : ∀ row ∈ rows, row.workflowId = id) :
    (t.upsertPhases rows).phasesOf id = Keyed.upsertAll PhaseRow.key rows (t.phasesOf id) :=
  Keyed.filter_upsertAll_of_pos PhaseRow.key (q := fun k => k.1 = id) hrows t.phaseStates

end Tables

/-! ## The rows of a list of phases -/

/-- The rows of phase states, with orders from `order` on. -/
def PhaseRow.ofStates (id : WorkflowId) : List PhaseState → ℕ → List PhaseRow
  | [], _ => []
  | state :: states, order => .ofState id state order :: ofStates id states (order + 1)

theorem PhaseRow.exists_of_mem_ofStates {id : WorkflowId} {states : List PhaseState} {order : ℕ}
    {row : PhaseRow} (h : row ∈ PhaseRow.ofStates id states order) :
    ∃ state ∈ states, ∃ k : ℕ, row = .ofState id state k := by
  induction states generalizing order with
  | nil => cases h
  | cons state states ih =>
    rcases List.mem_cons.mp h with rfl | h
    · exact ⟨state, List.mem_cons_self, order, rfl⟩
    · obtain ⟨s, hs, k, heq⟩ := ih h
      exact ⟨s, List.mem_cons_of_mem _ hs, k, heq⟩

theorem PhaseRow.workflowId_of_mem_ofStates {id : WorkflowId} {states : List PhaseState}
    {order : ℕ} {row : PhaseRow} (h : row ∈ PhaseRow.ofStates id states order) :
    row.workflowId = id := by
  obtain ⟨state, -, k, rfl⟩ := PhaseRow.exists_of_mem_ofStates h
  rfl

theorem PhaseRow.map_key_ofStates (id : WorkflowId) (states : List PhaseState) (order : ℕ) :
    (PhaseRow.ofStates id states order).map PhaseRow.key =
      (states.map (·.phaseId)).map (Prod.mk id) := by
  induction states generalizing order with
  | nil => rfl
  | cons state states ih =>
    rw [PhaseRow.ofStates, List.map_cons, List.map_cons, List.map_cons, ih]
    rfl

/-- The rows of phases with distinct ids have distinct keys. -/
theorem PhaseRow.nodup_key_ofStates (id : WorkflowId) {states : List PhaseState} (order : ℕ) :
    ((PhaseRow.ofStates id states order).map PhaseRow.key).Nodup ↔
      (states.map (·.phaseId)).Nodup := by
  rw [PhaseRow.map_key_ofStates]
  exact List.nodup_map_iff (Prod.mk_right_injective id)

/-- A write to the row of one phase, on rows of states. -/
theorem PhaseRow.update_ofStates {id : WorkflowId} {phaseId : String} {g : PhaseRow → PhaseRow}
    {f : PhaseState → PhaseState}
    (h : ∀ state (k : ℕ), g (.ofState id state k) = .ofState id (f state) k)
    (states : List PhaseState) (order : ℕ) :
    Keyed.update PhaseRow.key (id, phaseId) g (PhaseRow.ofStates id states order) =
      PhaseRow.ofStates id
        (states.map fun state => if state.phaseId = phaseId then f state else state) order := by
  induction states generalizing order with
  | nil => rfl
  | cons state states ih =>
    unfold Keyed.update at ih ⊢
    rw [List.map_cons, PhaseRow.ofStates, List.map_cons, PhaseRow.ofStates, ih]
    have hkey : PhaseRow.key (.ofState id state order) = (id, phaseId) ↔
        state.phaseId = phaseId := by simp [PhaseRow.key, PhaseRow.ofState]
    simp only [hkey]
    split_ifs
    · rw [h]
    · rfl

/-- Upserting one phase at its position writes over it. -/
theorem PhaseRow.upsert_ofStates (id : WorkflowId) {states : List PhaseState} {i : ℕ}
    {p p' : PhaseState} (hnodup : (states.map (·.phaseId)).Nodup) (hp : states[i]? = some p)
    (hid : p'.phaseId = p.phaseId) (order : ℕ) :
    Keyed.upsert PhaseRow.key (.ofState id p' (order + i : ℕ)) (PhaseRow.ofStates id states order) =
      PhaseRow.ofStates id (states.set i p') order := by
  induction states generalizing i order with
  | nil => cases hp
  | cons state states ih =>
    rw [List.map_cons, List.nodup_cons] at hnodup
    cases i with
    | zero =>
      obtain rfl : state = p := Option.some.inj hp
      show Keyed.upsert _ _ ([] ++ _ :: _) = [] ++ _ :: _
      refine Keyed.upsert_middle (congrArg (Prod.mk id) hid.symm) List.not_mem_nil ?_
      rw [PhaseRow.map_key_ofStates]
      intro hmem
      obtain ⟨phaseId, hs, heq⟩ := List.mem_map.mp hmem
      have hsame : phaseId = p'.phaseId := congrArg Prod.snd heq
      exact hnodup.1 (hid ▸ hsame ▸ hs)
    | succ i =>
      have hne : state.phaseId ≠ p'.phaseId := by
        intro heq
        rw [heq, hid] at hnodup
        exact hnodup.1 (List.mem_map_of_mem (List.mem_of_getElem? hp))
      rw [PhaseRow.ofStates, Keyed.upsert_cons_of_ne fun h => hne (congrArg Prod.snd h)]
      have hrest := ih hnodup.2 hp (order + 1)
      rw [Nat.add_assoc, Nat.add_comm 1 i] at hrest
      rw [hrest]
      rfl

/-- The rows of a list of phases are in phase order. -/
theorem PhaseRow.pairwise_ofStates (id : WorkflowId) (states : List PhaseState) (order : ℕ) :
    (PhaseRow.ofStates id states order).Pairwise (·.phaseOrder ≤ ·.phaseOrder) ∧
      ∀ row ∈ PhaseRow.ofStates id states order, (order : ℤ) ≤ row.phaseOrder := by
  induction states generalizing order with
  | nil => exact ⟨.nil, fun row h => nomatch h⟩
  | cons state states ih =>
    obtain ⟨hpair, hle⟩ := ih (order + 1)
    refine ⟨.cons (fun row hr => ?_) hpair, fun row hr => ?_⟩
    · have := hle row hr
      show (order : ℤ) ≤ row.phaseOrder
      omega
    · rcases List.mem_cons.mp hr with rfl | hr
      · exact le_refl (order : ℤ)
      · have := hle row hr
        omega

theorem mapM_parseDatetime_encoded (field : String) (t : Option DateTime) :
    (t.map Stored.encoded).mapM (parseDatetime field) = .ok t := by
  cases t <;> rfl

@[simp] theorem PhaseRow.toState_ofState (id : WorkflowId) (state : PhaseState) (order : ℤ) :
    (PhaseRow.ofState id state order).toState = .ok state := by
  obtain ⟨phaseId, role, status, agentId, taskId, startedAt, completedAt, reason, message, n, m,
    k⟩ := state
  unfold PhaseRow.toState PhaseRow.ofState
  simp only [toU32_toNat, parseAgentRole_toString, parsePhaseStatus_toString,
    mapM_parseDatetime_encoded]
  rfl

theorem PhaseRow.mapM_toState_ofStates (id : WorkflowId) (states : List PhaseState) (order : ℕ) :
    (PhaseRow.ofStates id states order).mapM PhaseRow.toState = .ok states := by
  induction states generalizing order with
  | nil => rfl
  | cons state states ih =>
    rw [PhaseRow.ofStates, List.mapM_cons, PhaseRow.toState_ofState, ih]
    rfl

/-- Phases stored under orders that are their positions are loaded as they were. -/
theorem Tables.loadPhaseStates_ofStates {t : Tables} {id : WorkflowId} {states : List PhaseState}
    (h : t.phasesOf id = PhaseRow.ofStates id states 0) :
    t.loadPhaseStates id = .ok states := by
  rw [Tables.loadPhaseStates, h, (PhaseRow.pairwise_ofStates id states 0).1.insertionSort_eq]
  exact PhaseRow.mapM_toState_ofStates id states 0

/-! ## Writes that keep the constraints -/

namespace Tables

variable {t : Tables} {id : WorkflowId}

theorem liveByHash_eq_none_iff {hash : String} :
    t.liveByHash hash = none ↔ ∀ row ∈ t.workflows, row.contentHash = some hash → ¬ row.Live := by
  simp [liveByHash, List.find?_eq_none]

/-- The index on content hashes, row by row. -/
theorem nodup_activeHashes_iff (h : t.workflowIds.Nodup) :
    t.activeHashes.Nodup ↔ ∀ a ∈ t.workflows, ∀ b ∈ t.workflows, a.Live → b.Live →
      ∀ hash, a.contentHash = some hash → b.contentHash = some hash → a.workflowId = b.workflowId :=
  Keyed.unique_iff h

/-- The row of workflow `id` can become live: no live row has its content hash. -/
def HashFree (t : Tables) (id : WorkflowId) : Prop :=
  ∀ row, t.workflow id = some row → ∀ hash, row.contentHash = some hash → t.liveByHash hash = none

/-- A write to one workflow row that keeps id and hash, and makes the row live only if it was live
before or its hash is free. -/
theorem Constraints.update (hc : t.Constraints) {f : WorkflowRow → WorkflowRow}
    (hid : ∀ row, (f row).workflowId = row.workflowId)
    (hhash : ∀ row, (f row).contentHash = row.contentHash)
    (hlive : ∀ row, t.workflow id = some row → (f row).Live → row.Live ∨ t.HashFree id) :
    ({ t with workflows := Keyed.update (·.workflowId) id f t.workflows } :
      Tables).Constraints := by
  have hids : (Keyed.update (·.workflowId) id f t.workflows).map (·.workflowId) = t.workflowIds :=
    Keyed.map_key_update hid t.workflows
  refine ⟨by rw [workflowIds, hids]; exact hc.workflowKeys, hc.phaseKeys, hc.outcomeKeys,
    hc.runtimeKeys, ?_, by rw [workflowIds, hids]; exact hc.phaseOwners,
    by rw [workflowIds, hids]; exact hc.transitionOwners⟩
  rw [nodup_activeHashes_iff (by rw [workflowIds, hids]; exact hc.workflowKeys)]
  have hold := (nodup_activeHashes_iff hc.workflowKeys).mp hc.activeHashes
  -- A row that the write made live has no live row of its hash beside it.
  have hnew : ∀ a ∈ t.workflows, ∀ b ∈ t.workflows, a.workflowId = id → b.workflowId ≠ id →
      (f a).Live → b.Live → ∀ hash, a.contentHash = some hash → b.contentHash ≠ some hash := by
    intro a ha b hb haid hbid hfa hlb hash hah hbh
    have hrow : t.workflow id = some a := haid ▸ Keyed.find_of_mem hc.workflowKeys ha
    rcases hlive a hrow hfa with hla | hfree
    · exact hbid ((hold b hb a ha hlb hla hash hbh hah).trans haid)
    · exact liveByHash_eq_none_iff.mp (hfree a hrow hash hah) b hb hbh hlb
  intro a' ha' b' hb' hla hlb hash hah hbh
  obtain ⟨a, ha, rfl⟩ := List.mem_map.mp ha'
  obtain ⟨b, hb, rfl⟩ := List.mem_map.mp hb'
  by_cases haid : a.workflowId = id <;> by_cases hbid : b.workflowId = id
  · rw [if_pos haid, if_pos hbid, hid, hid, haid, hbid]
  · rw [if_pos haid] at hla hah
    rw [if_neg hbid] at hlb hbh
    exact absurd hbh (hnew a ha b hb haid hbid hla hlb hash ((hhash a).symm.trans hah))
  · rw [if_neg haid] at hla hah
    rw [if_pos hbid] at hlb hbh
    exact absurd hah (hnew b hb a ha hbid haid hlb hla hash ((hhash b).symm.trans hbh))
  · rw [if_neg haid] at hla hah ⊢
    rw [if_neg hbid] at hlb hbh ⊢
    exact hold a ha b hb hla hlb hash hah hbh

theorem Constraints.setPhaseIdx (hc : t.Constraints) (idx : ℤ) (now : DateTime) :
    (t.setPhaseIdx id idx now).Constraints :=
  hc.update (fun _ => rfl) (fun _ => rfl) fun _ _ hlive => .inl hlive

/-- A status can be written when it is terminal, when the workflow is live, or when its hash is
free. -/
theorem Constraints.setStatus (hc : t.Constraints) {status : WorkflowStatus}
    (blockedOn : Option String) (now : DateTime)
    (h : ∀ row, t.workflow id = some row → status.toString ∉ terminalStatuses →
      row.Live ∨ t.HashFree id) : (t.setStatus id status blockedOn now).Constraints :=
  hc.update (fun _ => rfl) (fun _ => rfl) h

theorem Constraints.upsertPhase (hc : t.Constraints) {row : PhaseRow}
    (hrow : row.workflowId ∈ t.workflowIds) : (t.upsertPhase row).Constraints := by
  refine ⟨hc.workflowKeys, Keyed.nodup_upsert hc.phaseKeys, hc.outcomeKeys, hc.runtimeKeys,
    hc.activeHashes, fun r hr => ?_, hc.transitionOwners⟩
  rcases Keyed.mem_upsert hr with rfl | ⟨hr, -⟩
  · exact hrow
  · exact hc.phaseOwners r hr

end Tables

/-! ## When a statement succeeds -/

section Succeeds

variable {db : Db} {id : WorkflowId} {r : Unit × Db}

theorem updateWorkflowStatus_ok {status : WorkflowStatus} {blockedOn : Option String}
    {now : DateTime} :
    (updateWorkflowStatus id status blockedOn now).run db = .ok r ↔
      (db.setStatus id status blockedOn now).Constraints ∧ db.workflow id ≠ none ∧
        r.2.toTables = db.setStatus id status blockedOn now := by
  unfold updateWorkflowStatus
  simp only [Txn.run_bind_ok, Txn.execute_ok, Txn.run_get_ok, Txn.run_ite_throw_ok]
  constructor
  · rintro ⟨_, db₁, ⟨hc, h₁⟩, _, _, h₂, hn, rfl⟩
    cases h₂
    rw [h₁, Tables.workflow_setStatus, if_pos rfl, Option.map_eq_none_iff] at hn
    exact ⟨hc, hn, h₁⟩
  · rintro ⟨hc, hn, h⟩
    refine ⟨(), r.2, ⟨hc, h⟩, r.2, r.2, rfl, ?_, rfl⟩
    rwa [h, Tables.workflow_setStatus, if_pos rfl, Option.map_eq_none_iff]

theorem updateCurrentPhaseIdx_ok {idx : ℕ} {now : DateTime} :
    (updateCurrentPhaseIdx id idx now).run db = .ok r ↔
      idx < 2 ^ 63 ∧ (db.setPhaseIdx id idx now).Constraints ∧ db.workflow id ≠ none ∧
        r.2.toTables = db.setPhaseIdx id idx now := by
  unfold updateCurrentPhaseIdx
  simp only [Txn.run_bind_ok, Txn.execute_ok, Txn.run_get_ok, Txn.run_ite_throw_ok,
    Txn.run_liftExcept_ok, toI64_ok]
  constructor
  · rintro ⟨_, _, ⟨⟨hidx, rfl⟩, rfl⟩, _, db₁, ⟨hc, h₁⟩, _, _, h₂, hn, rfl⟩
    cases h₂
    rw [h₁, Tables.workflow_setPhaseIdx, if_pos rfl, Option.map_eq_none_iff] at hn
    exact ⟨hidx, hc, hn, h₁⟩
  · rintro ⟨hidx, hc, hn, h⟩
    refine ⟨idx, db, ⟨⟨hidx, rfl⟩, rfl⟩, (), r.2, ⟨hc, h⟩, r.2, r.2, rfl, ?_, rfl⟩
    rwa [h, Tables.workflow_setPhaseIdx, if_pos rfl, Option.map_eq_none_iff]

theorem recordTransition_ok {fromPhase toPhase reason : Option String} {now : DateTime} :
    (recordTransition id fromPhase toPhase reason now).run db = .ok r ↔
      (db.addTransition ⟨id, fromPhase, toPhase, .encoded now, reason⟩).Constraints ∧
        r.2.toTables = db.addTransition ⟨id, fromPhase, toPhase, .encoded now, reason⟩ :=
  Txn.execute_ok

theorem upsertPhaseState_ok {state : PhaseState} {order : ℕ} :
    (upsertPhaseState id state order).run db = .ok r ↔
      order < 2 ^ 63 ∧ (db.upsertPhase (.ofState id state order)).Constraints ∧
        r.2.toTables = db.upsertPhase (.ofState id state order) := by
  unfold upsertPhaseState
  simp only [Txn.run_bind_ok, Txn.execute_ok, Txn.run_liftExcept_ok, toI64_ok]
  constructor
  · rintro ⟨_, _, ⟨⟨hidx, rfl⟩, rfl⟩, h⟩
    exact ⟨hidx, h⟩
  · rintro ⟨hidx, h⟩
    exact ⟨order, db, ⟨⟨hidx, rfl⟩, rfl⟩, h⟩

/-- Phases that were upserted are upserted in the tables. -/
theorem upsertPhaseStates_eq {states : List PhaseState} {order : ℕ}
    (h : (upsertPhaseStates id states order).run db = .ok r) :
    r.2.toTables = db.upsertPhases (PhaseRow.ofStates id states order) := by
  induction states generalizing db order with
  | nil =>
    rw [upsertPhaseStates, Txn.run_pure_ok] at h
    rw [h]
    rfl
  | cons state states ih =>
    rw [upsertPhaseStates, Txn.run_bind_ok] at h
    obtain ⟨_, db₁, h₁, h₂⟩ := h
    rw [ih h₂, (upsertPhaseState_ok.mp h₁).2.2]
    rfl

/-- The phases of a stored workflow can be upserted. -/
theorem length_of_upsertPhaseStates {states : List PhaseState} {order : ℕ}
    (h : (upsertPhaseStates id states order).run db = .ok r) :
    states = [] ∨ order + states.length ≤ 2 ^ 63 := by
  induction states generalizing db order with
  | nil => exact .inl rfl
  | cons state states ih =>
    rw [upsertPhaseStates] at h
    obtain ⟨_, db₁, h₁, h₂⟩ := Txn.run_bind_ok.mp h
    have horder := (upsertPhaseState_ok.mp h₁).1
    rw [List.length_cons]
    rcases ih h₂ with rfl | hle
    · exact .inr horder
    · exact .inr (by omega)

theorem exists_upsertPhaseStates {states : List PhaseState} {order : ℕ}
    (hid : id ∈ db.workflowIds) (hlen : order + states.length ≤ 2 ^ 63) :
    ∃ db', (upsertPhaseStates id states order).run db = .ok ((), db') := by
  induction states generalizing db order with
  | nil => exact ⟨db, rfl⟩
  | cons state states ih =>
    have hc : (db.upsertPhase (.ofState id state order)).Constraints :=
      db.constraints.upsertPhase hid
    rw [List.length_cons] at hlen
    obtain ⟨db', hdb'⟩ := @ih ⟨_, hc⟩ (order + 1) hid (by omega)
    refine ⟨db', Txn.run_bind_ok.mpr ⟨(), ⟨_, hc⟩, ?_, hdb'⟩⟩
    exact upsertPhaseState_ok.mpr ⟨by omega, hc, rfl⟩

theorem emitTerminalOutcome_eq {inst : WorkflowInstance} {failure : Option FailureKind}
    {clk : Clock} (h : (emitTerminalOutcome inst failure clk).run db = .ok r) :
    ∃ outcome, WorkflowOutcome.build inst failure (clk 0) = some outcome ∧
      r.2.toTables = db.replaceOutcome ⟨inst.workflowId, .encoded outcome, .encoded (clk 1)⟩ := by
  unfold emitTerminalOutcome at h
  cases hb : WorkflowOutcome.build inst failure (clk 0) with
  | none =>
    rw [hb] at h
    exact absurd h Txn.run_throw_ne_ok
  | some outcome =>
    rw [hb] at h
    refine ⟨outcome, rfl, ?_⟩
    rw [← (WorkflowOutcome.build_spec hb).1]
    exact (Txn.execute_ok.mp h).2

/-- The canonical workflow is the live one with the hash; reading it writes nothing. -/
theorem canonicalByHash_ok {contentHash : String} {q : WorkflowInstance × Db}
    (h : (canonicalByHash contentHash).run db = .ok q) :
    q.2 = db ∧ ∃ row, db.liveByHash contentHash = some row ∧
      db.getWorkflow row.workflowId = .ok (some q.1) := by
  unfold canonicalByHash at h
  obtain ⟨d, db₁, hget, h⟩ := Txn.run_bind_ok.mp h
  cases Txn.run_get_ok.mp hget
  cases hlive : db.liveByHash contentHash with
  | none =>
    rw [hlive] at h
    exact absurd h Txn.run_throw_ne_ok
  | some row =>
    rw [hlive] at h
    obtain ⟨found, db₂, hquery, h⟩ := Txn.run_bind_ok.mp h
    obtain ⟨hfound, hdb⟩ := Txn.run_query_ok.mp hquery
    cases found with
    | none => exact absurd h Txn.run_throw_ne_ok
    | some canonical =>
      rw [Txn.run_pure_ok.mp h]
      exact ⟨hdb, row, rfl, hfound⟩

/-- Inserting by hash leaves the database alone, or inserts the instance under a fresh id. -/
theorem findAndInsertWorkflowByHash_ok {inst : WorkflowInstance} {contentHash : String}
    {q : WorkflowInstance × Db}
    (h : (findAndInsertWorkflowByHash inst contentHash).run db = .ok q) :
    q.2 = db ∨ inst.workflowId ∉ db.workflowIds ∧ q.2.toTables =
      (db.insertWorkflow (.ofInstance inst inst.currentPhaseIdx (some contentHash))).upsertPhases
        (PhaseRow.ofStates inst.workflowId inst.phaseStates 0) ∧
      inst.currentPhaseIdx < 2 ^ 63 ∧ inst.phaseStates.length ≤ 2 ^ 63 := by
  unfold findAndInsertWorkflowByHash at h
  obtain ⟨idx, db₁, hidx, h₁⟩ := Txn.run_bind_ok.mp h
  obtain ⟨hok, hdb⟩ := Txn.run_liftExcept_ok.mp hidx
  have hlt : inst.currentPhaseIdx < 2 ^ 63 := (toI64_ok.mp hok).1
  have hidx' : idx = inst.currentPhaseIdx := (toI64_ok.mp hok).2
  have hdb₁ : db₁ = db := hdb
  rw [hidx', hdb₁] at h₁
  obtain ⟨n, db₂, hinsert, h₂⟩ := Txn.run_bind_ok.mp h₁
  change insertOrIgnoreWorkflow _ db = _ at hinsert
  unfold insertOrIgnoreWorkflow at hinsert
  split_ifs at hinsert with hc
  · cases hinsert
    rw [if_pos Nat.one_pos] at h₂
    obtain ⟨_, db₃, hphases, h₃⟩ := Txn.run_bind_ok.mp h₂
    have hkeys : (db.workflowIds ++ [inst.workflowId]).Nodup := by
      have := hc.workflowKeys
      rwa [Tables.workflowIds, Tables.insertWorkflow, List.map_append] at this
    refine .inr ⟨fun hmem => ?_, ?_, hlt, ?_⟩
    · exact List.disjoint_of_nodup_append hkeys hmem (List.mem_singleton_self _)
    · rw [(canonicalByHash_ok h₃).1]
      exact upsertPhaseStates_eq hphases
    · rcases length_of_upsertPhaseStates hphases with hnil | hle
      · rw [hnil]
        exact Nat.zero_le _
      · omega
  · cases hinsert
    rw [if_neg (Nat.lt_irrefl 0)] at h₂
    exact .inl (canonicalByHash_ok h₂).1

/-- Inserting by hash returns the live workflow with the hash. -/
theorem findAndInsertWorkflowByHash_canonical {inst : WorkflowInstance} {contentHash : String}
    {q : WorkflowInstance × Db}
    (h : (findAndInsertWorkflowByHash inst contentHash).run db = .ok q) :
    ∃ row, q.2.liveByHash contentHash = some row ∧
      q.2.getWorkflow row.workflowId = .ok (some q.1) := by
  unfold findAndInsertWorkflowByHash at h
  obtain ⟨idx, db₁, -, h⟩ := Txn.run_bind_ok.mp h
  obtain ⟨n, db₂, -, h⟩ := Txn.run_bind_ok.mp h
  have hread : ∃ db₃, (canonicalByHash contentHash).run db₃ = .ok q := by
    split_ifs at h
    · obtain ⟨_, db₃, -, h⟩ := Txn.run_bind_ok.mp h
      exact ⟨db₃, h⟩
    · exact ⟨db₂, h⟩
  obtain ⟨db₃, hread⟩ := hread
  obtain ⟨hdb, hcanonical⟩ := canonicalByHash_ok hread
  rw [hdb]
  exact hcanonical

/-- Inserting under a hash that a live workflow has returns that workflow and writes nothing. -/
theorem findAndInsertWorkflowByHash_live {inst : WorkflowInstance} {contentHash : String}
    {row : WorkflowRow} {q : WorkflowInstance × Db} (hrow : row ∈ db.workflows)
    (hhash : row.contentHash = some contentHash) (hlive : row.Live)
    (hinst : inst.status.toString ∉ terminalStatuses)
    (h : (findAndInsertWorkflowByHash inst contentHash).run db = .ok q) :
    q.2 = db ∧ db.getWorkflow row.workflowId = .ok (some q.1) := by
  have hunique : ∀ (d : Db), row ∈ d.workflows → ∀ row' ∈ d.workflows, row'.Live →
      row'.contentHash = some contentHash → row'.workflowId = row.workflowId := by
    intro d hmem row' hmem' hlive' hhash'
    exact (Tables.nodup_activeHashes_iff d.constraints.workflowKeys).mp d.constraints.activeHashes row'
      hmem' row hmem hlive' hlive contentHash hhash' hhash
  have hsame : q.2 = db := by
    rcases findAndInsertWorkflowByHash_ok h with hsame | ⟨hfresh, htables, -⟩
    · exact hsame
    · -- the insert would break the index on live hashes
      have hworkflows : q.2.workflows = db.workflows ++
          [.ofInstance inst inst.currentPhaseIdx (some contentHash)] := by
        rw [htables]
        rfl
      have hid := hunique q.2 (by rw [hworkflows]; exact List.mem_append_left _ hrow)
        (.ofInstance inst inst.currentPhaseIdx (some contentHash))
        (by rw [hworkflows]; exact List.mem_append_right _ List.mem_cons_self) hinst rfl
      exact absurd (List.mem_map.mpr ⟨row, hrow, hid.symm⟩) hfresh
  obtain ⟨row', hfound, hload⟩ := findAndInsertWorkflowByHash_canonical h
  rw [hsame] at hfound hload
  have hmem := List.mem_of_find?_eq_some hfound
  have hprop := List.find?_some hfound
  simp only [decide_eq_true_eq] at hprop
  rw [hunique db hrow row' hmem hprop.2 hprop.1] at hload
  exact ⟨hsame, hload⟩

end Succeeds

end Hymenium
