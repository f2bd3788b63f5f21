import Hymenium.Foundations.Migration
import Hymenium.Store.Schema

/-!
# Opening the workflow database

`WorkflowStore::migrate` and `ensure_column` (`src/store.rs`): four tables are created unless they
are there, columns that older versions lack are added, and the partial unique index on
`content_hash` is created last.

The schema is seen here from below: a table is a list of columns and rows of as many values, as the
database keeps it, and `WorkflowRow.ofCells` reads a row as `get_workflow` does. Types, keys and
foreign keys bear on later statements (`Db`), not on a migration, and are left out.

Any number of processes may open one database at once, and each may be killed and started again
between any two statements, or between the look of `ensure_column` and its `ALTER TABLE`. The
catalog still goes one way only (`migrate_openings`). From an older database, `migrate` fails
exactly when two live workflows share a content hash, and otherwise completes every table and keeps
every cell (`migrate_older`).
-/

namespace Hymenium

/-! ## Tables -/

/-- The value of a cell. -/
inductive SqlValue where
  | null
  | integer (n : ℤ)
  | text (s : String)
  deriving DecidableEq

/-- A column, with what rows hold in it that are older than the column. -/
structure Column where
  name : String
  notNull : Bool
  default : SqlValue
  deriving DecidableEq

/-- `TEXT`, or `INTEGER` with neither constraint nor default. -/
def Column.nullable (name : String) : Column := ⟨name, false, .null⟩

/-- `TEXT NOT NULL`, or `INTEGER NOT NULL`. -/
def Column.required (name : String) : Column := ⟨name, true, .null⟩

/-- `INTEGER NOT NULL DEFAULT 0`. -/
def Column.counter (name : String) : Column := ⟨name, true, .integer 0⟩

/-- What a row holds, by the names of the columns. -/
abbrev Cells := String → Option SqlValue

namespace Cells

/-- The cells of the row once there is such a column. -/
def withDefault (f : Cells) (column : Column) : Cells := fun name =>
  (f name).or (if name = column.name then some column.default else none)

/-- The cells of the row once there are such columns. -/
def withDefaults (f : Cells) (columns : List Column) : Cells := columns.foldl withDefault f

variable {f : Cells} {column : Column}

theorem withDefault_of_some {name : String} {value : SqlValue} (h : f name = some value) :
    f.withDefault column name = some value := by
  unfold withDefault
  rw [h, Option.some_or]

theorem withDefault_of_ne {name : String} (h : name ≠ column.name) :
    f.withDefault column name = f name := by
  unfold withDefault
  rw [if_neg h, Option.or_none]

/-- A column that is there keeps its cells. -/
theorem withDefault_eq_self (h : (f column.name).isSome) : f.withDefault column = f := by
  funext name
  by_cases hname : name = column.name
  · obtain ⟨value, hvalue⟩ := Option.isSome_iff_exists.mp h
    rw [hname, withDefault_of_some hvalue, hvalue]
  · exact withDefault_of_ne hname

theorem withDefaults_of_some {name : String} {value : SqlValue} (h : f name = some value)
    (columns : List Column) : f.withDefaults columns name = some value := by
  unfold withDefaults
  induction columns generalizing f with
  | nil => exact h
  | cons column columns ih => exact ih (withDefault_of_some h)

/-- The hash under which the partial unique index lists the row. A row without hash is not
compared with others. -/
def activeHash (f : Cells) : Option String :=
  match f "status", f "content_hash" with
  | some (.text status), some (.text hash) => if status ∈ terminalStatuses then none else some hash
  | _, _ => none

/-- A column does not bear on the index when it is not the status, and no hash for rows that had
none. -/
def Silent (column : Column) : Prop :=
  column.name ≠ "status" ∧ (column.name = "content_hash" → column.default = .null)

instance : DecidablePred Silent := fun column =>
  inferInstanceAs (Decidable (column.name ≠ "status" ∧ (_ → _)))

theorem activeHash_withDefault (h : Silent column) :
    (f.withDefault column).activeHash = f.activeHash := by
  unfold activeHash
  rw [withDefault_of_ne h.1.symm]
  by_cases hname : "content_hash" = column.name
  · cases hf : f "content_hash" with
    | some value => rw [withDefault_of_some hf]
    | none =>
      have hnull : f.withDefault column "content_hash" = some .null := by
        unfold withDefault
        rw [hf, if_pos hname, h.2 hname.symm, Option.none_or]
      rw [hnull]
      cases f "status" with
      | none => rfl
      | some value => cases value <;> rfl
  · rw [withDefault_of_ne hname]

theorem activeHash_withDefaults {columns : List Column} (h : ∀ column ∈ columns, Silent column)
    (f : Cells) : (f.withDefaults columns).activeHash = f.activeHash := by
  unfold withDefaults
  induction columns generalizing f with
  | nil => rfl
  | cons column columns ih =>
    obtain ⟨hcolumn, hcolumns⟩ := List.forall_mem_cons.mp h
    exact (ih hcolumns _).trans (activeHash_withDefault hcolumn)

end Cells

/-- A table: its columns, and rows of one value for each. -/
structure Table where
  columns : List Column
  rows : List (List SqlValue)
  nodup : (columns.map (·.name)).Nodup
  width : ∀ row ∈ rows, row.length = columns.length

namespace Table

/-- The names of the columns. -/
def names (t : Table) : List String := t.columns.map (·.name)

/-- What a row holds. -/
def cells (t : Table) (row : List SqlValue) : Cells := fun name => (t.names.zip row).lookup name

/-- What the rows hold. -/
def contents (t : Table) : List Cells := t.rows.map t.cells

/-- The content hashes under the partial unique index. -/
def activeHashes (t : Table) : List String := t.contents.filterMap Cells.activeHash

/-- A new table. -/
def empty (columns : List Column) (h : (columns.map (·.name)).Nodup) : Table where
  columns
  rows := []
  nodup := h
  width := fun _ h => nomatch h

/-- `ALTER TABLE … ADD COLUMN`, where there is no such column. -/
def addColumn (t : Table) (column : Column) (h : column.name ∉ t.names) : Table where
  columns := t.columns ++ [column]
  rows := t.rows.map (· ++ [column.default])
  nodup := by
    rw [List.map_append]
    refine t.nodup.append (List.nodup_singleton _) ?_
    rintro name hname hnew
    rw [List.map_singleton, List.mem_singleton] at hnew
    exact h (hnew ▸ hname)
  width := by
    intro row hrow
    obtain ⟨old, hold, rfl⟩ := List.mem_map.mp hrow
    rw [List.length_append, List.length_append, t.width old hold]
    rfl

variable {t : Table} {column : Column}

@[simp] theorem names_addColumn (h : column.name ∉ t.names) :
    (t.addColumn column h).names = t.names ++ [column.name] := List.map_append

/-- A row has a cell in each column. -/
theorem isSome_cells {row : List SqlValue} (hrow : row ∈ t.rows) {name : String}
    (hname : name ∈ t.names) : (t.cells row name).isSome := by
  have hlength : t.names.length ≤ row.length := by
    rw [t.width row hrow, names, List.length_map]
  have hkey : name ∈ (t.names.zip row).map Prod.fst := by rwa [List.map_fst_zip hlength]
  obtain ⟨⟨key, value⟩, hmem, rfl⟩ := List.mem_map.mp hkey
  rw [cells, List.lookup_isSome_iff]
  exact ⟨(key, value), hmem, beq_self_eq_true _⟩

theorem cells_eq_none (row : List SqlValue) {name : String} (hname : name ∉ t.names) :
    t.cells row name = none := by
  rw [cells, List.lookup_eq_none_iff]
  rintro ⟨key, value⟩ hmem
  have hkey : key ∈ t.names := (List.of_mem_zip hmem).1
  have hne : name ≠ key := by
    rintro rfl
    exact hname hkey
  exact bne_iff_ne.mpr hne

/-- The new column is filled, the others are kept. -/
theorem contents_addColumn (h : column.name ∉ t.names) :
    (t.addColumn column h).contents = t.contents.map (·.withDefault column) := by
  unfold contents
  rw [List.map_map, show (t.addColumn column h).rows = t.rows.map (· ++ [column.default]) from rfl,
    List.map_map]
  refine List.map_congr_left fun row hrow => funext fun name => ?_
  have hlength : t.names.length = row.length := by
    rw [t.width row hrow, names, List.length_map]
  simp only [Function.comp_apply, cells, Cells.withDefault, names_addColumn]
  rw [List.zip_append hlength, List.lookup_append]
  by_cases hname : name = column.name
  · simp [hname]
  · have hbeq : (name == column.name) = false := beq_false_of_ne hname
    simp [hname, List.lookup_cons, hbeq]

/-- A column that is there is not filled again. -/
theorem contents_withDefault (h : column.name ∈ t.names) :
    t.contents.map (·.withDefault column) = t.contents := by
  unfold contents
  rw [List.map_map]
  refine List.map_congr_left fun row hrow => ?_
  exact Cells.withDefault_eq_self (isSome_cells hrow h)

end Table

/-! ## The catalog -/

/-- Why the database refuses a statement of the migration; `migrate` hands it on as
`StoreError::Sqlite`. -/
inductive SchemaError where
  | noSuchTable
  | noSuchColumn
  | duplicateColumn
  /-- `Cannot add a NOT NULL column with default value NULL`. -/
  | notNullWithoutDefault
  /-- Two rows of one key, where an index should be unique. -/
  | notUnique
  deriving DecidableEq

/-- The partial unique index on `content_hash`. -/
def activeIndex : String := "idx_workflows_content_hash_active"

/-- The index may be created over the table. -/
structure Table.Indexable (t : Table) : Prop where
  status : "status" ∈ t.names
  contentHash : "content_hash" ∈ t.names
  unique : t.activeHashes.Nodup

/-- The tables by name, and the names of the indexes. The database keeps a unique index unique. -/
structure Catalog where
  tables : String → Option Table
  indexes : List String
  unique : activeIndex ∈ indexes → ∃ t, tables "workflows" = some t ∧ t.Indexable

namespace Catalog

/-- The names in `pragma_table_info`. There are none for a table that is not there. -/
def tableInfo (c : Catalog) (name : String) : List String := (c.tables name).elim [] (·.names)

/-- The content hashes under the partial unique index. -/
def activeHashes (c : Catalog) : List String := (c.tables "workflows").elim [] (·.activeHashes)

theorem tableInfo_of_some {c : Catalog} {name : String} {t : Table} (h : c.tables name = some t) :
    c.tableInfo name = t.names := by
  rw [tableInfo, h, Option.elim_some]

/-- `CREATE TABLE IF NOT EXISTS`. -/
def createTable (c : Catalog) (name : String) (columns : List Column) :
    Except SchemaError Catalog :=
  match h : c.tables name with
  | some _ => .ok c
  | none =>
    if hnodup : (columns.map (·.name)).Nodup then
      .ok {
        tables := Function.update c.tables name (some (.empty columns hnodup))
        indexes := c.indexes
        unique := by
          intro hindex
          obtain ⟨t, ht, hindexable⟩ := c.unique hindex
          refine ⟨t, ?_, hindexable⟩
          rw [Function.update_of_ne, ht]
          rintro rfl
          rw [h] at ht
          cases ht }
    else .error .duplicateColumn

theorem createTable_of_done {c : Catalog} {name : String} {columns : List Column}
    (h : (c.tables name).isSome) : c.createTable name columns = .ok c := by
  unfold createTable
  split
  · rfl
  · rename_i hnone
    rw [hnone] at h
    cases h

/-- A column that does not bear on the index leaves it unique. -/
theorem indexable_addColumn {t : Table} {column : Column} (h : column.name ∉ t.names)
    (ht : t.Indexable) : (t.addColumn column h).Indexable := by
  have hsilent : Cells.Silent column :=
    ⟨fun heq => h (heq ▸ ht.status), fun heq => absurd ht.contentHash (heq ▸ h)⟩
  refine ⟨?_, ?_, ?_⟩
  · exact t.names_addColumn h ▸ List.mem_append_left _ ht.status
  · exact t.names_addColumn h ▸ List.mem_append_left _ ht.contentHash
  · unfold Table.activeHashes
    rw [Table.contents_addColumn, List.filterMap_map]
    have hsame : Cells.activeHash ∘ (·.withDefault column) = Cells.activeHash :=
      funext fun _ => Cells.activeHash_withDefault hsilent
    rw [hsame]
    exact ht.unique

/-- `ALTER TABLE … ADD COLUMN`. -/
def addColumn (c : Catalog) (name : String) (column : Column) : Except SchemaError Catalog :=
  match h : c.tables name with
  | none => .error .noSuchTable
  | some t =>
    if hcolumn : column.name ∈ t.names then .error .duplicateColumn
    else if column.notNull ∧ column.default = .null ∧ t.rows ≠ [] then .error .notNullWithoutDefault
    else
      .ok {
        tables := Function.update c.tables name (some (t.addColumn column hcolumn))
        indexes := c.indexes
        unique := by
          intro hindex
          obtain ⟨t', ht', hindexable⟩ := c.unique hindex
          by_cases hname : name = "workflows"
          · obtain rfl : t = t' := Option.some.inj (by rw [← h, hname, ht'])
            refine ⟨_, ?_, indexable_addColumn hcolumn hindexable⟩
            rw [← hname, Function.update_self]
          · refine ⟨t', ?_, hindexable⟩
            rw [Function.update_of_ne (Ne.symm hname), ht'] }

theorem addColumn_of_done {c : Catalog} {name : String} {column : Column}
    (h : column.name ∈ c.tableInfo name) : c.addColumn name column = .error .duplicateColumn := by
  unfold addColumn
  split
  · rename_i hnone
    rw [tableInfo, hnone] at h
    cases h
  · rename_i t ht
    exact dif_pos (tableInfo_of_some ht ▸ h)

/-- `CREATE UNIQUE INDEX IF NOT EXISTS`. -/
def createIndex (c : Catalog) : Except SchemaError Catalog :=
  if activeIndex ∈ c.indexes then .ok c
  else
    match h : c.tables "workflows" with
    | none => .error .noSuchTable
    | some t =>
      if hcolumns : "status" ∈ t.names ∧ "content_hash" ∈ t.names then
        if hunique : t.activeHashes.Nodup then
          .ok {
            tables := c.tables
            indexes := c.indexes ++ [activeIndex]
            unique := fun _ => ⟨t, h, hcolumns.1, hcolumns.2, hunique⟩ }
        else .error .notUnique
      else .error .noSuchColumn

end Catalog

/-! ## The statements -/

/-- A statement of the migration. -/
inductive Statement where
  | createTable (name : String) (columns : List Column)
  | ensureColumn (table : String) (column : Column)
  | createIndex

namespace Statement

/-- What the statement is to bring about, and looks for before it does anything. -/
def Done (c : Catalog) : Statement → Prop
  | .createTable name _ => (c.tables name).isSome
  | .ensureColumn table column => column.name ∈ c.tableInfo table
  | .createIndex => activeIndex ∈ c.indexes

instance (c : Catalog) : (statement : Statement) → Decidable (statement.Done c)
  | .createTable name _ => inferInstanceAs (Decidable (c.tables name).isSome)
  | .ensureColumn table column => inferInstanceAs (Decidable (column.name ∈ c.tableInfo table))
  | .createIndex => inferInstanceAs (Decidable (activeIndex ∈ c.indexes))

/-- What the statement does then. -/
def act (c : Catalog) : Statement → Except SchemaError Catalog
  | .createTable name columns => c.createTable name columns
  | .ensureColumn table column => c.addColumn table column
  | .createIndex => c.createIndex

/-- The columns that the statement fills in a table. -/
def fills (name : String) : Statement → List Column
  | .ensureColumn table column => if table = name then [column] else []
  | _ => []

/-- What the statement does to a catalog. -/
structure Effect (statement : Statement) (c c' : Catalog) : Prop where
  done : statement.Done c'
  indexes : c.indexes ⊆ c'.indexes
  tables : ∀ name t, c.tables name = some t → ∃ t', c'.tables name = some t' ∧ t.names ⊆ t'.names ∧
    t'.contents = t.contents.map (·.withDefaults (statement.fills name))
  fresh : ∀ name t', c.tables name = none → c'.tables name = some t' → ∃ columns,
    statement = .createTable name columns ∧ t'.names = columns.map (·.name) ∧ t'.contents = []

variable {c c' : Catalog} {name : String} {statement : Statement}

theorem fills_ensureColumn_self (column : Column) :
    (ensureColumn name column).fills name = [column] := if_pos rfl

theorem fills_ensureColumn_ne {table : String} (h : table ≠ name) (column : Column) :
    (ensureColumn table column).fills name = [] := if_neg h

/-- A statement that finds its work done. -/
theorem effect_of_done (h : statement.Done c) : statement.Effect c c := by
  refine ⟨h, List.Subset.refl _, fun name t ht => ⟨t, ht, List.Subset.refl _, ?_⟩,
    fun name t' hnone ht' => nomatch hnone.symm.trans ht'⟩
  cases statement with
  | createTable _ _ => exact (List.map_id _).symm
  | createIndex => exact (List.map_id _).symm
  | ensureColumn table column =>
    by_cases htable : table = name
    · subst htable
      rw [fills_ensureColumn_self]
      have hcolumn : column.name ∈ t.names := by rwa [← Catalog.tableInfo_of_some ht]
      exact (Table.contents_withDefault hcolumn).symm
    · rw [fills_ensureColumn_ne htable]
      exact (List.map_id _).symm

theorem effect_createTable {columns : List Column} (h : c.createTable name columns = .ok c') :
    (createTable name columns).Effect c c' := by
  unfold Catalog.createTable at h
  split at h
  · rename_i t ht
    cases h
    exact effect_of_done (by simp [Done, ht])
  · rename_i hnone
    split_ifs at h with hnodup
    cases h
    refine ⟨by simp [Done], List.Subset.refl _, fun other t ht => ?_, fun other t' hother ht' => ?_⟩
    · have hne : other ≠ name := by
        rintro rfl
        rw [hnone] at ht
        cases ht
      exact ⟨t, (Function.update_of_ne hne ..).trans ht, List.Subset.refl _, (List.map_id _).symm⟩
    · by_cases hname : other = name
      · subst hname
        simp only [Function.update_self, Option.some.injEq] at ht'
        subst ht'
        exact ⟨columns, rfl, rfl, rfl⟩
      · exact nomatch hother.symm.trans ((Function.update_of_ne hname ..).symm.trans ht')

theorem effect_addColumn {column : Column} (h : c.addColumn name column = .ok c') :
    (ensureColumn name column).Effect c c' := by
  unfold Catalog.addColumn at h
  split at h
  · cases h
  · rename_i t ht
    split_ifs at h with hcolumn hdefault
    cases h
    refine ⟨?_, List.Subset.refl _, fun other t' ht' => ?_, fun other t' hother ht' => ?_⟩
    · simp [Done, Catalog.tableInfo]
    · by_cases hname : other = name
      · subst hname
        obtain rfl : t = t' := Option.some.inj (ht.symm.trans ht')
        refine ⟨t.addColumn column hcolumn, Function.update_self .., ?_, ?_⟩
        · rw [Table.names_addColumn]
          exact List.subset_append_left _ _
        · rw [fills_ensureColumn_self]
          exact Table.contents_addColumn hcolumn
      · rw [fills_ensureColumn_ne (Ne.symm hname)]
        exact ⟨t', (Function.update_of_ne hname ..).trans ht', List.Subset.refl _,
          (List.map_id _).symm⟩
    · have hname : other ≠ name := by
        rintro rfl
        rw [ht] at hother
        cases hother
      exact nomatch hother.symm.trans ((Function.update_of_ne hname ..).symm.trans ht')

theorem effect_createIndex (h : c.createIndex = .ok c') : createIndex.Effect c c' := by
  unfold Catalog.createIndex at h
  split_ifs at h with hindex
  · cases h
    exact effect_of_done hindex
  · split at h
    · cases h
    · split_ifs at h with hcolumns hunique
      cases h
      exact ⟨by simp [Done], List.subset_append_left _ _,
        fun _ t ht => ⟨t, ht, List.Subset.refl _, (List.map_id _).symm⟩,
        fun _ t' hnone ht' => nomatch hnone.symm.trans ht'⟩

/-- What a statement does that goes well. -/
theorem effect_of_act (h : statement.act c = .ok c') : statement.Effect c c' := by
  cases statement with
  | createTable name columns => exact effect_createTable h
  | ensureColumn table column => exact effect_addColumn h
  | createIndex => exact effect_createIndex h

/-- Where the work is done, a second time goes wrong or changes nothing. -/
theorem eq_of_act (hdone : statement.Done c) (h : statement.act c = .ok c') : c' = c := by
  cases statement with
  | createTable name columns => exact (Except.ok.inj ((Catalog.createTable_of_done hdone).symm.trans h)).symm
  | ensureColumn table column =>
    have herror : c.addColumn table column = .ok c' := h
    rw [Catalog.addColumn_of_done hdone] at herror
    cases herror
  | createIndex => exact (Except.ok.inj ((if_pos hdone).symm.trans h)).symm

/-- The statement as a step. -/
def step (statement : Statement) : Migration.Step Catalog SchemaError where
  Done := fun c => statement.Done c
  decidableDone := fun _ => inferInstance
  act := fun c => statement.act c
  done_of_act := fun h => (effect_of_act h).done
  eq_of_act := eq_of_act

theorem effect_of_run (h : statement.step.run c = .ok c') : statement.Effect c c' := by
  unfold Migration.Step.run at h
  split_ifs at h with hdone
  · cases h
    exact effect_of_done hdone
  · exact effect_of_act h

/-- No column is dropped. -/
theorem Effect.tableInfo_subset (h : statement.Effect c c') (name : String) :
    c.tableInfo name ⊆ c'.tableInfo name := by
  cases ht : c.tables name with
  | none =>
    rw [Catalog.tableInfo, ht]
    exact List.nil_subset _
  | some t =>
    obtain ⟨t', ht', hnames, -⟩ := h.tables name t ht
    rwa [Catalog.tableInfo_of_some ht, Catalog.tableInfo_of_some ht']

/-- No table is dropped. -/
theorem Effect.isSome_tables (h : statement.Effect c c') (hname : (c.tables name).isSome) :
    (c'.tables name).isSome := by
  obtain ⟨t, ht⟩ := Option.isSome_iff_exists.mp hname
  obtain ⟨t', ht', -⟩ := h.tables name t ht
  exact Option.isSome_iff_exists.mpr ⟨t', ht'⟩

/-- What is done stays done. -/
theorem Done.mono {other : Statement} (h : statement.Done c) (heffect : other.Effect c c') :
    statement.Done c' := by
  cases statement with
  | createTable name columns => exact heffect.isSome_tables h
  | ensureColumn table column => exact heffect.tableInfo_subset table h
  | createIndex => exact heffect.indexes h

theorem compatible (statements : List Statement) :
    Migration.Compatible (statements.map Statement.step) := by
  intro a ha b hb c c' hdone hrun
  obtain ⟨statement, -, rfl⟩ := List.mem_map.mp ha
  obtain ⟨other, -, rfl⟩ := List.mem_map.mp hb
  exact Done.mono hdone (effect_of_run hrun)

end Statement

/-! ## The migration -/

/-- The tables, as a new database has them. -/
def schema : List (String × List Column) :=
  [("workflows",
      [.nullable "workflow_id", .required "template_id", .required "handoff_path",
        .required "status", .nullable "current_phase", .counter "current_phase_idx",
        .nullable "blocked_on", .required "created_at", .required "updated_at",
        .required "template_json", .nullable "content_hash"]),
    ("phase_states",
      [.required "workflow_id", .required "phase_id", .required "role", .required "status",
        .nullable "agent_id", .nullable "started_at", .nullable "completed_at",
        .nullable "canopy_task_id", .counter "retry_count", .required "phase_order",
        .nullable "failure_reason", .nullable "pending_message", .counter "tool_failure_count",
        .counter "request_count"]),
    ("workflow_transitions",
      [.nullable "id", .required "workflow_id", .nullable "from_phase", .nullable "to_phase",
        .required "transitioned_at", .nullable "reason"]),
    ("workflow_outcomes",
      [.nullable "workflow_id", .required "outcome_json", .required "created_at"])]

/-- The columns that older databases lack. -/
def addedColumns : List (String × Column) :=
  [("workflows", .counter "current_phase_idx"),
    ("phase_states", .nullable "pending_message"),
    ("phase_states", .counter "tool_failure_count"),
    ("phase_states", .counter "request_count"),
    ("workflows", .nullable "content_hash")]

/-- The statements before the last. -/
def tableStatements : List Statement :=
  schema.map (fun (name, columns) => .createTable name columns) ++
    addedColumns.map (fun (table, column) => .ensureColumn table column)

/-- What `migrate` executes, one after another. -/
def statements : List Statement := tableStatements ++ [.createIndex]

/-- Bring a database up to date. The first refusal ends it, and what was done stays done. -/
def migrate (c : Catalog) : Option SchemaError × Catalog :=
  Migration.runAll (statements.map Statement.step) c

/-- Any number of processes open the database, each broken off and started again at any point. -/
def openings (c : Catalog) (events : List Migration.Event) : Migration.World Catalog :=
  events.foldl (Migration.World.apply (statements.map Statement.step)) (.begin c)

/-- **Openings at once.** Whatever processes have been at work on the database and wherever they were
broken off, one that is left alone ends as if it had been the first, with the same answer; and one
that has come through, however others got in between, leaves the database as the first would have. -/
theorem migrate_openings (c : Catalog) (events : List Migration.Event) :
    migrate (openings c events).state = migrate c ∧
      ∀ i, ((openings c events).migrators i).passed = statements.length →
        migrate c = (none, (openings c events).state) := by
  have hreached := Migration.World.reached_begin.run (s := c) (Statement.compatible statements) events
  refine ⟨hreached.runAll_eq (Statement.compatible statements), fun i hi => ?_⟩
  refine hreached.runAll_of_passed (i := i) ?_
  rwa [List.length_map]

/-! ## From an older database -/

namespace Catalog

/-- The tables that are there have all columns but those that older databases lack. -/
def Older (c : Catalog) : Prop :=
  ∀ entry ∈ schema, ∀ t ∈ c.tables entry.1, ∀ column ∈ entry.2,
    column.name ∈ t.names ∨ (entry.1, column) ∈ addedColumns

instance (c : Catalog) : Decidable c.Older :=
  inferInstanceAs (Decidable (∀ entry ∈ schema, ∀ t ∈ c.tables entry.1, ∀ column ∈ entry.2, _ ∨ _))

/-- The tables have all columns. -/
def Complete (c : Catalog) : Prop :=
  ∀ entry ∈ schema, ∀ column ∈ entry.2, column.name ∈ c.tableInfo entry.1

variable {c c' : Catalog}

theorem createTable_ok (name : String) {columns : List Column}
    (h : (columns.map (·.name)).Nodup) : ∃ c', c.createTable name columns = .ok c' := by
  unfold createTable
  split
  · exact ⟨c, rfl⟩
  · exact ⟨_, dif_pos h⟩

/-- `ensure_column` goes well where the table is there and old rows may have a value. -/
theorem ensureColumn_ok {name : String} {column : Column} (htable : (c.tables name).isSome)
    (hcolumn : ¬(column.notNull ∧ column.default = .null)) :
    ∃ c', (Statement.ensureColumn name column).step.run c = .ok c' := by
  by_cases hdone : column.name ∈ c.tableInfo name
  · exact ⟨c, Migration.Step.run_of_done hdone⟩
  · obtain ⟨t, ht⟩ := Option.isSome_iff_exists.mp htable
    have hname : column.name ∉ t.names := by rwa [← tableInfo_of_some ht]
    have hact : ∃ c', c.addColumn name column = .ok c' := by
      unfold addColumn
      split
      · rename_i hnone
        exact nomatch hnone.symm.trans ht
      · rename_i t' ht'
        obtain rfl : t = t' := Option.some.inj (ht.symm.trans ht')
        rw [dif_neg hname, if_neg fun h => hcolumn ⟨h.1, h.2.1⟩]
        exact ⟨_, rfl⟩
    obtain ⟨c', hc'⟩ := hact
    exact ⟨c', Migration.Step.run_of_act hc'⟩

/-- The index can be created exactly when the live rows have different hashes. -/
theorem run_createIndex (h : c.Complete) :
    (c.activeHashes.Nodup → ∃ c', Statement.createIndex.step.run c = .ok c') ∧
      (¬c.activeHashes.Nodup → Statement.createIndex.step.run c = .error .notUnique) := by
  have hstatus : "status" ∈ c.tableInfo "workflows" :=
    h _ List.mem_cons_self (.required "status") (by decide)
  have hhash : "content_hash" ∈ c.tableInfo "workflows" :=
    h _ List.mem_cons_self (.nullable "content_hash") (by decide)
  cases ht : c.tables "workflows" with
  | none =>
    rw [tableInfo, ht] at hstatus
    cases hstatus
  | some t =>
    rw [tableInfo_of_some ht] at hstatus hhash
    have hactive : c.activeHashes = t.activeHashes := by
      rw [activeHashes, ht, Option.elim_some]
    rw [hactive]
    by_cases hindex : activeIndex ∈ c.indexes
    · obtain ⟨t', ht', hindexable⟩ := c.unique hindex
      obtain rfl : t = t' := Option.some.inj (ht.symm.trans ht')
      exact ⟨fun _ => ⟨c, Migration.Step.run_of_done hindex⟩,
        fun hnot => absurd hindexable.unique hnot⟩
    · have hrun : Statement.createIndex.step.run c = c.createIndex := if_neg hindex
      rw [hrun]
      unfold createIndex
      rw [if_neg hindex]
      split
      · rename_i hnone
        exact nomatch hnone.symm.trans ht
      · rename_i t' ht'
        obtain rfl : t = t' := Option.some.inj (ht.symm.trans ht')
        rw [dif_pos ⟨hstatus, hhash⟩]
        exact ⟨fun hunique => ⟨_, dif_pos hunique⟩, fun hnot => dif_neg hnot⟩

/-- Tables can always be created that are there or not. -/
theorem createTables_ok {tables : List (String × List Column)}
    (h : ∀ entry ∈ tables, (entry.2.map (·.name)).Nodup) (c : Catalog) :
    ∃ c', Migration.runAll
      ((tables.map fun (name, columns) => Statement.createTable name columns).map Statement.step) c =
        (none, c') := by
  induction tables generalizing c with
  | nil => exact ⟨c, rfl⟩
  | cons entry tables ih =>
    obtain ⟨hentry, htables⟩ := List.forall_mem_cons.mp h
    obtain ⟨c₁, hc₁⟩ := createTable_ok (c := c) entry.1 hentry
    obtain ⟨c', hc'⟩ := ih htables c₁
    refine ⟨c', ?_⟩
    rw [← hc']
    exact Migration.runAll_cons_ok
      ((Statement.createTable entry.1 entry.2).step.run_of_act hc₁)

/-- Columns can be added that leave old rows a value. -/
theorem ensureColumns_ok {columns : List (String × Column)}
    (h : ∀ entry ∈ columns, (c.tables entry.1).isSome ∧
      ¬(entry.2.notNull ∧ entry.2.default = .null)) :
    ∃ c', Migration.runAll
      ((columns.map fun (table, column) => Statement.ensureColumn table column).map Statement.step) c =
        (none, c') := by
  induction columns generalizing c with
  | nil => exact ⟨c, rfl⟩
  | cons entry columns ih =>
    obtain ⟨⟨htable, hcolumn⟩, hcolumns⟩ := List.forall_mem_cons.mp h
    obtain ⟨c₁, hc₁⟩ := ensureColumn_ok htable hcolumn
    have heffect := Statement.effect_of_run hc₁
    have hkept : ∀ entry ∈ columns, (c₁.tables entry.1).isSome ∧
        ¬(entry.2.notNull ∧ entry.2.default = .null) := fun entry hentry =>
      ⟨heffect.isSome_tables (hcolumns entry hentry).1, (hcolumns entry hentry).2⟩
    obtain ⟨c', hc'⟩ := ih hkept
    refine ⟨c', ?_⟩
    rw [← hc']
    exact Migration.runAll_cons_ok hc₁

/-- A statement of the migration leaves an older database an older one. -/
theorem Older.run (h : c.Older) {statement : Statement} (hmem : statement ∈ statements)
    (hrun : statement.step.run c = .ok c') : c'.Older := by
  intro entry hentry t' ht' column hcolumn
  have heffect := Statement.effect_of_run hrun
  cases ht : c.tables entry.1 with
  | some t =>
    obtain ⟨t₁, ht₁, hnames, -⟩ := heffect.tables entry.1 t ht
    obtain rfl : t₁ = t' := Option.some.inj (ht₁.symm.trans ht')
    exact (h entry hentry t ht column hcolumn).imp_left (hnames ·)
  | none =>
    -- the table is new, and has the columns of the schema
    obtain ⟨columns, rfl, hnames, -⟩ := heffect.fresh entry.1 t' ht ht'
    have hsame : columns = entry.2 := by
      have hnodup : (schema.map Prod.fst).Nodup := by decide
      have hschema : (entry.1, columns) ∈ schema := by
        simpa [statements, tableStatements] using hmem
      exact congrArg Prod.snd (List.inj_on_of_nodup_map hnodup hschema hentry rfl)
    rw [hnames, hsame]
    exact .inl (List.mem_map_of_mem hcolumn)

theorem silent_of_mem :
    ∀ statement ∈ statements, ∀ column ∈ statement.fills "workflows", Cells.Silent column := by
  decide

/-- No statement of the migration bears on the hashes of the live workflows. -/
theorem activeHashes_run {statement : Statement} (hmem : statement ∈ statements)
    (hrun : statement.step.run c = .ok c') : c'.activeHashes = c.activeHashes := by
  have heffect := Statement.effect_of_run hrun
  cases ht : c.tables "workflows" with
  | some t =>
    obtain ⟨t', ht', -, hcontents⟩ := heffect.tables "workflows" t ht
    have hsilent := silent_of_mem statement hmem
    simp only [activeHashes, ht, ht', Option.elim_some, Table.activeHashes, hcontents,
      List.filterMap_map]
    congr 1
    exact funext fun f => Cells.activeHash_withDefaults hsilent f
  | none =>
    cases ht' : c'.tables "workflows" with
    | none => simp only [activeHashes, ht, ht']
    | some t' =>
      obtain ⟨columns, -, -, hcontents⟩ := heffect.fresh "workflows" t' ht ht'
      simp only [activeHashes, ht, ht', Option.elim_some, Option.elim_none, Table.activeHashes,
        hcontents, List.filterMap_nil]

/-- The cells after statements that went well. -/
theorem contents_runAll {executed : List Statement}
    (h : Migration.runAll (executed.map Statement.step) c = (none, c')) {name : String} {t : Table}
    (ht : c.tables name = some t) : ∃ t', c'.tables name = some t' ∧
      t'.contents = t.contents.map (·.withDefaults (executed.flatMap (Statement.fills name))) := by
  induction executed generalizing c t with
  | nil =>
    cases h
    exact ⟨t, ht, (List.map_id _).symm⟩
  | cons statement executed ih =>
    rw [List.map_cons] at h
    cases hrun : statement.step.run c with
    | error e =>
      rw [Migration.runAll_cons_error hrun] at h
      cases h
    | ok c₁ =>
      rw [Migration.runAll_cons_ok hrun] at h
      obtain ⟨t₁, ht₁, -, hcontents₁⟩ := (Statement.effect_of_run hrun).tables name t ht
      obtain ⟨t', ht', hcontents⟩ := ih h ht₁
      refine ⟨t', ht', ?_⟩
      rw [hcontents, hcontents₁, List.map_map]
      refine List.map_congr_left fun f _ => ?_
      rw [List.flatMap_cons]
      exact List.foldl_append.symm

/-- The columns that a migration adds to a table. -/
def addedTo (name : String) : List Column :=
  addedColumns.filterMap fun (table, column) => if table = name then some column else none

theorem flatMap_fills (name : String) :
    tableStatements.flatMap (Statement.fills name) = addedTo name := by
  have hcolumns : ∀ columns : List (String × Column),
      (columns.map fun (table, column) => Statement.ensureColumn table column).flatMap
        (Statement.fills name) =
        columns.filterMap fun (table, column) => if table = name then some column else none := by
    intro columns
    induction columns with
    | nil => rfl
    | cons entry columns ih =>
      obtain ⟨table, column⟩ := entry
      rw [List.map_cons, List.flatMap_cons, List.filterMap_cons, ih]
      by_cases htable : table = name
      · simp only [Statement.fills, if_pos htable, List.singleton_append]
      · simp only [Statement.fills, if_neg htable, List.nil_append]
  have htables : (schema.map fun (name, columns) => Statement.createTable name columns).flatMap
      (Statement.fills name) = [] := by
    rw [List.flatMap_eq_nil_iff]
    intro statement hstatement
    obtain ⟨entry, -, rfl⟩ := List.mem_map.mp hstatement
    rfl
  unfold tableStatements
  rw [List.flatMap_append, htables, List.nil_append]
  exact hcolumns addedColumns

/-- The tables of an older database are completed. -/
theorem Older.prepare (h : c.Older) : ∃ c', Migration.runAll (tableStatements.map Statement.step) c =
    (none, c') ∧ c'.Complete ∧ c'.activeHashes = c.activeHashes := by
  have hnodup : ∀ entry ∈ schema, (entry.2.map (·.name)).Nodup := by decide
  obtain ⟨c₁, hc₁⟩ := createTables_ok hnodup c
  have htables := Migration.done_of_runAll (Statement.compatible _) hc₁
  have hcreated : ∀ entry ∈ addedColumns, (c₁.tables entry.1).isSome ∧
      ¬(entry.2.notNull ∧ entry.2.default = .null) := by
    have hadded : ∀ entry ∈ addedColumns, entry.1 ∈ schema.map Prod.fst ∧
        ¬(entry.2.notNull ∧ entry.2.default = .null) := by decide
    intro entry hentry
    obtain ⟨hname, hcolumn⟩ := hadded entry hentry
    obtain ⟨table, htable, hname⟩ := List.mem_map.mp hname
    refine ⟨?_, hcolumn⟩
    rw [← hname]
    exact htables _ (List.mem_map_of_mem (List.mem_map_of_mem htable))
  obtain ⟨c', hc'⟩ := ensureColumns_ok hcreated
  have hrun : Migration.runAll (tableStatements.map Statement.step) c = (none, c') := by
    unfold tableStatements
    rw [List.map_append, Migration.runAll_append hc₁, hc']
  have hdone := Migration.done_of_runAll (Statement.compatible _) hrun
  have hkept : (Migration.runAll (tableStatements.map Statement.step) c).2.Older ∧
      (Migration.runAll (tableStatements.map Statement.step) c).2.activeHashes = c.activeHashes := by
    refine Migration.runAll_invariant (P := fun c' : Catalog => c'.Older ∧ c'.activeHashes = c.activeHashes) ?_ ⟨h, rfl⟩
    intro step hstep a b hinv hab
    obtain ⟨statement, hstatement, rfl⟩ := List.mem_map.mp hstep
    have hmem : statement ∈ statements := List.mem_append_left _ hstatement
    exact ⟨hinv.1.run hmem hab, (activeHashes_run hmem hab).trans hinv.2⟩
  rw [hrun] at hkept
  refine ⟨c', hrun, fun entry hentry column hcolumn => ?_, hkept.2⟩
  have hcreate : .createTable entry.1 entry.2 ∈ tableStatements :=
    List.mem_append_left _ (List.mem_map_of_mem hentry)
  have hsome : (Statement.createTable entry.1 entry.2).Done c' := hdone _ (List.mem_map_of_mem hcreate)
  obtain ⟨t, ht⟩ := Option.isSome_iff_exists.mp hsome
  rcases hkept.1 entry hentry t ht column hcolumn with hname | hadded
  · rwa [tableInfo_of_some ht]
  · have hensure : .ensureColumn entry.1 column ∈ tableStatements :=
      List.mem_append_right _ (List.mem_map_of_mem hadded)
    have hcolumn : (Statement.ensureColumn entry.1 column).Done c' :=
      hdone _ (List.mem_map_of_mem hensure)
    exact hcolumn

/-- The tables of `c'` are those of `c` with their rows, whose new cells hold the defaults. -/
def Filled (c c' : Catalog) : Prop :=
  ∀ name t, c.tables name = some t → ∃ t', c'.tables name = some t' ∧
    t'.contents = t.contents.map (·.withDefaults (addedTo name))

/-- The completed tables, and what comes of the index. -/
theorem Older.migrate_cases (h : c.Older) : ∃ c₁, c₁.Complete ∧ c.Filled c₁ ∧
    (c.activeHashes.Nodup ∧ (∃ c', migrate c = (none, c') ∧ Statement.createIndex.Effect c₁ c') ∨
      ¬ c.activeHashes.Nodup ∧ migrate c = (some .notUnique, c₁)) := by
  obtain ⟨c₁, hrun, hcomplete, hhashes⟩ := h.prepare
  have hlast : migrate c = Migration.runAll [Statement.createIndex.step] c₁ := by
    unfold migrate statements
    rw [List.map_append, Migration.runAll_append hrun]
    rfl
  have hfilled : c.Filled c₁ := by
    intro name t ht
    rw [← flatMap_fills]
    exact contents_runAll hrun ht
  obtain ⟨hunique, hnot⟩ := run_createIndex hcomplete
  refine ⟨c₁, hcomplete, hfilled, ?_⟩
  rw [hlast, ← hhashes]
  by_cases hnodup : c₁.activeHashes.Nodup
  · obtain ⟨c', hc'⟩ := hunique hnodup
    exact .inl ⟨hnodup, c', Migration.runAll_cons_ok hc', Statement.effect_of_run hc'⟩
  · exact .inr ⟨hnodup, Migration.runAll_cons_error (hnot hnodup)⟩

theorem Older.answer (h : c.Older) :
    (migrate c).1 = if c.activeHashes.Nodup then none else some .notUnique := by
  obtain ⟨c₁, -, -, ⟨hnodup, c', hmigrate, -⟩ | ⟨hnodup, hmigrate⟩⟩ := h.migrate_cases
  · rw [hmigrate, if_pos hnodup]
  · rw [hmigrate, if_neg hnodup]

theorem Older.complete (h : c.Older) : (migrate c).2.Complete := by
  obtain ⟨c₁, hcomplete, -, ⟨-, c', hmigrate, heffect⟩ | ⟨-, hmigrate⟩⟩ := h.migrate_cases
  · rw [hmigrate]
    exact fun entry hentry column hcolumn =>
      heffect.tableInfo_subset _ (hcomplete entry hentry column hcolumn)
  · rwa [hmigrate]

theorem Older.filled (h : c.Older) : c.Filled (migrate c).2 := by
  obtain ⟨c₁, -, hfilled, ⟨-, c', hmigrate, heffect⟩ | ⟨-, hmigrate⟩⟩ := h.migrate_cases
  · rw [hmigrate]
    intro name t ht
    obtain ⟨t₁, ht₁, hcontents₁⟩ := hfilled name t ht
    obtain ⟨t', ht', -, hsame⟩ := heffect.tables name t₁ ht₁
    refine ⟨t', ht', ?_⟩
    rw [← hcontents₁]
    exact hsame.trans (List.map_id _)
  · rwa [hmigrate]

end Catalog

/-- **Migration of an older database.** It fails exactly when two live workflows have one content
hash, at the index. In either case every table is complete, and its rows are the old ones, in their
order and with all their cells, filled with the defaults of the new columns. -/
theorem migrate_older {c : Catalog} (h : c.Older) :
    (migrate c).1 = (if c.activeHashes.Nodup then none else some .notUnique) ∧
      (migrate c).2.Complete ∧ c.Filled (migrate c).2 :=
  ⟨h.answer, h.complete, h.filled⟩

/-- A table of workflows before phases had an index and handoffs a hash, in the middle of its
second phase. -/
def olderWorkflows : Table where
  columns := [.nullable "workflow_id", .required "template_id", .required "handoff_path",
    .required "status", .nullable "current_phase", .nullable "blocked_on", .required "created_at",
    .required "updated_at", .required "template_json"]
  rows := [[.text "wf-1", .text "impl-audit", .text "handoff.md", .text "dispatched", .text "audit",
    .null, .text "t0", .text "t1", .text "{}"]]
  nodup := by decide
  width := by decide

/-- A database with this table only. -/
def olderCatalog : Catalog where
  tables := fun name => if name = "workflows" then some olderWorkflows else none
  indexes := []
  unique := fun h => nomatch h

theorem older_olderCatalog : olderCatalog.Older := by decide

theorem migrate_older_olderCatalog :
    (migrate olderCatalog).1 = none ∧ (migrate olderCatalog).2.Complete := by
  obtain ⟨hanswer, hcomplete, -⟩ := migrate_older older_olderCatalog
  exact ⟨hanswer.trans (if_pos (by decide)), hcomplete⟩

/-! ## Reading the rows -/

namespace Cells

/-- A text that must be there. -/
def text (f : Cells) (name : String) : Option String :=
  match f name with
  | some (.text s) => some s
  | _ => none

/-- A text or `NULL`. -/
def text? (f : Cells) (name : String) : Option (Option String) :=
  match f name with
  | some (.text s) => some (some s)
  | some .null => some none
  | _ => none

theorem text_eq_some {f : Cells} {name s : String} :
    f.text name = some s ↔ f name = some (.text s) := by
  unfold text
  split <;> simp_all

theorem text?_eq_some {f : Cells} {name : String} {s : Option String} :
    f.text? name = some s ↔ f name = some (s.elim .null .text) := by
  unfold text?
  cases s <;> split <;> simp_all

/-- A number that must be there. -/
def integer (f : Cells) (name : String) : Option ℤ :=
  match f name with
  | some (.integer n) => some n
  | _ => none

end Cells

section Reading

variable (datetime : String → Stored DateTime) (template : String → Stored WorkflowTemplate)

/-- Read a row of `workflows`, given what the decoders make of the texts. -/
def WorkflowRow.ofCells (f : Cells) : Option WorkflowRow := do
  let workflowId ← f.text "workflow_id"
  let templateId ← f.text "template_id"
  let handoffPath ← f.text "handoff_path"
  let status ← f.text "status"
  let currentPhase ← f.text? "current_phase"
  let currentPhaseIdx ← f.integer "current_phase_idx"
  let blockedOn ← f.text? "blocked_on"
  let createdAt ← f.text "created_at"
  let updatedAt ← f.text "updated_at"
  let templateJson ← f.text "template_json"
  let contentHash ← f.text? "content_hash"
  return {
    workflowId, templateId, handoffPath, status, currentPhase, currentPhaseIdx, blockedOn
    createdAt := datetime createdAt
    updatedAt := datetime updatedAt
    templateJson := template templateJson
    contentHash }

variable {datetime template} {f : Cells} {row : WorkflowRow}

/-- What is read where. -/
theorem WorkflowRow.ofCells_columns (h : ofCells datetime template f = some row) :
    f.text "status" = some row.status ∧ f.integer "current_phase_idx" = some row.currentPhaseIdx ∧
      f.text? "content_hash" = some row.contentHash := by
  unfold ofCells at h
  simp only [Option.bind_eq_bind, Option.bind_eq_some_iff, Option.pure_def, Option.some.injEq] at h
  obtain ⟨_, -, _, -, _, -, _, hstatus, _, -, _, hidx, _, -, _, -, _, -, _, -, _, hhash, rfl⟩ := h
  exact ⟨hstatus, hidx, hhash⟩

/-- The index of the database lists the row as the constraint of the tables does. -/
theorem WorkflowRow.activeHash_of_ofCells (h : ofCells datetime template f = some row) :
    f.activeHash = if row.Live then row.contentHash else none := by
  obtain ⟨hstatus, -, hhash⟩ := ofCells_columns h
  rw [Cells.text_eq_some] at hstatus
  rw [Cells.text?_eq_some] at hhash
  unfold Cells.activeHash Live
  rw [hstatus, hhash]
  cases row.contentHash with
  | none => exact (ite_self _).symm
  | some hash => by_cases hterminal : row.status ∈ terminalStatuses <;> simp [hterminal]

/-- The rows of a table are read as rows of `workflows`. -/
def Table.Reads (datetime : String → Stored DateTime)
    (template : String → Stored WorkflowTemplate) (t : Table) (rows : List WorkflowRow) : Prop :=
  t.contents.map (WorkflowRow.ofCells datetime template) = rows.map some

variable {t : Table} {rows : List WorkflowRow}

theorem Table.Reads.exists_row (h : t.Reads datetime template rows) (hf : f ∈ t.contents) :
    ∃ row, WorkflowRow.ofCells datetime template f = some row := by
  have hmem : WorkflowRow.ofCells datetime template f ∈ rows.map some :=
    h ▸ List.mem_map_of_mem hf
  obtain ⟨row, -, hrow⟩ := List.mem_map.mp hmem
  exact ⟨row, hrow.symm⟩

theorem Table.Reads.exists_cells (h : t.Reads datetime template rows) (hrow : row ∈ rows) :
    ∃ f ∈ t.contents, WorkflowRow.ofCells datetime template f = some row :=
  List.mem_map.mp (h.symm ▸ List.mem_map_of_mem hrow)

/-- The index of the database and the constraint of the tables are one. -/
theorem Table.Reads.activeHashes {tables : Tables} (h : t.Reads datetime template tables.workflows) :
    tables.activeHashes = t.activeHashes := by
  let hash (row : WorkflowRow) : Option String := if row.Live then row.contentHash else none
  have hcells : ∀ f ∈ t.contents,
      (WorkflowRow.ofCells datetime template f).bind hash = f.activeHash := by
    intro f hf
    obtain ⟨row, hrow⟩ := h.exists_row hf
    rw [hrow, Option.bind_some, WorkflowRow.activeHash_of_ofCells hrow]
  calc tables.activeHashes
      = tables.workflows.filterMap hash := by
        unfold Tables.activeHashes
        rw [List.filterMap_filter]
        simp only [decide_eq_true_eq, hash]
    _ = (tables.workflows.map some).filterMap (·.bind hash) := by
        rw [List.filterMap_map]
        rfl
    _ = t.contents.filterMap fun f => (WorkflowRow.ofCells datetime template f).bind hash := by
        rw [← h, List.filterMap_map]
        rfl
    _ = t.activeHashes := List.filterMap_congr hcells

/-- **Rows read after a migration.** The live ones have different hashes, as the tables demand; and
where the database had no `current_phase_idx`, each workflow is read at its first phase, whatever its
`current_phase` says. -/
theorem migrate_reads {c : Catalog} (h : c.Older) (hok : (migrate c).1 = none) {t' : Table}
    (ht : c.tables "workflows" = some t) (ht' : (migrate c).2.tables "workflows" = some t')
    {tables : Tables} (hread : t'.Reads datetime template tables.workflows) :
    tables.activeHashes.Nodup ∧
      ("current_phase_idx" ∉ t.names → ∀ row ∈ tables.workflows, row.currentPhaseIdx = 0) := by
  have hanswer := h.answer
  obtain ⟨t₁, ht₁, hcontents⟩ := h.filled "workflows" t ht
  obtain rfl : t₁ = t' := Option.some.inj (ht₁.symm.trans ht')
  refine ⟨?_, fun hidx row hrow => ?_⟩
  · have hsilent : ∀ column ∈ Catalog.addedTo "workflows", Cells.Silent column := by decide
    have hsame : t₁.activeHashes = t.activeHashes := by
      unfold Table.activeHashes
      rw [hcontents, List.filterMap_map]
      exact congrArg (t.contents.filterMap ·) (funext (Cells.activeHash_withDefaults hsilent))
    have hactive : c.activeHashes = t.activeHashes := by
      rw [Catalog.activeHashes, ht, Option.elim_some]
    rw [hread.activeHashes, hsame, ← hactive]
    by_contra hnodup
    rw [hok, if_neg hnodup] at hanswer
    cases hanswer
  · obtain ⟨f, hf, hrow⟩ := hread.exists_cells hrow
    rw [hcontents] at hf
    obtain ⟨old, hold, rfl⟩ := List.mem_map.mp hf
    obtain ⟨cells, -, rfl⟩ := List.mem_map.mp hold
    obtain ⟨-, hread, -⟩ := WorkflowRow.ofCells_columns hrow
    have hzero : (t.cells cells).withDefault (.counter "current_phase_idx") "current_phase_idx" =
        some (.integer 0) := by
      unfold Cells.withDefault
      rw [t.cells_eq_none cells hidx]
      rfl
    have hfilled : (t.cells cells).withDefaults (Catalog.addedTo "workflows") "current_phase_idx" =
        some (.integer 0) := Cells.withDefaults_of_some hzero [.nullable "content_hash"]
    unfold Cells.integer at hread
    rw [hfilled] at hread
    exact (Option.some.inj hread).symm

end Reading

/-- What is left of the sample when nothing can be decoded. -/
def olderRow : WorkflowRow where
  workflowId := "wf-1"
  templateId := "impl-audit"
  handoffPath := "handoff.md"
  status := "dispatched"
  currentPhase := some "audit"
  currentPhaseIdx := 0
  blockedOn := none
  createdAt := .garbled "t0" ""
  updatedAt := .garbled "t1" ""
  templateJson := .garbled "{}" ""
  contentHash := none

/-- The sample is migrated, its only row is read, and the workflow is at its first phase, although it
was in its second. -/
theorem migrate_reads_olderRow : ∃ (t' : Table) (tables : Tables),
    (migrate olderCatalog).1 = none ∧ (migrate olderCatalog).2.tables "workflows" = some t' ∧
      t'.Reads (.garbled · "") (.garbled · "") tables.workflows ∧
      tables.workflows.map (·.currentPhase) = [some "audit"] ∧ tables.activeHashes.Nodup ∧
      ∀ row ∈ tables.workflows, row.currentPhaseIdx = 0 := by
  have hok : (migrate olderCatalog).1 = none :=
    older_olderCatalog.answer.trans (if_pos (by decide))
  obtain ⟨t', ht', hcontents⟩ := older_olderCatalog.filled "workflows" olderWorkflows rfl
  let tables : Tables := ⟨[olderRow], [], [], [], []⟩
  have hread : t'.Reads (.garbled · "") (.garbled · "") tables.workflows := by
    unfold Table.Reads
    rw [hcontents]
    rfl
  obtain ⟨hnodup, hzero⟩ := migrate_reads older_olderCatalog hok rfl ht' hread
  exact ⟨t', tables, hok, ht', hread, rfl, hnodup, hzero (by decide)⟩

end Hymenium
