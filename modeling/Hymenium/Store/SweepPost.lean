import Hymenium.Store.SweepRaces

/-!
# What one sweep establishes

A sweep without errors and without other connections (`sweep_establishes`): afterwards no phase is
left to a runtime that was offline when the phases of runtimes were looked up, the heartbeats of the
runtimes that are still online are recent, and the runtimes that went offline too long ago are
gone. A second sweep at the same time finds nothing to do. All this holds exactly when the
subtraction of the retention does not panic (`sweep_establishes_iff`).
-/

namespace Hymenium

/-- What `mark_offline` writes to a runtime row. -/
def RuntimeRow.setOffline (now : DateTime) (row : RuntimeRow) : RuntimeRow :=
  if row.status = "offline" then row
  else { row with status := "offline", wentOfflineAt := some now }

/-- The runtime has been offline for longer than `span`. -/
def RuntimeRow.LongGone (now : DateTime) (span : ℤ) (row : RuntimeRow) : Prop :=
  row.status = "offline" ∧ ∃ at' ∈ row.wentOfflineAt, span < now - at'

instance (now : DateTime) (span : ℤ) : DecidablePred (RuntimeRow.LongGone now span) :=
  fun row => inferInstanceAs (Decidable (row.status = "offline" ∧ _))

namespace SweepConfig

variable (config : SweepConfig)

/-- What a sweep relies on. The times are readings of the clock, now or in an earlier sweep: their
years have four digits, and listing the runtimes takes less than a day. -/
structure Relies (db : Db) : Prop where
  timeout : config.heartbeatTimeout < days 364
  retention : fromStd config.gcRetention ≠ none
  clock : Timestamp.InRange config.now
  prompt : ∀ k ≤ 2 * db.runtimes.length, config.clk k ≤ config.now + days 1
  wentOffline : ∀ row ∈ db.runtimes, ∀ at' ∈ row.wentOfflineAt, Timestamp.InRange at'

/-- The runtimes that a listing of these rows finds stale. -/
def staleIds (db : Db) : List String :=
  ((db.listAllWithErrors config.rows fun k => config.clk (k + 1)).1.filter
    (config.Stale ·)).map (·.runtimeId)

/-- What a sweep establishes, from the database before it, the one after phase 1, with the runtimes
that phase 1 marked, and the one at the end. -/
structure Establishes (newlyOffline : List String) (marked final : Db) : Prop where
  orphans : ∀ phase ∈ final.phaseStates, phase.status = "active" →
    ∀ agent ∈ phase.agentId, agent ∉ marked.offlineIds
  recent : ∀ row ∈ final.runtimes, row.status = "online" →
    ∃ heartbeat, row.lastHeartbeat = .encoded heartbeat ∧
      config.now - heartbeat ≤ config.heartbeatTimeout
  deleted : final.runtimes =
    marked.runtimes.filter (¬ RuntimeRow.LongGone config.now config.gcRetention ·)
  kept : ∀ id ∈ newlyOffline, id ∈ final.runtimes.map (·.runtimeId)

end SweepConfig

/-! ## The listing -/

section Listing

variable {config : SweepConfig} {db : Db}

theorem timeout_eq (h : config.heartbeatTimeout < days 364) :
    config.timeout = config.heartbeatTimeout := by
  unfold SweepConfig.timeout fromStd
  rw [if_pos]
  · rfl
  · unfold days seconds at h
    omega

theorem mem_staleIds {id : String} : id ∈ config.staleIds db ↔
    ∃ (i : ℕ) (row : RuntimeRow), (config.rows.order db.runtimes)[i]? = some row ∧
      id = row.runtimeId ∧ config.Stale (row.toEntry fun k => config.clk (2 * i + k + 1)).1 := by
  unfold SweepConfig.staleIds
  simp only [List.mem_map, List.mem_filter, Tables.mem_listAllWithErrors, decide_eq_true_eq]
  constructor
  · rintro ⟨_, ⟨⟨i, row, hrow, rfl⟩, hstale⟩, rfl⟩
    exact ⟨i, row, hrow, rfl, hstale⟩
  · rintro ⟨i, row, hrow, rfl, hstale⟩
    exact ⟨_, ⟨⟨i, row, hrow, rfl⟩, hstale⟩, rfl⟩

/-- A row that is marked is online: it is the row of the entry. -/
theorem status_of_mem_staleIds {row : RuntimeRow} (hrow : row ∈ db.runtimes)
    (h : row.runtimeId ∈ config.staleIds db) : row.status = "online" := by
  obtain ⟨i, listed, hlisted, hid, hstale⟩ := mem_staleIds.mp h
  obtain rfl : row = listed := List.inj_on_of_nodup_map db.constraints.runtimeKeys hrow
    (RowOrder.of_getElem? hlisted).1 hid
  by_contra hne
  have hoffline : RuntimeStatus.ofText row.status = .offline := if_neg hne
  have honline := hstale.1
  rw [show (row.toEntry _).1.status = _ from hoffline] at honline
  cases honline

/-- A row that is online and is not marked has a recent heartbeat. One that does not parse counts as
a year old. -/
theorem recent_of_not_mem_staleIds (h : config.Relies db) {row : RuntimeRow}
    (hrow : row ∈ db.runtimes) (honline : row.status = "online")
    (hfresh : row.runtimeId ∉ config.staleIds db) : ∃ heartbeat,
      row.lastHeartbeat = .encoded heartbeat ∧
      config.now - heartbeat ≤ config.heartbeatTimeout := by
  obtain ⟨i, hlisted⟩ := config.rows.exists_getElem? hrow
  have hi := (RowOrder.of_getElem? hlisted).2
  have hnot : ¬ config.Stale (row.toEntry fun k => config.clk (2 * i + k + 1)).1 :=
    fun hstale => hfresh (mem_staleIds.mpr ⟨i, row, hlisted, rfl, hstale⟩)
  have hstatus : (row.toEntry fun k => config.clk (2 * i + k + 1)).1.status = .online :=
    if_pos honline
  have hage := not_lt.mp fun hlt => hnot ⟨hstatus, hlt⟩
  rw [timeout_eq h.timeout] at hage
  cases hhb : row.lastHeartbeat with
  | encoded heartbeat =>
    simp only [RuntimeRow.toEntry, hhb, readTimestamp] at hage
    exact ⟨heartbeat, rfl, hage⟩
  | garbled text reason =>
    simp only [RuntimeRow.toEntry, hhb, readTimestamp] at hage
    have hprompt := Int.sub_left_le_of_le_add (h.prompt (2 * i + 0 + 1) (by omega))
    have htimeout := h.timeout
    unfold days seconds at hage hprompt htimeout
    omega

/-- Recent heartbeats are not stale, whatever the clock reads. -/
theorem staleIds_eq_nil (htimeout : config.heartbeatTimeout < days 364)
    (h : ∀ row ∈ db.runtimes, row.status = "online" → ∃ heartbeat,
      row.lastHeartbeat = .encoded heartbeat ∧ config.now - heartbeat ≤ config.heartbeatTimeout) :
    config.staleIds db = [] := by
  refine List.eq_nil_iff_forall_not_mem.mpr fun id hid => ?_
  obtain ⟨i, row, hlisted, rfl, hstale⟩ := mem_staleIds.mp hid
  have hrow := (RowOrder.of_getElem? hlisted).1
  obtain ⟨heartbeat, henc, hage⟩ := h _ hrow (status_of_mem_staleIds hrow hid)
  have hold := hstale.2
  simp only [RuntimeRow.toEntry, henc, readTimestamp, timeout_eq htimeout] at hold
  exact absurd hold (not_lt.mpr hage)

end Listing

/-! ## The phases of a sweep -/

namespace RuntimeRow

variable {now : DateTime}

theorem runtimeId_setOffline (row : RuntimeRow) :
    (row.setOffline now).runtimeId = row.runtimeId := by
  unfold setOffline
  split_ifs <;> rfl

theorem setOffline_setOffline (row : RuntimeRow) :
    (row.setOffline now).setOffline now = row.setOffline now := by
  unfold setOffline
  split_ifs <;> simp_all

theorem status_setOffline (row : RuntimeRow) : (row.setOffline now).status = "offline" := by
  unfold setOffline
  split_ifs with h
  · exact h
  · rfl

theorem wentOffline_setOffline (hclock : Timestamp.InRange now) {row : RuntimeRow}
    (hwent : ∀ at' ∈ row.wentOfflineAt, Timestamp.InRange at') :
    ∀ at' ∈ (row.setOffline now).wentOfflineAt, Timestamp.InRange at' := by
  unfold setOffline
  split_ifs
  · exact hwent
  · rintro _ ⟨⟩
    exact hclock

/-- A runtime that is marked is not gone for any time yet. -/
theorem not_longGone_setOffline {row : RuntimeRow} (honline : row.status = "online") {span : ℕ} :
    ¬ (row.setOffline now).LongGone now span := by
  rintro ⟨-, at', hat, hlt⟩
  unfold setOffline at hat
  rw [if_neg (by rw [honline]; decide)] at hat
  obtain rfl := Option.some.inj hat
  omega

end RuntimeRow

namespace Tables

variable {t : Tables} {now : DateTime}

/-- Mark runtimes one after the other. -/
def markAll (t : Tables) (now : DateTime) (ids : List String) : Tables :=
  ids.foldl (fun t id => t.markOffline id now) t

theorem markAll_eq (t : Tables) (ids : List String) : t.markAll now ids =
    { t with runtimes := t.runtimes.map fun row =>
        if row.runtimeId ∈ ids then row.setOffline now else row } := by
  have hfold : t.markAll now ids = { t with
      runtimes := ids.foldl (fun rows id => Keyed.update (·.runtimeId) id (·.setOffline now) rows)
        t.runtimes } := by
    unfold markAll
    induction ids generalizing t with
    | nil => rfl
    | cons id ids ih =>
      rw [List.foldl_cons, ih]
      rfl
  rw [hfold, Keyed.foldl_update RuntimeRow.runtimeId_setOffline RuntimeRow.setOffline_setOffline]

/-- A deletion breaks no constraint. -/
theorem Constraints.gcOffline (hc : t.Constraints) (threshold : DateTime) :
    (t.gcOffline threshold).Constraints :=
  ⟨hc.workflowKeys, hc.phaseKeys, hc.outcomeKeys,
    hc.runtimeKeys.sublist (List.filter_sublist.map _), hc.activeHashes, hc.phaseOwners,
    hc.transitionOwners⟩

/-- After the active phases of runtimes were failed, none is left. -/
theorem not_active_of_failPhases {reason : String} {ids : List String}
    {orphans : List (String × String)} (h : ∀ o, o ∈ orphans ↔ o ∈ t.activePhasesForRuntimes ids)
    {phase : PhaseRow} (hphase : phase ∈ (t.failPhases reason now orphans).phaseStates)
    (hactive : phase.status = "active") {agent : String} (hagent : agent ∈ phase.agentId) :
    agent ∉ ids := by
  intro hid
  rw [failPhases_eq] at hphase
  obtain ⟨row, hrow, rfl⟩ := List.mem_map.mp hphase
  split_ifs at hactive hagent with horphan
  · -- a row that was failed is not active, whatever it was
    unfold PhaseRow.failActive at hactive
    split_ifs at hactive with hstatus
    · exact absurd hactive (show ¬ "failed" = "active" by decide)
    · exact hstatus hactive
  · refine horphan ((h _).mpr (mem_activePhasesForRuntimes.mpr ?_))
    exact ⟨row, hrow, rfl, hactive, agent, hagent, hid⟩

end Tables

section Phases

variable {config : SweepConfig} {db : Db}

variable (config) in
/-- Phase 1 marks the runtimes of the stale entries. -/
theorem reaches_marked (entries : List RuntimeEntry) (newlyOffline : List String) (db : Db) :
    ∃ marked, Reaches config ⟨.marking entries newlyOffline, db⟩
        ⟨.orphanQuery (newlyOffline ++ (entries.filter (config.Stale ·)).map (·.runtimeId)) [],
          marked⟩ ∧
      marked.toTables =
        db.markAll config.now ((entries.filter (config.Stale ·)).map (·.runtimeId)) := by
  induction entries generalizing newlyOffline db with
  | nil =>
    refine ⟨db, Reaches.head ?_, rfl⟩
    rw [List.filter_nil, List.map_nil, List.append_nil]
    exact .refl _
  | cons entry rest ih =>
    by_cases hstale : config.Stale entry
    · obtain ⟨marked, hreach, htables⟩ :=
        ih (newlyOffline ++ [entry.runtimeId]) (markedOffline config entry.runtimeId db)
      rw [List.filter_cons_of_pos (by simpa using hstale), List.map_cons]
      refine ⟨marked, Reaches.head ?_, htables⟩
      rw [List.append_cons newlyOffline, statement_stale hstale]
      exact hreach
    · obtain ⟨marked, hreach, htables⟩ := ih newlyOffline db
      rw [List.filter_cons_of_neg (by simpa using hstale)]
      refine ⟨marked, Reaches.head ?_, htables⟩
      rw [statement_fresh hstale]
      exact hreach

variable (config db) in
theorem reaches_staleIds : ∃ marked,
    Reaches config (.start db) ⟨.orphanQuery (config.staleIds db) [], marked⟩ ∧
      marked.toTables = db.markAll config.now (config.staleIds db) := by
  obtain ⟨marked, hreach, htables⟩ := reaches_marked config
    (db.listAllWithErrors config.rows fun k => config.clk (k + 1)).1 [] db
  exact ⟨marked, Reaches.head hreach, htables⟩

variable (config) in
/-- Phases 2 and 3 fail the active phases of the runtimes that phase 1 marked, then those of all
that are offline. -/
theorem reaches_gc (newlyOffline : List String) (marked : Db) :
    ∃ orphans offline db, Reaches config ⟨.orphanQuery newlyOffline [], marked⟩ ⟨.gc, db⟩ ∧
      db.toTables = (marked.failPhases "runtime went offline" config.now orphans).failPhases
        "runtime went offline" config.now offline ∧
      (∀ o, o ∈ orphans ↔ o ∈ marked.activePhasesForRuntimes newlyOffline) ∧
      ∀ o, o ∈ offline ↔ o ∈ (marked.failPhases "runtime went offline" config.now
        orphans).activePhasesForRuntimes marked.offlineIds := by
  obtain ⟨orphans, horphans, hmem⟩ := reaches_query config .orphanQuery
    .failing (fun _ _ => rfl) (fun _ _ _ _ => rfl) newlyOffline [] marked
  obtain ⟨db₁, hfail, htables₁⟩ := reaches_failing config orphans marked
  have hask : Reaches config ⟨.offlineQuery, db₁⟩ ⟨.reconcileQuery db₁.offlineIds [], db₁⟩ :=
    Reaches.head (.refl _)
  obtain ⟨offline, hoffline, hmem'⟩ := reaches_query config .reconcileQuery
    .reconciling (fun _ _ => rfl) (fun _ _ _ _ => rfl) db₁.offlineIds [] db₁
  obtain ⟨db₂, hreconcile, htables₂⟩ := reaches_reconciling config offline db₁
  have hids : db₁.offlineIds = marked.offlineIds := by
    rw [htables₁, Tables.failPhases_eq]
    rfl
  refine ⟨orphans, offline, db₂,
    horphans.trans (hfail.trans (hask.trans (hoffline.trans hreconcile))), ?_, ?_, ?_⟩
  · rw [htables₂, htables₁]
  · intro o
    rw [hmem]
    exact or_iff_right List.not_mem_nil
  · intro o
    rw [hmem', hids, htables₁]
    exact or_iff_right List.not_mem_nil

/-- Where the threshold is a time, the texts are compared like times. -/
theorem expired_iff_longGone {threshold : ℤ} {row : RuntimeRow}
    (hclock : Timestamp.InRange config.now)
    (hwent : ∀ at' ∈ row.wentOfflineAt, Timestamp.InRange at')
    (hthreshold : threshold = config.now - config.gcRetention) :
    Tables.Expired threshold row ↔ row.LongGone config.now config.gcRetention := by
  have hlast : threshold + Timestamp.epoch <
      Calendar.daysBeforeYear 10000 * Timestamp.nanosPerDay := by
    have := hclock.2
    omega
  unfold Tables.Expired RuntimeRow.LongGone
  refine and_congr_right fun _ => exists_congr fun at' => and_congr_right fun hat => ?_
  rw [Timestamp.rfc3339_lt_iff (hwent at' hat) hlast]
  constructor <;> intro <;> omega

/-- Phase 4 deletes the runtimes that are long gone. -/
theorem reaches_finished (hretention : fromStd config.gcRetention ≠ none)
    (hfits : checkedSub config.now config.gcRetention ≠ none)
    (hclock : Timestamp.InRange config.now)
    (hwent : ∀ row ∈ db.runtimes, ∀ at' ∈ row.wentOfflineAt, Timestamp.InRange at') :
    ∃ final, Reaches config ⟨.gc, db⟩ ⟨.finished, final⟩ ∧ final.toTables =
      { db.toTables with runtimes :=
          db.runtimes.filter (¬ RuntimeRow.LongGone config.now config.gcRetention ·) } := by
  have hspan := fromStd_of_ne_none hretention
  obtain ⟨threshold, hsub⟩ := Option.ne_none_iff_exists'.mp hfits
  have hthreshold := checkedSub_eq_some hsub
  refine ⟨⟨_, db.constraints.gcOffline threshold⟩, Reaches.head ?_, ?_⟩
  · unfold SweepState.statement
    have hok := withTransaction_execute_ok (f := (·.gcOffline threshold))
      (db.constraints.gcOffline threshold)
    simp only [hspan, Option.getD_some, hsub, hok]
    exact .refl _
  · show db.gcOffline threshold = _
    unfold Tables.gcOffline
    congr 1
    refine List.filter_congr fun row hrow => ?_
    simp only [expired_iff_longGone hclock (hwent row hrow) hthreshold]

/-- Where the threshold is no time, phase 4 panics. -/
theorem reaches_panicked (hretention : fromStd config.gcRetention ≠ none)
    (hpanic : checkedSub config.now config.gcRetention = none) (db : Db) :
    Reaches config ⟨.gc, db⟩ ⟨.panicked, db⟩ := by
  have hspan := fromStd_of_ne_none hretention
  refine Reaches.head ?_
  unfold SweepState.statement
  simp only [hspan, Option.getD_some, hpanic]
  exact .refl _

/-- A sweep that has nothing to mark, nothing to fail and nothing to delete. -/
theorem reaches_again (htimeout : config.heartbeatTimeout < days 364)
    (hretention : fromStd config.gcRetention ≠ none)
    (hfits : checkedSub config.now config.gcRetention ≠ none) (hclock : Timestamp.InRange config.now)
    (hwent : ∀ row ∈ db.runtimes, ∀ at' ∈ row.wentOfflineAt, Timestamp.InRange at')
    (hrecent : ∀ row ∈ db.runtimes, row.status = "online" → ∃ heartbeat,
      row.lastHeartbeat = .encoded heartbeat ∧ config.now - heartbeat ≤ config.heartbeatTimeout)
    (howned : ∀ phase ∈ db.phaseStates, phase.status = "active" →
      ∀ agent ∈ phase.agentId, agent ∉ db.offlineIds)
    (hkept : ∀ row ∈ db.runtimes, ¬ row.LongGone config.now config.gcRetention) :
    Reaches config (.start db) ⟨.finished, db⟩ := by
  obtain ⟨marked, hmarked, htables⟩ := reaches_staleIds config db
  rw [staleIds_eq_nil htimeout hrecent] at hmarked htables
  obtain rfl : marked = db := Db.ext_tables htables
  obtain ⟨orphans, offline, db₂, hgc, htables₂, horphans, hoffline⟩ := reaches_gc config [] marked
  obtain rfl : orphans = [] := by
    refine List.eq_nil_iff_forall_not_mem.mpr fun o ho => ?_
    obtain ⟨_, _, _, _, _, _, hnil⟩ := mem_activePhasesForRuntimes.mp ((horphans o).mp ho)
    exact List.not_mem_nil hnil
  obtain rfl : offline = [] := by
    refine List.eq_nil_iff_forall_not_mem.mpr fun o ho => ?_
    obtain ⟨phase, hphase, -, hactive, agent, hagent, hid⟩ :=
      mem_activePhasesForRuntimes.mp ((hoffline o).mp ho)
    exact howned phase hphase hactive agent hagent hid
  obtain rfl : db₂ = marked := Db.ext_tables htables₂
  obtain ⟨final, hfinished, hfinal⟩ := reaches_finished hretention hfits hclock hwent
  rw [List.filter_eq_self.mpr fun row hrow => decide_eq_true (hkept row hrow)] at hfinal
  obtain rfl : final = db₂ := Db.ext_tables hfinal
  exact hmarked.trans (hgc.trans hfinished)

/-! ## The rows after phase 1 -/

/-- The rows after phase 1 are those that were marked and those that were not. -/
theorem mem_marked {marked : Db}
    (htables : marked.toTables = db.markAll config.now (config.staleIds db)) {row : RuntimeRow} :
    row ∈ marked.runtimes ↔ ∃ old ∈ db.runtimes, row =
      if old.runtimeId ∈ config.staleIds db then old.setOffline config.now else old := by
  rw [htables, Tables.markAll_eq]
  simp only [List.mem_map, eq_comm]

theorem wentOffline_marked (h : config.Relies db) {marked : Db}
    (htables : marked.toTables = db.markAll config.now (config.staleIds db)) :
    ∀ row ∈ marked.runtimes, ∀ at' ∈ row.wentOfflineAt, Timestamp.InRange at' := by
  intro row hrow
  obtain ⟨old, hold, rfl⟩ := (mem_marked htables).mp hrow
  split_ifs
  · exact RuntimeRow.wentOffline_setOffline h.clock (h.wentOffline old hold)
  · exact h.wentOffline old hold

/-- What is still online has a recent heartbeat. -/
theorem recent_marked (h : config.Relies db) {marked : Db}
    (htables : marked.toTables = db.markAll config.now (config.staleIds db)) {row : RuntimeRow}
    (hrow : row ∈ marked.runtimes) (honline : row.status = "online") : ∃ heartbeat,
      row.lastHeartbeat = .encoded heartbeat ∧
      config.now - heartbeat ≤ config.heartbeatTimeout := by
  obtain ⟨old, hold, rfl⟩ := (mem_marked htables).mp hrow
  split_ifs at honline ⊢ with hstale
  · exact absurd honline (by rw [RuntimeRow.status_setOffline]; decide)
  · exact recent_of_not_mem_staleIds h hold honline hstale

/-- What was marked just now is not long gone. -/
theorem kept_marked {marked : Db}
    (htables : marked.toTables = db.markAll config.now (config.staleIds db)) {id : String}
    (hid : id ∈ config.staleIds db) : ∃ row ∈ marked.runtimes, row.runtimeId = id ∧
      ¬ row.LongGone config.now config.gcRetention := by
  obtain ⟨i, row, hlisted, rfl, -⟩ := mem_staleIds.mp hid
  have hrow := (RowOrder.of_getElem? hlisted).1
  have honline := status_of_mem_staleIds hrow hid
  refine ⟨row.setOffline config.now, ?_, RuntimeRow.runtimeId_setOffline _,
    RuntimeRow.not_longGone_setOffline honline⟩
  exact (mem_marked htables).mpr ⟨_, hrow, (if_pos hid).symm⟩

/-- What the four phases leave, put together. -/
theorem establishes_of_phases (h : config.Relies db) {marked final : Db} {t : Tables}
    {offline : List (String × String)}
    (htables : marked.toTables = db.markAll config.now (config.staleIds db))
    (hoffline : ∀ o, o ∈ offline ↔ o ∈ t.activePhasesForRuntimes marked.offlineIds)
    (hphases : final.phaseStates =
      (t.failPhases "runtime went offline" config.now offline).phaseStates)
    (hdeleted : final.runtimes =
      marked.runtimes.filter (¬ RuntimeRow.LongGone config.now config.gcRetention ·)) :
    config.Establishes (config.staleIds db) marked final where
  orphans := by
    intro phase hphase hactive agent hagent
    rw [hphases] at hphase
    exact Tables.not_active_of_failPhases hoffline hphase hactive hagent
  recent := by
    intro row hrow honline
    rw [hdeleted] at hrow
    exact recent_marked h htables (List.mem_filter.mp hrow).1 honline
  deleted := hdeleted
  kept := by
    intro id hid
    obtain ⟨row, hrow, hrid, hkept⟩ := kept_marked htables hid
    rw [hdeleted]
    exact List.mem_map.mpr ⟨row, List.mem_filter.mpr ⟨hrow, decide_eq_true hkept⟩, hrid⟩

/-- Without errors and other connections, the sweep fails every active phase of the runtimes that
are offline, keeps online only runtimes with a recent heartbeat, and deletes exactly the runtimes
that are long gone, none of which it has just marked. A second sweep at the same time changes
nothing. -/
def SweepConfig.SweepEstablishes (config : SweepConfig) (db : Db) : Prop :=
  ∃ newlyOffline marked final,
    Reaches config (.start db) ⟨.orphanQuery newlyOffline [], marked⟩ ∧
    Reaches config ⟨.orphanQuery newlyOffline [], marked⟩ ⟨.finished, final⟩ ∧
    config.Establishes newlyOffline marked final ∧
    ∀ config' : SweepConfig, config'.now = config.now →
      config'.heartbeatTimeout = config.heartbeatTimeout →
      config'.gcRetention = config.gcRetention →
      Reaches config' (.start final) ⟨.finished, final⟩

theorem sweep_establishes (h : config.Relies db)
    (hfits : checkedSub config.now config.gcRetention ≠ none) : config.SweepEstablishes db := by
  obtain ⟨marked, hmarked, htables⟩ := reaches_staleIds config db
  obtain ⟨orphans, offline, db₂, hgc, htables₂, -, hoffline⟩ :=
    reaches_gc config (config.staleIds db) marked
  have hruntimes : db₂.runtimes = marked.runtimes := by
    rw [htables₂, Tables.failPhases_eq, Tables.failPhases_eq]
  have hwent := wentOffline_marked h htables
  obtain ⟨final, hfinished, hfinal⟩ :=
    reaches_finished h.retention hfits h.clock (hruntimes.symm ▸ hwent)
  have hdeleted : final.runtimes =
      marked.runtimes.filter (¬ RuntimeRow.LongGone config.now config.gcRetention ·) := by
    rw [hfinal, hruntimes]
  have hestablishes : config.Establishes (config.staleIds db) marked final :=
    establishes_of_phases h htables hoffline (by rw [hfinal, htables₂]) hdeleted
  refine ⟨config.staleIds db, marked, final, hmarked, hgc.trans hfinished, hestablishes, ?_⟩
  intro config' hnow htimeout hretention
  have hsub : final.runtimes ⊆ marked.runtimes := by
    rw [hdeleted]
    exact fun row hrow => (List.mem_filter.mp hrow).1
  refine reaches_again (htimeout ▸ h.timeout) (hretention ▸ h.retention)
    (by rw [hnow, hretention]; exact hfits) (hnow ▸ h.clock)
    (fun row hrow => hwent row (hsub hrow)) ?_ ?_ ?_
  · rw [hnow, htimeout]
    exact hestablishes.recent
  · intro phase hphase hactive agent hagent hid
    refine hestablishes.orphans phase hphase hactive agent hagent ?_
    exact List.map_subset _ (List.filter_subset _ hsub) hid
  · intro row hrow
    rw [hdeleted] at hrow
    rw [hnow, hretention]
    exact of_decide_eq_true (List.mem_filter.mp hrow).2

/-! ## Sweeps that panic -/

/-- A sweep has one course: of two states it gets to, one comes before the other. -/
theorem Reaches.total {s a b : SweepState} (ha : Reaches config s a) (hb : Reaches config s b) :
    Reaches config a b ∨ Reaches config b a := by
  have hsplit : ∀ m n : ℕ, Reaches config (runSweepSteps config s (List.replicate m .statement))
      (runSweepSteps config s (List.replicate (m + n) .statement)) := by
    intro m n
    refine ⟨n, ?_⟩
    rw [List.replicate_add]
    exact (Runs.run_append ..).symm
  obtain ⟨m, rfl⟩ := ha
  obtain ⟨n, rfl⟩ := hb
  rcases Nat.le_total m n with hle | hle
  · obtain ⟨k, rfl⟩ := Nat.exists_eq_add_of_le hle
    exact .inl (hsplit m k)
  · obtain ⟨k, rfl⟩ := Nat.exists_eq_add_of_le hle
    exact .inr (hsplit n k)

/-- A sweep that is over gets nowhere. -/
theorem Reaches.eq_of_over {s s' : SweepState} (h : Reaches config s s')
    (hover : s.statement config = s) : s' = s := by
  obtain ⟨n, rfl⟩ := h
  induction n with
  | zero => rfl
  | succ n ih =>
    rw [List.replicate_succ]
    show runSweepSteps config (s.statement config) _ = s
    rw [hover]
    exact ih

/-- A sweep that panics does not end in another way. -/
theorem not_finished_of_panicked {s : SweepState} {db' : Db}
    (h : Reaches config s ⟨.panicked, db⟩) : ¬ Reaches config s ⟨.finished, db'⟩ := by
  intro hfinished
  rcases h.total hfinished with hnext | hnext
  · cases hnext.eq_of_over rfl
  · cases hnext.eq_of_over rfl

/-- Where the threshold is no time, the sweep establishes nothing: it panics in phase 4. -/
theorem not_sweepEstablishes (hretention : fromStd config.gcRetention ≠ none)
    (hpanic : checkedSub config.now config.gcRetention = none) (db : Db) :
    ¬ config.SweepEstablishes db := by
  rintro ⟨newlyOffline, marked, final, -, hfinished, -⟩
  obtain ⟨-, -, db₂, hgc, -⟩ := reaches_gc config newlyOffline marked
  exact not_finished_of_panicked (hgc.trans (reaches_panicked hretention hpanic db₂)) hfinished

/-- **One sweep.** A sweep establishes what it is to exactly when the retention leads from now to a
time. -/
theorem sweep_establishes_iff (config : SweepConfig) (db : Db) (h : config.Relies db) :
    config.SweepEstablishes db ↔ checkedSub config.now config.gcRetention ≠ none :=
  ⟨fun hestablishes hpanic => not_sweepEstablishes h.retention hpanic db hestablishes,
    sweep_establishes h⟩

end Phases

/-- The store of one stale runtime, with three more: one heard of lately, one whose heartbeat does
not parse and one that is offline for eight days. -/
def sampleRegistry : Db :=
  ⟨{ sampleStore.toTables with runtimes := sampleStore.runtimes ++
      [⟨"recent", "online", .encoded (seconds 90), .encoded 0, none⟩,
        ⟨"garbled", "online", .garbled "soon" "input contains invalid characters", .encoded 0,
          none⟩,
        ⟨"gone", "offline", .encoded 0, .encoded 0, some (days (-8))⟩] }, by decide +kernel⟩

theorem sweep_establishes_sample :
    sampleSweep.staleIds sampleRegistry = ["rt", "garbled"] ∧
      sampleSweep.SweepEstablishes sampleRegistry := by
  have hrelies : sampleSweep.Relies sampleRegistry :=
    ⟨by decide, by decide, by decide, by decide +kernel, by decide +kernel⟩
  exact ⟨by decide +kernel,
    (sweep_establishes_iff sampleSweep sampleRegistry hrelies).mpr (by decide)⟩

/-- A retention of 10¹³ seconds is a span, but leads to no time. -/
theorem sweep_panics_long : let config := { sampleSweep with gcRetention := 10 ^ 22 }
    config.Relies sampleRegistry ∧ ¬ config.SweepEstablishes sampleRegistry :=
  ⟨⟨by decide, by decide, by decide, by decide +kernel, by decide +kernel⟩,
    not_sweepEstablishes (by decide) (by decide) _⟩

end Hymenium
