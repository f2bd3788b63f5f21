import Hymenium.Store.Ledger
import Hymenium.Store.Sweeper

/-!
# What a sweep does to the ledger

A sweep fails active phases in two rounds: those of the runtimes it found stale, then those of every
offline runtime. `Ledger.Swept` says so on the ledger and `runSweep_represents` connects it to the
registry. The table of runtimes is not seen by the ledger.
-/

namespace Hymenium

/-! ## Failing an orphan -/

/-- An active phase whose runtime is gone is failed. -/
def PhaseState.orphaned (reason : String) (now : DateTime) (p : PhaseState) : PhaseState :=
  if p.status = .active then
    { p with status := .failed, completedAt := some now, failureReason := some reason }
  else p

/-- Fail a phase of an instance, and the workflow unless it is completed, cancelled or terminated by
the user. -/
def WorkflowInstance.failOrphan (inst : WorkflowInstance) (phaseId reason : String)
    (now : DateTime) : WorkflowInstance :=
  let phaseStates := inst.phaseStates.map fun p =>
    if p.phaseId = phaseId then p.orphaned reason now else p
  if inst.status ∈ [.completed, .cancelled, .userTerminated] then { inst with phaseStates }
  else { inst with phaseStates, status := .failed, updatedAt := now }

namespace Ledger

variable (ledger : Ledger)

/-- Fail a phase of the ledger. -/
def failOrphan (now : DateTime) (orphan : String × String) : Ledger :=
  Function.update ledger orphan.1 ((ledger orphan.1).map fun e =>
    { e with inst := e.inst.failOrphan orphan.2 "runtime went offline" now })

/-- The phase is active. -/
def HasActive (orphan : String × String) : Prop :=
  ∃ e, ledger orphan.1 = some e ∧ ∃ p ∈ e.inst.phaseStates, p.phaseId = orphan.2 ∧
    p.status = .active

/-- What one sweep does: it fails phases that are active, in two rounds. -/
inductive Swept (now : DateTime) : Ledger → Prop
  | mk (orphans offline : List (String × String)) (ledger₁ ledger₂ : Ledger)
      (h₁ : ∀ o ∈ orphans, ledger.HasActive o)
      (heq₁ : ledger₁ = orphans.foldl (failOrphan · now) ledger)
      (h₂ : ∀ o ∈ offline, ledger₁.HasActive o)
      (heq₂ : ledger₂ = offline.foldl (failOrphan · now) ledger₁) : Swept now ledger₂

/-- A sweep of a ledger without active phases changes nothing. -/
theorem Swept.eq_self {ledger ledger' : Ledger} {now : DateTime} (h : ledger.Swept now ledger')
    (hnone : ∀ o, ¬ ledger.HasActive o) : ledger' = ledger := by
  obtain ⟨orphans, offline, ledger₁, ledger₂, h₁, heq₁, h₂, heq₂⟩ := h
  have horphans : orphans = [] :=
    List.eq_nil_iff_forall_not_mem.mpr fun o ho => hnone o (h₁ o ho)
  subst horphans
  have hsame : ledger₁ = ledger := heq₁
  subst hsame
  have hoffline : offline = [] :=
    List.eq_nil_iff_forall_not_mem.mpr fun o ho => hnone o (h₂ o ho)
  subst hoffline
  exact heq₂

end Ledger

/-! ## One failed phase -/

namespace Tables

variable {t : Tables} {id phaseId : String} {e : Entry} {ledger : Ledger} {now : DateTime}

theorem PhaseStatus.toString_eq_active_iff (s : PhaseStatus) :
    s.toString = "active" ↔ s = .active := by
  cases s <;> decide

theorem workflow_failPhase {id' reason : String} :
    (t.failPhase id phaseId reason now).workflow id' =
      if id' = id then (t.workflow id').map (fun row =>
        if row.status ∉ ["completed", "cancelled", "user_terminated"] then
          { row with status := "failed", updatedAt := .encoded now }
        else row) else t.workflow id' := by
  refine workflow_update fun row => ?_
  split_ifs <;> rfl

theorem phasesOf_failPhase {id' reason : String} :
    (t.failPhase id phaseId reason now).phasesOf id' =
    Keyed.update PhaseRow.key (id, phaseId) (fun row =>
      if row.status = "active" then
        { row with
          status := "failed", completedAt := some (.encoded now), failureReason := some reason }
      else row) (t.phasesOf id') := by
  refine Keyed.filter_update PhaseRow.key (q := fun k => k.1 = id') (fun row => ?_) _
  split_ifs <;> rfl

/-- The stored phases after a failed orphan: those with its id that were active. -/
theorem Holds.phasesOf_failPhase (h : t.Holds id e) (phaseId reason : String) (now : DateTime) :
    (t.failPhase id phaseId reason now).phasesOf id = PhaseRow.ofStates id
      (e.inst.phaseStates.map fun p => if p.phaseId = phaseId then p.orphaned reason now else p)
      0 := by
  rw [Tables.phasesOf_failPhase, h.phases]
  refine PhaseRow.update_ofStates (fun state k => ?_) e.inst.phaseStates 0
  have hactive : (PhaseRow.ofState id state k).status = "active" ↔ state.status = .active :=
    PhaseStatus.toString_eq_active_iff state.status
  unfold PhaseState.orphaned
  by_cases hs : state.status = .active
  · rw [if_pos hs, if_pos (hactive.mpr hs)]
    rfl
  · rw [if_neg hs, if_neg fun ht => hs (hactive.mp ht)]

theorem Holds.failPhase (h : t.Holds id e) (phaseId reason : String) (now : DateTime) :
    (t.failPhase id phaseId reason now).Holds id
      { e with inst := e.inst.failOrphan phaseId reason now } := by
  obtain ⟨row, hrow, henc⟩ := h.row
  have hterm : e.inst.status.toString ∈ ["completed", "cancelled", "user_terminated"] ↔
      e.inst.status ∈ [WorkflowStatus.completed, .cancelled, .userTerminated] := by
    cases e.inst.status <;> decide
  have hphases := h.phasesOf_failPhase phaseId reason now
  unfold WorkflowInstance.failOrphan
  by_cases hmem : e.inst.status ∈ [WorkflowStatus.completed, .cancelled, .userTerminated]
  · rw [if_pos hmem]
    refine ⟨⟨row, ?_, ?_⟩, hphases, h.outcome, h.transitions⟩
    · rw [workflow_failPhase, if_pos rfl, hrow, Option.map_some,
        if_neg (not_not.mpr (by rw [henc.status]; exact hterm.mpr hmem))]
    · exact henc.setPhases _
  · rw [if_neg hmem]
    refine ⟨⟨{ row with status := "failed", updatedAt := .encoded now }, ?_, ?_⟩, hphases,
      h.outcome, h.transitions⟩
    · rw [workflow_failPhase, if_pos rfl, hrow, Option.map_some,
        if_pos (by rw [henc.status]; exact fun hs => hmem (hterm.mp hs))]
    · exact ⟨henc.workflowId, henc.handoffPath, rfl, henc.blockedOn,
        henc.currentPhaseIdx, henc.createdAt, rfl, henc.templateJson, henc.contentHash⟩

theorem sameViews_failPhase {id' : WorkflowId} (hne : id' ≠ id) (phaseId reason : String)
    (now : DateTime) : SameViews t (t.failPhase id phaseId reason now) id' := by
  refine ⟨by rw [workflow_failPhase, if_neg hne], ?_, rfl⟩
  rw [phasesOf_failPhase]
  refine (List.map_congr_left fun row hrow => if_neg fun hkey => ?_).trans (List.map_id _)
  have hid : row.workflowId = id' := by simpa using (List.mem_filter.mp hrow).2
  exact hne (hid.symm.trans (congrArg Prod.fst hkey))

theorem Represents.failPhase (h : t.Represents ledger) (orphan : String × String)
    (now : DateTime) :
    (t.failPhase orphan.1 orphan.2 "runtime went offline" now).Represents
      (ledger.failOrphan now orphan) := by
  unfold Ledger.failOrphan
  cases he : ledger orphan.1 with
  | some e =>
    exact h.update (fun id' hne => sameViews_failPhase hne _ _ _) ((h.holds he).failPhase ..)
  | none =>
    have habsent := h.absent he
    rw [Option.map_none, ← he, Function.update_eq_self]
    intro id'
    by_cases hid : id' = orphan.1
    · subst hid
      rw [he]
      exact ⟨by rw [workflow_failPhase, if_pos rfl, habsent.1]; rfl, habsent.2⟩
    · have hsame := sameViews_failPhase (t := t) hid orphan.2 "runtime went offline" now
      cases he' : ledger id' with
      | none =>
        have habsent' := h.absent he'
        exact ⟨by rw [hsame.workflow]; exact habsent'.1, habsent'.2⟩
      | some e' => exact hsame.holds (h.holds he')

/-- The phases a sweep lists are active in the ledger. -/
theorem Represents.hasActive (h : t.Represents ledger) (hc : t.Constraints)
    {runtimeIds : List String} {orphan : String × String}
    (horphan : orphan ∈ t.activePhasesForRuntimes runtimeIds) : ledger.HasActive orphan := by
  obtain ⟨row, hrow, rfl⟩ := List.mem_map.mp horphan
  rw [List.mem_filter, decide_eq_true_iff] at hrow
  obtain ⟨hmem, hactive, -⟩ := hrow
  obtain ⟨wrow, hwrow⟩ := Keyed.exists_find (hc.phaseOwners row hmem)
  obtain ⟨e, he, -⟩ := h.entry_of_row hwrow
  have hphase : row ∈ t.phasesOf row.workflowId := List.mem_filter.mpr ⟨hmem, by simp⟩
  rw [(h.holds he).phases] at hphase
  obtain ⟨p, hp, k, heq⟩ := PhaseRow.exists_of_mem_ofStates hphase
  refine ⟨e, he, p, hp, ?_, ?_⟩
  · rw [heq]
    rfl
  · rw [heq] at hactive
    exact (PhaseStatus.toString_eq_active_iff p.status).mp hactive

end Tables

/-! ## One sweep -/

section Sweep

variable {db : Db} {ledger : Ledger} {now : DateTime}

/-- A statement in a transaction of its own leaves the tables alone or writes them. -/
theorem withTransaction_execute (f : Tables → Tables) (db : Db) :
    (∃ e, withTransaction (execute f) db = (.error e, db)) ∨
      ∃ db', withTransaction (execute f) db = (.ok (), db') ∧ db'.toTables = f db.toTables := by
  by_cases hc : (f db.toTables).Constraints
  · refine .inr ⟨⟨f db.toTables, hc⟩, withTransaction_ok ?_, rfl⟩
    exact Txn.execute_ok.mpr ⟨hc, rfl⟩
  · refine .inl ⟨.sqlite, withTransaction_error ?_⟩
    exact dif_neg hc

/-- A write that no view sees. -/
theorem withTransaction_execute_represents (h : db.Represents ledger) {f : Tables → Tables}
    (hf : ∀ id, Tables.SameViews db.toTables (f db.toTables) id) :
    (withTransaction (execute f) db).2.Represents ledger := by
  rcases withTransaction_execute f db with ⟨e, heq⟩ | ⟨db', heq, htables⟩
  · rw [heq]
    exact h
  · rw [heq]
    show db'.toTables.Represents ledger
    rw [htables]
    exact h.congr hf

theorem upsertHeartbeat_represents (h : db.Represents ledger) (runtimeId : String)
    (now : DateTime) : (upsertHeartbeat runtimeId now db).2.Represents ledger :=
  withTransaction_execute_represents h fun _ => ⟨rfl, rfl, rfl⟩

theorem markStale_represents {timeout : ℤ} {entries : List RuntimeEntry}
    {newlyOffline : List String} {report : SweepReport} (h : db.Represents ledger) :
    (markStale now timeout entries (newlyOffline, report, db)).2.2.Represents ledger := by
  induction entries generalizing newlyOffline report db with
  | nil => exact h
  | cons entry rest ih =>
    rw [markStale]
    split_ifs
    · have hdb := withTransaction_execute_represents h
        (f := (·.markOffline entry.runtimeId now)) fun _ => ⟨rfl, rfl, rfl⟩
      rcases withTransaction_execute (·.markOffline entry.runtimeId now) db with
        ⟨e, heq⟩ | ⟨db', heq, -⟩
      · rw [heq]
        exact ih h
      · rw [heq] at hdb ⊢
        exact ih hdb
    · exact ih h

theorem failPhase_represents (h : db.Represents ledger) (now : DateTime)
    (orphan : String × String) :
    (∃ e, failPhase orphan.1 orphan.2 "runtime went offline" now db = (.error e, db)) ∨
      ∃ db', failPhase orphan.1 orphan.2 "runtime went offline" now db = (.ok (), db') ∧
        db'.Represents (ledger.failOrphan now orphan) := by
  rcases withTransaction_execute
    (·.failPhase orphan.1 orphan.2 "runtime went offline" now) db with
    herr | ⟨db', heq, htables⟩
  · exact .inl herr
  · refine .inr ⟨db', heq, ?_⟩
    rw [htables]
    exact h.failPhase orphan now

theorem failOrphans_represents (h : db.Represents ledger) (now : DateTime)
    (orphans : List (String × String)) (report : SweepReport) :
    ∃ failed : List (String × String), failed.Sublist orphans ∧
      (failOrphans now orphans (report, db)).2.Represents
        (failed.foldl (Ledger.failOrphan · now) ledger) := by
  induction orphans generalizing report db ledger with
  | nil => exact ⟨[], .refl _, h⟩
  | cons orphan rest ih =>
    rw [failOrphans]
    rcases failPhase_represents h now orphan with ⟨e, heq⟩ | ⟨db', heq, hdb'⟩
    · rw [heq]
      obtain ⟨failed, hfailed, hrep⟩ := ih h _
      exact ⟨failed, hfailed.cons _, hrep⟩
    · rw [heq]
      obtain ⟨failed, hfailed, hrep⟩ := ih hdb' _
      exact ⟨orphan :: failed, hfailed.cons_cons _, hrep⟩

theorem failOffline_represents (h : db.Represents ledger) (now : DateTime)
    (orphans : List (String × String)) :
    ∃ failed : List (String × String), failed.Sublist orphans ∧
      (failOffline now orphans db).2.Represents
        (failed.foldl (Ledger.failOrphan · now) ledger) := by
  induction orphans generalizing db ledger with
  | nil => exact ⟨[], .refl _, h⟩
  | cons orphan rest ih =>
    rw [failOffline]
    rcases failPhase_represents h now orphan with ⟨e, heq⟩ | ⟨db', heq, hdb'⟩
    · rw [heq]
      exact ⟨[], List.nil_sublist _, h⟩
    · rw [heq]
      obtain ⟨failed, hfailed, hrep⟩ := ih hdb'
      exact ⟨orphan :: failed, hfailed.cons_cons _, hrep⟩

theorem reconcileOfflinePhases_snd : (reconcileOfflinePhases now db).2 =
    (failOffline now (db.activePhasesForRuntimes db.offlineIds) db).2 := by
  unfold reconcileOfflinePhases
  simp only
  split
  · next heq => rw [heq]
  · next heq => rw [heq]

/-- **Refinement of a sweep.** Whatever the registry holds, a sweep does to the ledger what
`Ledger.Swept` allows. -/
theorem runSweep_represents (h : db.Represents ledger) (heartbeatTimeout gcRetention : ℕ)
    (clk : Clock) (rows : RowOrder) : ∃ ledger', ledger.Swept (clk 0) ledger' ∧
      (runSweep heartbeatTimeout gcRetention clk rows db).2.Represents ledger' := by
  unfold runSweep
  simp only
  set st₁ := markStale (clk 0) ((fromStd heartbeatTimeout).getD (seconds 45))
    (db.listAllWithErrors rows fun k => clk (k + 1)).1 ([], _, db)
  have h₁ : st₁.2.2.Represents ledger := markStale_represents h
  set st₂ := failOrphans (clk 0) (st₁.2.2.activePhasesForRuntimes st₁.1) (st₁.2.1, st₁.2.2)
  obtain ⟨orphans, horphans, h₂⟩ := failOrphans_represents h₁ (clk 0)
    (st₁.2.2.activePhasesForRuntimes st₁.1) st₁.2.1
  obtain ⟨offline, hoffline, h₃⟩ := failOffline_represents h₂ (clk 0)
    (st₂.2.activePhasesForRuntimes st₂.2.offlineIds)
  refine ⟨_, ⟨orphans, offline, _, _, fun o ho => ?_, rfl, fun o ho => ?_, rfl⟩, ?_⟩
  · exact h₁.hasActive st₁.2.2.constraints (horphans.subset ho)
  · exact h₂.hasActive st₂.2.constraints (hoffline.subset ho)
  rw [← reconcileOfflinePhases_snd] at h₃
  generalize (reconcileOfflinePhases (clk 0) st₂.2).2 = db₃ at h₃ ⊢
  generalize checkedSub (clk 0) ((fromStd gcRetention).getD (days 49)) = threshold
  cases threshold with
  | none => exact h₃
  | some threshold =>
    have hgc := withTransaction_execute_represents h₃ (f := (·.gcOffline threshold))
      fun _ => ⟨rfl, rfl, rfl⟩
    rcases withTransaction_execute (·.gcOffline threshold) db₃ with ⟨e, heq⟩ | ⟨db', heq, -⟩
    · simp only [heq]
      exact h₃
    · rw [heq] at hgc
      simp only [heq]
      exact hgc

end Sweep

end Hymenium
