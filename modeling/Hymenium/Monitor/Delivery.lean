import Hymenium.Monitor.Recovery

/-!
# What a delivered signal touches

A signal names a phase, `handleSignal` acts on the current one: a signal that acts stays with its
own phase exactly when the two are the same (`ownPhaseOnly_iff`).

Memory and store tell the same about the current phase (`CurrentAgrees`). A call keeps that exactly
when it acts on nothing, or counts a retry that the store takes (`currentAgrees_iff`).
-/

namespace Hymenium

open WorkflowInstance

/-- The phase a signal is about. -/
def ProgressSignal.phaseId : ProgressSignal → Option String
  | .healthy phaseId _ | .stalled phaseId _ _ | .phaseComplete phaseId | .failed phaseId _ =>
    some phaseId
  | .gateSatisfied _ => none

/-- The call does something to the phase when it is the current one. -/
def SignalCall.ActsOn (call : SignalCall) (p : PhaseState) : Prop :=
  p.status = .active ∧ (call.signal.IsComplete ∨ call.Retries p.retryCount)

/-! ## Signals and their phases -/

/-- The event changes status and retry count of no phase but the one its signal names. -/
def OwnPhaseOnly (s : MonitorState) : MonitorEvent → Prop
  | .signal call => ∀ (i : ℕ) (q : PhaseState), s.inst.phaseStates[i]? = some q →
      call.signal.phaseId ≠ some q.phaseId →
      ∃ q', (handleSignal call s.inst s.db).2.1.phaseStates[i]? = some q' ∧
        q'.status = q.status ∧ q'.retryCount = q.retryCount
  | .engine _ | .store _ => True

/-- A signal that acts finds its phase current. -/
def OnTime (s : MonitorState) : MonitorEvent → Prop
  | .signal call => ∀ p, s.inst.currentPhase = some p → call.ActsOn p →
      call.signal.phaseId = some p.phaseId
  | .engine _ | .store _ => True

section Touched

variable {call : SignalCall} {s : MonitorState}

theorem not_retries (h : call.signal.IsComplete) (retryCount : UInt32) :
    ¬ call.Retries retryCount := fun hs => not_isComplete hs.1 h

theorem charged_ne {p : PhaseState} (h : call.Retries p.retryCount) :
    p.charged.retryCount ≠ p.retryCount := by
  intro heq
  have hcount := (charged_retryCount h).1
  rw [heq] at hcount
  omega

/-- A call that acts on the current phase changes its status or its retry count. -/
theorem changes_of_actsOn {inst : WorkflowInstance} {p q : PhaseState} {db : Db}
    (hp : inst.currentPhase = some p) (hacts : call.ActsOn p)
    (hq : (handleSignal call inst db).2.1.phaseStates[inst.currentPhaseIdx]? = some q) :
    q.status ≠ p.status ∨ q.retryCount ≠ p.retryCount := by
  have h := handleSignal_handled call inst db
  revert h hq
  generalize handleSignal call inst db = out
  intro hq h
  obtain ⟨hactive, hsignal⟩ := hacts
  cases h with
  | kept _ _ hidle =>
    obtain ⟨hcomplete, hretries⟩ := hidle p hp hactive
    exact absurd hsignal (not_or.mpr ⟨hcomplete, hretries⟩)
  | escalated p' _ hp' hs hmax =>
    obtain rfl := Option.some.inj (hp.symm.trans hp')
    rcases hsignal with hcomplete | hretries
    · exact absurd hcomplete (not_isComplete hs)
    · exact absurd hmax (UInt32.not_le.mpr hretries.2)
  | completed p' t t' hp' =>
    rw [getElem?_withCurrent hp', if_pos rfl] at hq
    obtain rfl := Option.some.inj hq
    rw [hactive]
    exact .inl nofun
  | charged p' t _ _ _ _ hp' _ hs =>
    rw [getElem?_withCurrent hp', if_pos rfl] at hq
    obtain rfl := Option.some.inj hq
    obtain rfl := Option.some.inj (hp.symm.trans hp')
    exact .inr (charged_ne hs)

/-- The status and the retry count of a phase change only when the call acts on it. -/
theorem phase_unchanged {inst : WorkflowInstance} {db : Db} {i : ℕ} {q : PhaseState}
    (hq : inst.phaseStates[i]? = some q)
    (h : inst.currentPhaseIdx = i → ¬ call.ActsOn q) :
    (handleSignal call inst db).2.1.phaseStates[i]? = some q := by
  have hcase := handleSignal_handled call inst db
  revert hcase
  generalize handleSignal call inst db = out
  intro hcase
  cases hcase with
  | kept | escalated => exact hq
  | completed p t t' hp hactive hs =>
    refine (getElem?_withCurrent hp _ _ i).trans ?_
    rw [if_neg fun hi => h hi (eq_of_currentPhase hp hq hi ▸ ⟨hactive, .inl hs⟩)]
    exact hq
  | charged p t _ _ _ _ hp hactive hs =>
    refine (getElem?_withCurrent hp _ _ i).trans ?_
    rw [if_neg fun hi => h hi (eq_of_currentPhase hp hq hi ▸ ⟨hactive, .inr hs⟩)]
    exact hq

/-- One signal stays with its own phase exactly when it is on time. -/
theorem ownPhaseOnly_iff (s : MonitorState) (e : MonitorEvent) : OwnPhaseOnly s e ↔ OnTime s e := by
  cases e with
  | engine | store => exact Iff.rfl
  | signal call =>
    constructor
    · intro h p hp hacts
      by_contra hid
      obtain ⟨q, hq, hstatus, hcount⟩ := h _ p hp hid
      rcases changes_of_actsOn hp hacts hq with hne | hne
      · exact hne hstatus
      · exact hne hcount
    · intro h i q hq hid
      refine ⟨q, phase_unchanged hq ?_, rfl, rfl⟩
      rintro rfl hacts
      exact hid (h q hq hacts)

end Touched

/-- **Stale signals.** In every run from a new workflow, the signals stay with their own phases
exactly when each signal that acts finds its phase current. -/
theorem ownPhaseOnly_run_iff (workflowId : WorkflowId) (template : WorkflowTemplate)
    (handoffPath : String) (now : DateTime) (db : Db) (events : List MonitorEvent) :
    let start : MonitorState := ⟨new workflowId template handoffPath now, db⟩
    Runs.Meets monitorStep OwnPhaseOnly start events ↔ Runs.Meets monitorStep OnTime start events :=
  Runs.meets_congr ownPhaseOnly_iff

/-- The completion of `implement`, delivered twice: the second one completes `audit`. -/
theorem stale_completion_touches_audit :
    let start : MonitorState := ⟨new "wf" implAuditDefault "handoff.md" 0, .empty⟩
    let started : MonitorEvent := .engine (.startPhase (fun _ => true) Int.ofNat)
    let done : MonitorEvent := .signal ⟨.phaseComplete "implement", 0, {}, Int.ofNat, false⟩
    let entered : MonitorEvent :=
      .engine (.advance permissiveGateEvaluator (fun _ => true) Int.ofNat)
    let s := Runs.run monitorStep start [started, done, entered, started]
    s.inst.currentPhase.map (fun p => (p.phaseId, p.status)) = some ("audit", .active) ∧
      (monitorStep s done).inst.currentPhase.map (fun p => (p.phaseId, p.status)) =
        some ("audit", .completed) ∧
      ¬ Runs.Meets monitorStep OwnPhaseOnly start [started, done, entered, started, done] := by
  intro start started done entered s
  refine ⟨by decide +kernel, by decide +kernel, fun h => ?_⟩
  have hown : OwnPhaseOnly s done :=
    Runs.meets_iff.mp h [started, done, entered, started] done [] rfl
  obtain ⟨p, hp, hid, hactive⟩ : ∃ p, s.inst.currentPhase = some p ∧ p.phaseId = "audit" ∧
      p.status = .active := ⟨_, rfl, rfl, rfl⟩
  have hname := (ownPhaseOnly_iff s done).mp hown p hp ⟨hactive, .inl trivial⟩
  rw [hid] at hname
  exact absurd hname (by decide)

/-! ## Memory and store -/

/-- The row of a phase. -/
def Tables.phaseRow (t : Tables) (id : WorkflowId) (phaseId : String) : Option PhaseRow :=
  Keyed.find PhaseRow.key (id, phaseId) t.phaseStates

/-- The row says what memory says about the progress of the phase. -/
structure PhaseState.AgreesWith (p : PhaseState) (row : PhaseRow) : Prop where
  status : row.status = p.status.toString
  retryCount : row.retryCount = p.retryCount.toNat
  startedAt : row.startedAt = p.startedAt.map .encoded
  completedAt : row.completedAt = p.completedAt.map .encoded
  failureReason : row.failureReason = p.failureReason

/-- The current phase has a row, and the row agrees with it. -/
def CurrentAgrees (inst : WorkflowInstance) (t : Tables) : Prop :=
  ∃ p row, inst.currentPhase = some p ∧ t.phaseRow inst.workflowId p.phaseId = some row ∧
    p.AgreesWith row

instance (p : PhaseState) (row : PhaseRow) : Decidable (p.AgreesWith row) :=
  decidable_of_iff (row.status = p.status.toString ∧ row.retryCount = p.retryCount.toNat ∧
      row.startedAt = p.startedAt.map .encoded ∧ row.completedAt = p.completedAt.map .encoded ∧
      row.failureReason = p.failureReason)
    ⟨fun ⟨h₁, h₂, h₃, h₄, h₅⟩ => ⟨h₁, h₂, h₃, h₄, h₅⟩,
      fun ⟨h₁, h₂, h₃, h₄, h₅⟩ => ⟨h₁, h₂, h₃, h₄, h₅⟩⟩

instance (inst : WorkflowInstance) (t : Tables) : Decidable (CurrentAgrees inst t) :=
  match hp : inst.currentPhase with
  | none => isFalse fun ⟨_, _, h, _⟩ => by simp [hp] at h
  | some p =>
    match hrow : t.phaseRow inst.workflowId p.phaseId with
    | none => isFalse fun ⟨_, _, h, hr, _⟩ => by
        obtain rfl := Option.some.inj (hp.symm.trans h)
        simp [hrow] at hr
    | some row => decidable_of_iff (p.AgreesWith row)
        ⟨fun h => ⟨p, row, hp, hrow, h⟩, fun ⟨_, _, h, hr, hagree⟩ => by
          obtain rfl := Option.some.inj (hp.symm.trans h)
          obtain rfl := Option.some.inj (hrow.symm.trans hr)
          exact hagree⟩

theorem PhaseState.agreesWith_ofState (p : PhaseState) (id : WorkflowId) (order : ℤ) :
    p.AgreesWith (.ofState id p order) := ⟨rfl, rfl, rfl, rfl, rfl⟩

section Writes

variable {storeFails : Bool} {id : WorkflowId} {order : ℕ} {db : Db}

/-- A phase that has a row can be written again. -/
theorem writePhaseState_ok (p : PhaseState) (hfails : storeFails = false)
    (horder : order < 2 ^ 63) {row : PhaseRow}
    (hrow : db.phaseRow id p.phaseId = some row) :
    ∃ db', writePhaseState storeFails id p order db = (.ok (), db') ∧
      db'.phaseRow id p.phaseId = some (.ofState id p order) := by
  obtain ⟨hmem, hkey⟩ := Keyed.find_eq_some hrow
  have hid : id ∈ db.workflowIds := by
    have howner := db.constraints.phaseOwners row hmem
    rwa [show row.workflowId = id from congrArg Prod.fst hkey] at howner
  have hc : (db.upsertPhase (.ofState id p order)).Constraints :=
    db.constraints.upsertPhase hid
  refine ⟨⟨_, hc⟩, ?_, Keyed.find_upsert_self (PhaseRow.ofState id p order) db.phaseStates⟩
  rw [writePhaseState, hfails, if_neg Bool.false_ne_true]
  exact withTransaction_ok (upsertPhaseState_ok.mpr ⟨horder, hc, rfl⟩)

theorem writePhaseState_error (id : WorkflowId) (p : PhaseState) (db : Db)
    (h : ¬ (storeFails = false ∧ order < 2 ^ 63)) :
    ∃ e, writePhaseState storeFails id p order db = (.error e, db) := by
  unfold writePhaseState
  split_ifs with hfails
  · exact ⟨_, rfl⟩
  · have horder : ¬ order < 2 ^ 63 := fun ho => h ⟨by simpa using hfails, ho⟩
    cases hrun : (upsertPhaseState id p order).run db with
    | error e => exact ⟨e, withTransaction_error hrun⟩
    | ok r => exact absurd (upsertPhaseState_ok.mp hrun).1 horder

end Writes

/-- A retry that is counted in memory only, or a completion, is not in the row. -/
theorem not_currentAgrees {inst : WorkflowInstance} {t : Tables} {p : PhaseState}
    (p' : PhaseState) (h : CurrentAgrees inst t) (hp : inst.currentPhase = some p)
    (hid : p'.phaseId = p.phaseId)
    (hne : p'.status ≠ p.status ∨ p'.retryCount ≠ p.retryCount) (now : DateTime) :
    ¬ CurrentAgrees (inst.withCurrent p' now) t := by
  obtain ⟨q, row, hq, hrow, hagree⟩ := h
  obtain rfl := Option.some.inj (hq.symm.trans hp)
  rintro ⟨q', row', hq', hrow', hagree'⟩
  obtain rfl := Option.some.inj ((currentPhase_withCurrent hp p' now).symm.trans hq')
  rw [hid] at hrow'
  obtain rfl := Option.some.inj (hrow.symm.trans hrow')
  rcases hne with hne | hne
  · exact hne (PhaseStatus.toString_injective (hagree'.status.symm.trans hagree.status))
  · refine hne (UInt32.toNat_inj.mp ?_)
    exact_mod_cast hagree'.retryCount.symm.trans hagree.retryCount

/-- **Memory and store.** A workflow that agrees with the row of its current phase agrees with it
after a signal exactly when the signal does nothing to the phase, or counts a retry and the store
takes the row. -/
theorem currentAgrees_iff (call : SignalCall) (inst : WorkflowInstance) (db : Db)
    (h : CurrentAgrees inst db.toTables) :
    let out := handleSignal call inst db
    CurrentAgrees out.2.1 out.2.2.toTables ↔ ∀ p, inst.currentPhase = some p → call.ActsOn p →
      call.Retries p.retryCount ∧ call.storeFails = false ∧ inst.currentPhaseIdx < 2 ^ 63 := by
  have hcase := handleSignal_handled call inst db
  intro out
  change Handled call inst db out at hcase
  revert hcase
  generalize out = out
  intro hcase
  cases hcase with
  | kept _ _ hidle =>
    refine iff_of_true h fun p hp hacts => ?_
    obtain ⟨hcomplete, hretries⟩ := hidle p hp hacts.1
    exact absurd hacts.2 (not_or.mpr ⟨hcomplete, hretries⟩)
  | escalated p _ hp hs hmax =>
    refine iff_of_true h fun q hq hacts => ?_
    obtain rfl := Option.some.inj (hp.symm.trans hq)
    rcases hacts.2 with hcomplete | hretries
    · exact absurd hcomplete (not_isComplete hs)
    · exact absurd hmax (UInt32.not_le.mpr hretries.2)
  | completed p t t' hp hactive hs =>
    have hne : (p.markCompleted t).status ≠ p.status := by
      rw [hactive]
      nofun
    refine iff_of_false (not_currentAgrees (p.markCompleted t) h hp rfl (.inl hne) t')
      fun hwritten => ?_
    exact not_retries hs _ (hwritten p hp ⟨hactive, .inl hs⟩).1
  | charged p t _ _ written db' hp hactive hs hwrite =>
    by_cases htaken : call.storeFails = false ∧ inst.currentPhaseIdx < 2 ^ 63
    · obtain ⟨q, row, hq, hrow, -⟩ := h
      obtain rfl := Option.some.inj (hp.symm.trans hq)
      obtain ⟨db'', hok, hrow'⟩ := writePhaseState_ok p.charged htaken.1 htaken.2 hrow
      obtain rfl := congrArg Prod.snd (hwrite.symm.trans hok)
      refine iff_of_true ⟨_, _, currentPhase_withCurrent hp _ t, hrow',
        p.charged.agreesWith_ofState _ _⟩ fun q hq _ => ?_
      obtain rfl := Option.some.inj (hp.symm.trans hq)
      exact ⟨hs, htaken⟩
    · obtain ⟨e, herror⟩ := writePhaseState_error inst.workflowId p.charged db htaken
      obtain rfl := congrArg Prod.snd (hwrite.symm.trans herror)
      refine iff_of_false (not_currentAgrees p.charged h hp rfl (.inr (charged_ne hs)) t)
        fun hwritten => ?_
      exact htaken (hwritten p hp ⟨hactive, .inr hs⟩).2

/-- A stored workflow with an active phase: a failure whose retry is written is in both. -/
theorem currentAgrees_iff_written :
    let inst := applyOp (new "wf" implAuditDefault "handoff.md" 0)
      (.startPhase (fun _ => true) Int.ofNat)
    let db := (withTransaction (insertWorkflowWithHash inst none) .empty).2
    let failed : SignalCall := ⟨.failed "implement" "timeout", 0, {}, Int.ofNat, false⟩
    CurrentAgrees inst db.toTables ∧ CurrentAgrees (handleSignal failed inst db).2.1
      (handleSignal failed inst db).2.2.toTables := by
  intro inst db failed
  have h : CurrentAgrees inst db.toTables := by decide +kernel
  have hcount : inst.currentPhase.map (·.retryCount) = some 0 := rfl
  refine ⟨h, (currentAgrees_iff failed inst db h).mpr fun p hp _ => ?_⟩
  rw [hp] at hcount
  have hzero : p.retryCount = 0 := Option.some.inj hcount
  refine ⟨⟨trivial, ?_⟩, rfl, show 0 < 2 ^ 63 by decide⟩
  rw [hzero]
  decide

/-- The same workflow: a completion is not written, and a retry whose write fails stays counted in
memory. -/
theorem stored_phase_falls_behind :
    let inst := applyOp (new "wf" implAuditDefault "handoff.md" 0)
      (.startPhase (fun _ => true) Int.ofNat)
    let db := (withTransaction (insertWorkflowWithHash inst none) .empty).2
    let done : SignalCall := ⟨.phaseComplete "implement", 0, {}, Int.ofNat, false⟩
    let failed : SignalCall := ⟨.failed "implement" "timeout", 0, {}, Int.ofNat, true⟩
    CurrentAgrees inst db.toTables ∧
      ¬ CurrentAgrees (handleSignal done inst db).2.1 (handleSignal done inst db).2.2.toTables ∧
      ¬ CurrentAgrees (handleSignal failed inst db).2.1
        (handleSignal failed inst db).2.2.toTables := by
  intro inst db done failed
  exact ⟨by decide +kernel, by decide +kernel, by decide +kernel⟩

end Hymenium
