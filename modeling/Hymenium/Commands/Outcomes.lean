import Hymenium.Commands.Terminal

/-!
# When finished workflows have their outcome

`cancel`, `fail` and `complete` write the outcome in the transaction that writes the status;
`reconcile` writes the status alone. It is the only command that completes or fails a reachable
workflow, and once it did, `fail` and `complete` take the workflow for done and do not repair it.
-/

namespace Hymenium

open WorkflowInstance Tables

/-- Every finished workflow has an outcome row with its status. -/
def Db.HasOutcomes (db : Db) : Prop :=
  ∀ row ∈ db.workflows, row.status ∈ ["completed", "failed", "cancelled"] →
    ∃ outcomeRow outcome, db.outcome row.workflowId = some outcomeRow ∧
      outcomeRow.outcomeJson = .encoded outcome ∧ outcome.terminalStatus.toString = row.status

/-- The command is no reconciliation with an answer that ends the workflow. -/
def EndsNothing (db : Db) : Command → Prop
  | .reconcile id canopy _ _ _ => ∀ inst task, db.getWorkflow id = .ok (some inst) →
      inst.answer canopy = some (.ok task) → ¬ inst.EndedBy task
  | _ => True

/-! ## Outcomes on ledgers -/

section Outcomes

variable {db : Db} {ledger : Ledger}

/-- A coherent ledger has its outcomes as long as nothing is completed or failed. -/
theorem hasOutcomes_iff (h : db.Represents ledger) (hcoh : ledger.Coherent) :
    db.HasOutcomes ↔ ∀ id e, ledger id = some e →
      e.inst.status ≠ .completed ∧ e.inst.status ≠ .failed := by
  constructor
  · intro hout id e he
    obtain ⟨row, hrow, henc⟩ := (h.holds he).row
    obtain ⟨hmem, hid⟩ := workflow_eq_some hrow
    have hnot : e.inst.status.toString ≠ "cancelled" →
        row.status ∉ ["completed", "failed", "cancelled"] := by
      intro hne hstatus
      obtain ⟨orow, o, horow, hjson, hterm⟩ := hout row hmem hstatus
      have hentry := (h.holds he).outcome
      rw [hid] at horow
      rw [horow, Option.map_some, hjson] at hentry
      obtain ⟨o', ho', hsame⟩ := Option.map_eq_some_iff.mp hentry.symm
      obtain rfl : o' = o := Stored.encoded.inj hsame
      rw [(hcoh id e he).outcome o' ho', henc.status] at hterm
      exact hne hterm.symm
    rw [henc.status] at hnot
    refine ⟨fun hs => ?_, fun hs => ?_⟩
    · rw [hs] at hnot
      exact absurd (by decide) (hnot (by decide))
    · rw [hs] at hnot
      exact absurd (by decide) (hnot (by decide))
  · intro hnone row hmem hstatus
    have hrow : db.workflow row.workflowId = some row :=
      Keyed.find_of_mem db.constraints.workflowKeys hmem
    obtain ⟨e, he, henc⟩ := h.entry_of_row hrow
    have hcancelled : e.inst.status = .cancelled := by
      have hkinds := (hcoh _ e he).inst.status
      have hcases := hnone _ e he
      rw [henc.status] at hstatus
      cases hs : e.inst.status <;> simp_all [WorkflowStatus.toString]
    cases ho : e.outcome with
    | none => exact absurd ho ((hcoh _ e he).cancelled hcancelled)
    | some o =>
      have hentry := (h.holds he).outcome
      rw [ho, Option.map_some] at hentry
      obtain ⟨orow, horow, hjson⟩ := Option.map_eq_some_iff.mp hentry
      refine ⟨orow, o, horow, hjson, ?_⟩
      rw [(hcoh _ e he).outcome o ho, henc.status, hcancelled]
      rfl

/-- A command that ends no workflow keeps the outcomes. -/
theorem hasOutcomes_step (h : db.Reached) {cmd : Command} (hcmd : EndsNothing db cmd)
    (hout : db.HasOutcomes) : (step db cmd).HasOutcomes := by
  obtain ⟨ledger, ledger', hrep, hcoh, hrep', hcoh', hchange⟩ := h.step cmd
  rw [hasOutcomes_iff hrep hcoh] at hout
  rw [hasOutcomes_iff hrep' hcoh']
  intro id e' he'
  have hid := hchange id
  rw [he'] at hid
  generalize hold : ledger id = old at hid
  cases hid with
  | kept => exact hout id e' hold
  | dispatched request inst _ hinst => simp [hinst.status]
  | cancelled clk e outcome hs => simp [Entry.setOutcome, Entry.setProgress, Entry.setStatus,
      Entry.setPhaseIdx]
  | reconciled canopy forceAdvance files clk e inst hr =>
    show inst.status ≠ .completed ∧ inst.status ≠ .failed
    have hload : db.getWorkflow id = .ok (some e.inst) := (hrep.holds hold).getWorkflow
    rcases hr.status_of_not_ended fun task hans => hcmd e.inst task hload hans with hs | ⟨hs, -⟩
    · rw [hs]
      exact hout id e hold
    · simp [hs]

/-- A reconciliation that ends a workflow leaves it without its outcome. -/
theorem not_hasOutcomes_of_ended (h : db.Reached) {id : WorkflowId} {canopy : CanopyClient}
    {inst : WorkflowInstance} {task : TaskDetail} (forceAdvance : Bool) (files : Files)
    (clk : Clock) (hload : db.getWorkflow id = .ok (some inst))
    (hans : inst.answer canopy = some (.ok task)) (hends : inst.EndedBy task) :
    ¬ (step db (.reconcile id canopy forceAdvance files clk)).HasOutcomes := by
  obtain ⟨ledger, hrep, hcoh⟩ := h
  rw [getWorkflow_of_represents hrep, Except.ok.injEq] at hload
  obtain ⟨e, he, rfl⟩ := Option.map_eq_some_iff.mp hload
  obtain ⟨inst, hrec, hcoh', hrep'⟩ := hcoh.exists_reconciled hrep he hans (.inl hends)
    forceAdvance files clk
  rw [hasOutcomes_iff hrep' hcoh']
  intro hnone
  have hstatus := hnone id (e.reconciled inst clk) (Function.update_self id _ ledger)
  rcases hrec.status_of_ended hends with hs | hs
  · exact hstatus.1 hs
  · exact hstatus.2 hs

end Outcomes

/-! ## Every run -/

/-- **Outcomes.** Every store along a sequence of commands has the outcomes of its finished
workflows exactly when no reconciliation of the sequence ends a workflow. -/
theorem hasOutcomes_iff_meets (cmds : List Command) :
    (∀ pre post, cmds = pre ++ post → (runCommands Db.empty pre).HasOutcomes) ↔
      Runs.Meets step EndsNothing Db.empty cmds := by
  constructor
  · intro hout
    rw [Runs.meets_iff]
    intro pre cmd post hcmds
    have hafter := hout (pre ++ [cmd]) post (by rw [hcmds, List.append_assoc]; rfl)
    have hrun : runCommands Db.empty (pre ++ [cmd]) = step (runCommands Db.empty pre) cmd :=
      Runs.run_append Db.empty pre [cmd]
    rw [hrun] at hafter
    cases cmd with
    | reconcile id canopy forceAdvance files clk =>
      intro inst task hload hans hends
      exact not_hasOutcomes_of_ended (Db.reached_run pre) forceAdvance files clk hload hans hends
        hafter
    | _ => trivial
  · rintro hmeets pre post rfl
    have hinv := Runs.run_invariant_of_meets
      (P := fun db => db.Reached ∧ db.HasOutcomes)
      (fun db cmd h hcmd => ⟨h.1.next cmd, hasOutcomes_step h.1 hcmd h.2⟩)
      ⟨Db.reached_run [], fun row hrow => nomatch hrow⟩ (Runs.meets_append.mp hmeets).1
    exact hinv.2

/-! ## A failed workflow without an outcome -/

/-- Every task was cancelled. -/
def cancelledCanopy : CanopyClient :=
  ⟨fun taskId => .ok { taskId, title := "Fix it", status := "cancelled" }⟩

/-- A workflow that `reconcile` fails has no outcome, and `fail` does not give it one. -/
theorem failed_without_outcome :
    let failed : List Command := [.dispatch sampleDispatch,
      .reconcile "wf" cancelledCanopy false (fun _ => true) Int.ofNat]
    let repaired : List Command := failed ++ [.fail "wf" "task was cancelled" Int.ofNat]
    ((runCommands Db.empty failed).workflow "wf").map (·.status) = some "failed" ∧
      (runCommands Db.empty failed).outcome "wf" = none ∧
      (runCommands Db.empty repaired).outcome "wf" = none ∧
      ¬ (runCommands Db.empty failed).HasOutcomes := by
  intro failed repaired
  have hstatus : ((runCommands Db.empty failed).workflow "wf").map (·.status) = some "failed" := by
    decide +kernel
  have hnone : (runCommands Db.empty failed).outcome "wf" = none := by decide +kernel
  refine ⟨hstatus, hnone, by decide +kernel, fun hout => ?_⟩
  obtain ⟨row, hrow, hfailed⟩ := Option.map_eq_some_iff.mp hstatus
  obtain ⟨hmem, hid⟩ := workflow_eq_some hrow
  obtain ⟨outcomeRow, outcome, hrow', -⟩ := hout row hmem (by rw [hfailed]; decide)
  rw [hid, hnone] at hrow'
  cases hrow'

end Hymenium
