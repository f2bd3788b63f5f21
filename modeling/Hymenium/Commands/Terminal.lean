import Hymenium.Commands.Coherence
import Hymenium.Dispatch.Mapping

/-!
# When terminal workflows stay terminal

A cancellation leaves the phases of the workflow as they are, and `reconcile` reads the phases and
not the status: a reconciliation of a cancelled workflow can write another status over `cancelled`.
`Db.Revives` says exactly when, and `terminalStays_iff` that nothing else ever changes a terminal
status: completed and failed workflows are closed, and a workflow the user terminated is never
stored.
-/

namespace Hymenium

open WorkflowInstance Tables

/-- The terminal statuses stored in `db` are those `db'` has for the same workflows. -/
def Db.KeepsTerminal (db db' : Db) : Prop :=
  ∀ id row, db.workflow id = some row → ¬ row.Live →
    ∃ row', db'.workflow id = some row' ∧ row'.status = row.status

/-- Once a workflow has a terminal status, no later command of the sequence changes it. -/
def TerminalStays (cmds : List Command) : Prop :=
  ∀ pre mid post, cmds = pre ++ mid ++ post →
    (runCommands Db.empty pre).KeepsTerminal (runCommands Db.empty (pre ++ mid))

/-- The reconciliation writes another status over `cancelled`: the task of the current phase, which
is not done, has an answer that ends the workflow, or one that advances it while its content hash is
free. -/
def Db.Revives (db : Db) (id : WorkflowId) (canopy : CanopyClient) (forceAdvance : Bool)
    (files : Files) : Prop :=
  ∃ inst task, db.getWorkflow id = .ok (some inst) ∧ inst.status = .cancelled ∧
    inst.answer canopy = some (.ok task) ∧
    (inst.EndedBy task ∨ inst.AdvancedBy forceAdvance files task ∧ db.HashFree id)

/-- The command is no reconciliation that revives a cancelled workflow. -/
def LeavesCancelled (db : Db) : Command → Prop
  | .reconcile id canopy forceAdvance files _ => ¬ db.Revives id canopy forceAdvance files
  | _ => True

/-! ## Kept statuses on ledgers -/

section Kept

variable {db db' db'' : Db} {ledger ledger' : Ledger}

theorem Db.KeepsTerminal.refl (db : Db) : db.KeepsTerminal db :=
  fun _ row hrow _ => ⟨row, hrow, rfl⟩

theorem Db.KeepsTerminal.trans (h : db.KeepsTerminal db') (h' : db'.KeepsTerminal db'') :
    db.KeepsTerminal db'' := by
  intro id row hrow hdead
  obtain ⟨row', hrow', hstatus⟩ := h id row hrow hdead
  have hdead' : ¬ row'.Live := by
    unfold WorkflowRow.Live at hdead ⊢
    rwa [hstatus]
  obtain ⟨row'', hrow'', hstatus'⟩ := h' id row' hrow' hdead'
  exact ⟨row'', hrow'', hstatus'.trans hstatus⟩

/-- Terminal statuses are kept when the entries keep theirs. -/
theorem keepsTerminal_iff (h : db.Represents ledger) (h' : db'.Represents ledger') :
    db.KeepsTerminal db' ↔ ∀ id e, ledger id = some e → ¬ e.Live →
      ∃ e', ledger' id = some e' ∧ e'.inst.status = e.inst.status := by
  constructor
  · intro hkeeps id e he hdead
    obtain ⟨row, hrow, henc⟩ := (h.holds he).row
    obtain ⟨row', hrow', hstatus⟩ := hkeeps id row hrow (mt henc.live_iff.mp hdead)
    obtain ⟨e', he', henc'⟩ := h'.entry_of_row hrow'
    refine ⟨e', he', WorkflowStatus.toString_injective ?_⟩
    rw [← henc'.status, hstatus, henc.status]
  · intro hkeeps id row hrow hdead
    obtain ⟨e, he, henc⟩ := h.entry_of_row hrow
    obtain ⟨e', he', hstatus⟩ := hkeeps id e he (mt henc.live_iff.mpr hdead)
    obtain ⟨row', hrow', henc'⟩ := (h'.holds he').row
    exact ⟨row', hrow', by rw [henc'.status, hstatus, henc.status]⟩

end Kept

/-! ## One command -/

section Step

variable {db : Db}

/-- A reconciliation that writes a live status leaves its content hash to this workflow alone. -/
theorem hashFree_of_reconciled {ledger ledger' : Ledger} {db' : Db} (h : db.Represents ledger)
    (h' : db'.Represents ledger') {id : WorkflowId} {canopy : CanopyClient} {forceAdvance : Bool}
    {files : Files} {clk : Clock} {e e' : Entry}
    (hchange : ∀ id', Entry.Change id' (.reconcile id canopy forceAdvance files clk)
      (ledger id') (ledger' id'))
    (he : ledger id = some e) (he' : ledger' id = some e') (hdead : ¬ e.Live) (hlive : e'.Live)
    (hhash : e'.contentHash = e.contentHash) : db.HashFree id := by
  refine h.hashFree db.constraints fun e₀ he₀ id' other hother holive hash hash₀ hohash => ?_
  obtain rfl : e = e₀ := Option.some.inj (he.symm.trans he₀)
  have hne : id ≠ id' := by
    rintro rfl
    obtain rfl : e = other := Option.some.inj (he.symm.trans hother)
    exact hdead holive
  have hkept : ledger' id' = some other := by
    have hother' := hchange id'
    rw [hother] at hother'
    generalize ledger' id' = new at hother'
    cases hother' with
    | kept => rfl
    | reconciled => exact absurd rfl hne
  exact hne (h'.exclusive db'.constraints he' hkept hlive holive (hhash.trans hash₀) hohash)

/-- A command that revives no cancelled workflow keeps the terminal statuses. -/
theorem keepsTerminal_step (h : db.Reached) {cmd : Command} (hcmd : LeavesCancelled db cmd) :
    db.KeepsTerminal (step db cmd) := by
  obtain ⟨ledger, ledger', hrep, hcoh, hrep', hcoh', hchange⟩ := h.step cmd
  rw [keepsTerminal_iff hrep hrep']
  intro id e he hdead
  have hid := hchange id
  rw [he] at hid
  generalize hnew : ledger' id = new at hid
  cases hid with
  | kept => exact ⟨e, rfl, rfl⟩
  | cancelled clk _ outcome hs =>
    rw [Entry.Live, hs] at hdead
    exact absurd (by decide) hdead
  | reconciled canopy forceAdvance files clk _ inst hr =>
    refine ⟨_, rfl, ?_⟩
    show inst.status = e.inst.status
    have hstatus := (hcoh id e he).inst.status
    by_cases hc : e.inst.status = .cancelled
    · have hload : db.getWorkflow id = .ok (some e.inst) := (hrep.holds he).getWorkflow
      rcases hr.status_of_not_ended fun task hans hends =>
        hcmd ⟨e.inst, task, hload, hc, hans, .inl hends⟩ with hs | ⟨hs, task, hans, hadv⟩
      · exact hs
      · refine absurd ⟨e.inst, task, hload, hc, hans, .inr ⟨hadv, ?_⟩⟩ hcmd
        refine hashFree_of_reconciled hrep hrep' hchange he hnew hdead ?_ rfl
        show inst.status.toString ∉ terminalStatuses
        rw [hs]
        decide
    · -- a completed or failed workflow asks nothing
      have hclosed : e.inst.openTask = none := by
        refine (hcoh id e he).inst.closed ?_
        rw [Entry.Live] at hdead
        simp only [List.mem_cons, List.not_mem_nil, or_false] at hstatus
        rcases hstatus with hs | hs | hs | hs
        · rw [hs] at hdead
          exact absurd (by decide) hdead
        · exact .inl hs
        · exact .inr hs
        · exact absurd hs hc
      rw [answer_none hclosed] at hr
      rcases hr.status_of_not_ended fun _ hnone => nomatch hnone with hs | ⟨-, _, hnone, -⟩
      · exact hs
      · cases hnone

/-- A reconciliation that revives a cancelled workflow does not. -/
theorem not_keepsTerminal_of_revives (h : db.Reached) {id : WorkflowId} {canopy : CanopyClient}
    {forceAdvance : Bool} {files : Files} (clk : Clock)
    (hrev : db.Revives id canopy forceAdvance files) :
    ¬ db.KeepsTerminal (step db (.reconcile id canopy forceAdvance files clk)) := by
  obtain ⟨ledger, hrep, hcoh⟩ := h
  obtain ⟨inst, task, hload, hc, hans, hcase⟩ := hrev
  rw [getWorkflow_of_represents hrep, Except.ok.injEq] at hload
  obtain ⟨e, he, rfl⟩ := Option.map_eq_some_iff.mp hload
  obtain ⟨inst, hrec, -, hrep'⟩ := hcoh.exists_reconciled hrep he hans
    (hcase.imp_right fun hadv => .inr hadv.2) forceAdvance files clk
  have hstatus : inst.status ≠ .cancelled := by
    rcases hcase with hends | ⟨hadv, -⟩
    · rcases hrec.status_of_ended hends with hs | hs <;> simp [hs]
    · have hnext := (hcoh id e he).inst.next_ne_none hadv.2.2.1
      simp [hrec.status_of_advanced hadv hnext]
  intro hkeeps
  obtain ⟨e', he', hsame⟩ := (keepsTerminal_iff hrep hrep').mp hkeeps id e he (by
    rw [Entry.Live, hc]
    decide)
  rw [Ledger.put, Function.update_self] at he'
  obtain rfl := Option.some.inj he'
  exact hstatus (hsame.trans hc)

end Step

/-! ## Every run -/

/-- **Terminal statuses.** A sequence of commands keeps every terminal status exactly when none of
its reconciliations revives a cancelled workflow. -/
theorem terminalStays_iff (cmds : List Command) :
    TerminalStays cmds ↔ Runs.Meets step LeavesCancelled Db.empty cmds := by
  constructor
  · intro hstays
    rw [Runs.meets_iff]
    intro pre cmd post hcmds
    have hkeeps := hstays pre [cmd] post (by rw [hcmds, List.append_assoc]; rfl)
    have hrun : runCommands Db.empty (pre ++ [cmd]) = step (runCommands Db.empty pre) cmd :=
      Runs.run_append Db.empty pre [cmd]
    rw [hrun] at hkeeps
    cases cmd with
    | reconcile id canopy forceAdvance files clk =>
      exact fun hrev => not_keepsTerminal_of_revives (Db.reached_run pre) clk hrev hkeeps
    | _ => trivial
  · rintro hmeets pre mid post rfl
    rw [List.append_assoc, Runs.meets_append, Runs.meets_append] at hmeets
    have hrun : runCommands Db.empty (pre ++ mid) = runCommands (runCommands Db.empty pre) mid :=
      Runs.run_append Db.empty pre mid
    rw [hrun]
    have hinv := Runs.run_invariant_of_meets
      (P := fun db => db.Reached ∧ (runCommands Db.empty pre).KeepsTerminal db)
      (fun db cmd h hcmd => ⟨h.1.next cmd, h.2.trans (keepsTerminal_step h.1 hcmd)⟩)
      ⟨Db.reached_run pre, .refl _⟩ hmeets.2.1
    exact hinv.2

/-! ## A cancelled workflow that goes on -/

/-- A dispatch of a one-step handoff. -/
def sampleDispatch : DispatchRequest where
  handoff := .ok ⟨"Fix it", ".", "hymenium", "fix-it", .ok "do it", fun phase => phase.phaseId⟩
  contentHash := "hash"
  workflowId := "wf"
  path := "handoff.md"
  canopy := acceptingCanopy
  clk := Int.ofNat

/-- Every task was completed, with a code diff and verification. -/
def completedCanopy : CanopyClient :=
  ⟨fun taskId => .ok
    { taskId, title := "Fix it", status := "completed", hasCodeDiff := true,
      hasVerificationPassed := true }⟩

/-- A cancelled workflow whose first task is completed is dispatched again by `reconcile`. -/
theorem cancelled_dispatched_again :
    let cancelled : List Command := [.dispatch sampleDispatch, .cancel "wf" Int.ofNat]
    let reconciled : List Command :=
      [.reconcile "wf" completedCanopy false (fun _ => true) Int.ofNat]
    ((runCommands Db.empty cancelled).workflow "wf").map (·.status) = some "cancelled" ∧
      ((runCommands Db.empty (cancelled ++ reconciled)).workflow "wf").map (·.status) =
        some "dispatched" ∧
      ¬ TerminalStays (cancelled ++ reconciled) := by
  intro cancelled reconciled
  have hbefore : ((runCommands Db.empty cancelled).workflow "wf").map (·.status) =
      some "cancelled" := by decide +kernel
  have hafter : ((runCommands Db.empty (cancelled ++ reconciled)).workflow "wf").map (·.status) =
      some "dispatched" := by decide +kernel
  refine ⟨hbefore, hafter, fun hstays => ?_⟩
  obtain ⟨row, hrow, hstatus⟩ := Option.map_eq_some_iff.mp hbefore
  obtain ⟨row', hrow', hsame⟩ := hstays cancelled reconciled [] (List.append_nil _).symm "wf" row
    hrow (by rw [WorkflowRow.Live, hstatus]; decide)
  rw [hrow', Option.map_some, hsame, hstatus] at hafter
  exact absurd (Option.some.inj hafter) (by decide)

end Hymenium
