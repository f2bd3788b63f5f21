import Hymenium.Commands.History
import Hymenium.Dispatch.Wire
import Hymenium.Store.Listing

/-!
# The status command

`hymenium status` (`src/commands/status.rs`) prints one workflow, or all that are live, as lines or
as the JSON that other tools read. The two views agree on every store, also on a damaged one
(`status_views_agree`). A reader that follows a workflow through its summaries finds that what was
done stays as it was printed (`status_kept`).
-/

namespace Hymenium

/-- Errors of the status command. -/
inductive StatusCommandError where
  | store (e : StoreError)
  | notFound (workflowId : String)
  deriving DecidableEq

/-- What the command prints. -/
inductive StatusOutput where
  | lines (lines : List String)
  | json (value : Json)

namespace WorkflowInstance

/-- A text, or null. -/
def stringJson : Option String → Json
  | some s => .string s
  | none => .null

/-- The summary of a phase. -/
def phaseSummaryJson (p : PhaseState) : Json :=
  .object [
    ("phase_id", .string p.phaseId),
    ("role", .string p.role.toString),
    ("status", .string p.status.toString),
    ("agent_id", stringJson p.agentId),
    ("started_at", stringJson (p.startedAt.map Timestamp.rfc3339)),
    ("completed_at", stringJson (p.completedAt.map Timestamp.rfc3339)),
    ("canopy_task_id", stringJson p.canopyTaskId)]

variable (inst : WorkflowInstance)

def workflowSummaryJson : Json :=
  .object [
    ("schema_version", .string "1.0"),
    ("workflow_id", .string inst.workflowId),
    ("handoff_path", .string inst.handoffPath),
    ("template_id", .string inst.template.templateId),
    ("status", .string inst.status.toString),
    ("blocked_on", stringJson inst.blockedOn),
    ("current_phase", stringJson (inst.currentPhase.map (·.phaseId))),
    ("phases", .array (inst.phaseStates.map phaseSummaryJson)),
    ("created_at", .string (Timestamp.rfc3339 inst.createdAt)),
    ("updated_at", .string (Timestamp.rfc3339 inst.updatedAt))]

/-- The line of a workflow in the listing. -/
def listLine : String :=
  let phaseName := (inst.currentPhase.map (·.phaseId)).getD "-"
  let agent := (inst.currentPhase.bind (·.agentId)).getD "-"
  inst.workflowId ++ " | " ++ inst.template.templateId ++ " | " ++ inst.status.toString ++
    " | phase: " ++ phaseName ++ " | agent: " ++ agent

def phaseLine (state : PhaseState) : String :=
  "    " ++ state.phaseId ++ " (" ++ state.role.toString ++ ") — " ++ state.status.toString ++
    " | agent: " ++ state.agentId.getD "-" ++ " | canopy: " ++ state.canopyTaskId.getD "-"

def printHuman : List String :=
  ["Workflow: " ++ inst.workflowId,
    "  Template:   " ++ inst.template.templateId,
    "  Handoff:    " ++ inst.handoffPath,
    "  Status:     " ++ inst.status.toString] ++
  (inst.blockedOn.map ("  Blocked on: " ++ ·)).toList ++
  ["  Created:    " ++ Timestamp.rfc3339 inst.createdAt,
    "  Updated:    " ++ Timestamp.rfc3339 inst.updatedAt,
    "  Phases:"] ++
  inst.phaseStates.map phaseLine

end WorkflowInstance

open WorkflowInstance

namespace Tables

variable (t : Tables)

/-- `hymenium status <workflow_id>` -/
def runSingle (workflowId : WorkflowId) (json : Bool) : Except StatusCommandError StatusOutput :=
  match t.getWorkflow workflowId with
  | .error e => .error (.store e)
  | .ok none => .error (.notFound workflowId)
  | .ok (some inst) =>
    .ok (if json then .json inst.workflowSummaryJson else .lines inst.printHuman)

/-- `hymenium status` -/
def runList (createdAtText : WorkflowRow → String) (json : Bool) :
    Except StatusCommandError StatusOutput :=
  match t.listActiveWorkflows createdAtText with
  | .error e => .error (.store e)
  | .ok [] => .ok (.lines ["No active workflows."])
  | .ok (inst :: insts) =>
    .ok (if json then .json (.array ((inst :: insts).map workflowSummaryJson))
      else .lines ((inst :: insts).map listLine))

end Tables

/-! ## The two views -/

section Views

variable {t : Tables} {db : Db} {createdAtText : WorkflowRow → String} {json : Bool}

theorem runSingle_ok_iff {id : WorkflowId} {out : StatusOutput} :
    t.runSingle id json = .ok out ↔ ∃ inst, t.getWorkflow id = .ok (some inst) ∧
      out = if json then .json inst.workflowSummaryJson else .lines inst.printHuman := by
  unfold Tables.runSingle
  split
  next e h => simp [h]
  next h => simp [h]
  next inst h => simp [h, eq_comm]

theorem exists_runSingle_iff {id : WorkflowId} :
    (∃ out, t.runSingle id json = .ok out) ↔ ∃ inst, t.getWorkflow id = .ok (some inst) := by
  simp only [runSingle_ok_iff]
  exact ⟨fun ⟨_, inst, h, _⟩ => ⟨inst, h⟩, fun ⟨inst, h⟩ => ⟨_, inst, h, rfl⟩⟩

theorem exists_runList_iff : (∃ out, t.runList createdAtText json = .ok out) ↔
    ∃ insts, t.listActiveWorkflows createdAtText = .ok insts := by
  unfold Tables.runList
  split
  next e h => simp [h]
  next h => simp [h]
  next inst insts h => simp [h]

end Views

/-- **Two views.** The listing succeeds exactly when the status of each live workflow does. As JSON
it is the array of the summaries that the single workflows have, one for each live workflow, the
latest first by the text of `created_at`; but where none is live it is no JSON. -/
theorem status_views_agree (db : Db) (createdAtText : WorkflowRow → String) (json : Bool) :
    ((∃ out, db.runList createdAtText json = .ok out) ↔
      ∀ row ∈ db.workflows, row.Live → ∃ out, db.runSingle row.workflowId json = .ok out) ∧
    ∀ out, db.runList createdAtText true = .ok out →
      (∀ row ∈ db.workflows, ¬ row.Live) ∧ out = .lines ["No active workflows."] ∨
      ∃ rows entries, rows ≠ [] ∧ rows.Perm (db.workflows.filter (·.Live)) ∧
        rows.Pairwise (fun a b => createdAtText b ≤ createdAtText a) ∧
        List.Forall₂ (fun row entry => db.runSingle row.workflowId true = .ok (.json entry))
          rows entries ∧
        out = .json (.array entries) := by
  constructor
  · rw [exists_runList_iff]
    simp only [listActiveWorkflows_ok_iff, exists_runSingle_iff]
    rw [exists_forall₂_iff]
    exact ⟨fun h row hrow hlive => h row (mem_activeRows.mpr ⟨hrow, hlive⟩),
      fun h row hrow => h row (mem_activeRows.mp hrow).1 (mem_activeRows.mp hrow).2⟩
  · intro out hout
    unfold Tables.runList at hout
    cases hlist : db.listActiveWorkflows createdAtText with
    | error e => simp [hlist] at hout
    | ok insts =>
      have hloads := listActiveWorkflows_ok_iff.mp hlist
      cases insts with
      | nil =>
        simp only [hlist, Except.ok.injEq] at hout
        refine .inl ⟨fun row hrow hlive => ?_, hout.symm⟩
        have hmem : row ∈ db.activeRows createdAtText := mem_activeRows.mpr ⟨hrow, hlive⟩
        rw [List.forall₂_nil_right_iff.mp hloads] at hmem
        cases hmem
      | cons inst insts =>
        simp only [hlist, if_true, Except.ok.injEq] at hout
        refine .inr ⟨_, _, ?_, List.perm_insertionSort _ _, List.pairwise_insertionSort _ _, ?_,
          hout.symm⟩
        · rintro hnil
          change db.activeRows createdAtText = [] at hnil
          rw [hnil] at hloads
          cases hloads
        · rw [List.forall₂_map_right_iff]
          exact hloads.imp fun row inst hload => runSingle_ok_iff.mpr ⟨inst, hload, rfl⟩

/-! ## Following a workflow -/

/-- The entries of the phases in a summary. -/
def phaseEntries (summary : Json) : List Json :=
  match getValue "phases" summary with
  | some (.array entries) => entries
  | _ => []

/-- The entry says that its phase is done. -/
def DoneEntry (entry : Json) : Prop :=
  ∃ status ∈ ["completed", "failed", "skipped"], getValue "status" entry = some (.string status)

theorem phaseEntries_workflowSummaryJson (inst : WorkflowInstance) :
    phaseEntries inst.workflowSummaryJson = inst.phaseStates.map phaseSummaryJson := rfl

theorem isTerminal_of_doneEntry {p : PhaseState} (h : DoneEntry (phaseSummaryJson p)) :
    p.status.isTerminal = true := by
  obtain ⟨status, hmem, hstatus⟩ := h
  have hprinted : p.status.toString = status := by
    simpa [getValue, Json.valuesAt, phaseSummaryJson] using hstatus
  rw [← hprinted] at hmem
  revert hmem
  cases p.status <;> decide

/-- `later` goes on from `summary`: it is of the same workflow, with the same phases, and the phases
that were done have the same entries. -/
structure SummaryContinues (summary later : Json) : Prop where
  same : ∀ name ∈ ["schema_version", "workflow_id", "handoff_path", "template_id", "created_at"],
    getValue name later = getValue name summary
  phases : (phaseEntries later).map (getValue "phase_id") =
    (phaseEntries summary).map (getValue "phase_id")
  done : ∀ (i : ℕ) (entry : Json), (phaseEntries summary)[i]? = some entry → DoneEntry entry →
    (phaseEntries later)[i]? = some entry

theorem WorkflowInstance.Continues.summary {a b : WorkflowInstance} (h : a.Continues b) :
    SummaryContinues a.workflowSummaryJson b.workflowSummaryJson where
  same := by
    have hvalues : ∀ inst : WorkflowInstance,
        ["schema_version", "workflow_id", "handoff_path", "template_id", "created_at"].map
          (getValue · inst.workflowSummaryJson) =
        [some (.string "1.0"), some (.string inst.workflowId), some (.string inst.handoffPath),
          some (.string inst.template.templateId),
          some (.string (Timestamp.rfc3339 inst.createdAt))] := fun _ => rfl
    have heq := (hvalues b).trans ((congrArg₂ _ rfl ?_).trans (hvalues a).symm)
    · exact List.map_inj_left.mp heq
    · rw [h.frame.workflowId, h.frame.handoffPath, h.frame.template, h.frame.createdAt]
  phases := by
    have hids : ∀ inst : WorkflowInstance, (phaseEntries inst.workflowSummaryJson).map
        (getValue "phase_id") = (inst.phaseStates.map (·.phaseId)).map (some ∘ .string) := by
      intro inst
      rw [phaseEntries_workflowSummaryJson, List.map_map, List.map_map]
      rfl
    rw [hids, hids, h.frame.phaseIds]
  done i entry hentry hdone := by
    rw [phaseEntries_workflowSummaryJson, List.getElem?_map, Option.map_eq_some_iff] at hentry ⊢
    obtain ⟨p, hp, rfl⟩ := hentry
    exact ⟨p, h.done i p hp (isTerminal_of_doneEntry hdone), rfl⟩

/-- The live workflows of a store that commands reach are listed. -/
theorem Db.Reached.exists_runList {db : Db} (h : db.Reached)
    (createdAtText : WorkflowRow → String) (json : Bool) :
    ∃ out, db.runList createdAtText json = .ok out := by
  obtain ⟨ledger, hrep, -⟩ := h
  rw [exists_runList_iff]
  simp only [listActiveWorkflows_ok_iff]
  rw [exists_forall₂_iff]
  intro row hrow
  have hstored := workflow_of_mem_activeRows hrow
  cases he : ledger row.workflowId with
  | none =>
    rw [(hrep.absent he).1] at hstored
    cases hstored
  | some e => exact ⟨e.inst, (hrep.holds he).getWorkflow⟩

/-- **Following a workflow.** On every store that commands reach, the listing succeeds, and the
status of a workflow fails only when it is not stored; once it is printed, it is printed after any
more commands, and the summary continues. -/
theorem status_kept (cmds more : List Command) (createdAtText : WorkflowRow → String)
    (id : WorkflowId) :
    (∃ out, (runCommands Db.empty cmds).runList createdAtText true = .ok out) ∧
    ((runCommands Db.empty cmds).runSingle id true = .error (.notFound id) ∨
      ∃ summary later, (runCommands Db.empty cmds).runSingle id true = .ok (.json summary) ∧
        (runCommands Db.empty (cmds ++ more)).runSingle id true = .ok (.json later) ∧
        SummaryContinues summary later) := by
  have hreached := Db.reached_run cmds
  refine ⟨hreached.exists_runList createdAtText true, ?_⟩
  have hkeeps : (runCommands Db.empty cmds).KeepsHistory (runCommands Db.empty (cmds ++ more)) := by
    unfold runCommands
    rw [Runs.run_append]
    exact hreached.keepsHistory_run more
  obtain ⟨ledger, hrep, -⟩ := hreached
  have hload := Tables.getWorkflow_of_represents hrep id
  cases he : ledger id with
  | none =>
    rw [he] at hload
    refine .inl ?_
    unfold Tables.runSingle
    rw [hload]
    rfl
  | some e =>
    rw [he] at hload
    obtain ⟨inst, hinst, hcont⟩ := hkeeps id e.inst hload
    exact .inr ⟨_, _, runSingle_ok_iff.mpr ⟨e.inst, hload, rfl⟩,
      runSingle_ok_iff.mpr ⟨inst, hinst, rfl⟩, hcont.summary⟩

end Hymenium
