import Mathlib.Data.List.Basic
import Mathlib.Tactic.Common

/-!
# Workflow templates

The template of a workflow: its phases, their gates, their artifact prerequisites and the failure
ceilings (`src/workflow/template.rs`). Rubrics and the task-packet fields of a phase are left out:
the engine only logs the first and never reads the second.

`checkArtifactPrerequisites` asks the file system about every artifact; the answers of one call are
its argument `files`.
-/

namespace Hymenium

/-- Strongly-typed workflow identifier. -/
abbrev WorkflowId := String

/-- The file-existence answers one engine call receives, by path. -/
abbrev Files := String → Bool

/-- A prerequisite artifact of a phase. -/
structure ArtifactRequirement where
  path : String
  description : String
  required : Bool := true
  deriving DecidableEq

/-- Process-level role for a workflow phase. -/
inductive ProcessRole where
  | implementer | auditor | reviewer | operator
  deriving DecidableEq

/-- Agent role for a workflow phase: the nine names of the dispatch catalog. -/
inductive AgentRole where
  | specAuthor | workflowPlanner | packetCompiler | decompositionChecker | workflowCoordinator
  | worker | outputVerifier | repairWorker | finalVerifier
  deriving DecidableEq

/-- The wire name of an agent role (its `Display` and its serde name). -/
def AgentRole.toString : AgentRole → String
  | .specAuthor => "Spec Author"
  | .workflowPlanner => "Workflow Planner"
  | .packetCompiler => "Packet Compiler"
  | .decompositionChecker => "Decomposition Checker"
  | .workflowCoordinator => "Workflow Coordinator"
  | .worker => "Worker"
  | .outputVerifier => "Output Verifier"
  | .repairWorker => "Repair Worker"
  | .finalVerifier => "Final Verifier"

/-- Agent tier for a workflow phase. -/
inductive AgentTier where
  | opus | sonnet | haiku | any
  deriving DecidableEq

/-- Gate conditions for phase entry or exit, by name. -/
structure Gate where
  requires : List String
  deriving DecidableEq

/-- A single phase within a workflow template. -/
structure Phase where
  phaseId : String
  role : ProcessRole
  agentRole : Option AgentRole
  agentTier : AgentTier
  entryGate : Gate
  exitGate : Gate
  maxToolFailurePerPhase : Option UInt32 := none
  maxRequestsPerPhase : Option UInt32 := none
  requiredArtifacts : List ArtifactRequirement := []
  deriving DecidableEq

/-- A transition between phases. -/
structure Transition where
  fromPhase : String
  toPhase : String
  condition : String
  deriving DecidableEq

/-- A complete workflow template with phases and transitions. -/
structure WorkflowTemplate where
  schemaVersion : String
  templateId : String
  name : String
  description : String
  phases : List Phase
  transitions : List Transition
  maxToolFailurePerPhase : UInt32 := 10
  maxRequestsPerPhase : UInt32 := 50
  deriving DecidableEq

/-- The concrete dispatch role for this phase: `agentRole` when set, else a default of `role`. -/
def Phase.effectiveAgentRole (phase : Phase) : AgentRole :=
  phase.agentRole.getD <| match phase.role with
    | .implementer => .worker
    | .auditor => .outputVerifier
    | .reviewer => .finalVerifier
    | .operator => .workflowCoordinator

/-! ## Validation -/

inductive TemplateError where
  | duplicatePhaseId (phaseId : String)
  | invalidPhaseReference (fromPhase toPhase : String)
  deriving DecidableEq

/-- The scan for a repeated phase id; `seen` are the ids already inserted. -/
def checkPhaseIds : List Phase → List String → Except TemplateError Unit
  | [], _ => .ok ()
  | phase :: rest, seen =>
    if phase.phaseId ∈ seen then .error (.duplicatePhaseId phase.phaseId)
    else checkPhaseIds rest (phase.phaseId :: seen)

/-- The scan for a transition whose ends are not phases. -/
def checkTransitions (phaseIds : List String) : List Transition → Except TemplateError Unit
  | [] => .ok ()
  | t :: rest =>
    if t.fromPhase ∉ phaseIds ∨ t.toPhase ∉ phaseIds then
      .error (.invalidPhaseReference t.fromPhase t.toPhase)
    else checkTransitions phaseIds rest

/-- Validate the template for structural correctness. -/
def WorkflowTemplate.validate (template : WorkflowTemplate) : Except TemplateError Unit := do
  checkPhaseIds template.phases []
  checkTransitions (template.phases.map (·.phaseId)) template.transitions

theorem checkPhaseIds_ok_iff (phases : List Phase) (seen : List String) :
    checkPhaseIds phases seen = .ok () ↔
      (phases.map (·.phaseId)).Nodup ∧ ∀ id ∈ phases.map (·.phaseId), id ∉ seen := by
  induction phases generalizing seen with
  | nil => simp [checkPhaseIds]
  | cons phase rest ih =>
    unfold checkPhaseIds
    by_cases h : phase.phaseId ∈ seen
    · simp [h]
    · rw [if_neg h, ih]
      simp only [List.map_cons, List.nodup_cons, List.mem_cons, forall_eq_or_imp, not_or]
      constructor
      · rintro ⟨hn, hs⟩
        exact ⟨⟨fun hm => (hs _ hm).1 rfl, hn⟩, h, fun id hid => (hs id hid).2⟩
      · rintro ⟨⟨hm, hn⟩, -, hs⟩
        exact ⟨hn, fun id hid => ⟨fun e => hm (e ▸ hid), hs id hid⟩⟩

/-! ## Artifact prerequisites -/

/-- The path whose existence is asked for: an absolute path as it is, a relative one under the
workspace root when there is one. -/
def artifactPath (workspaceRoot : Option String) (path : String) : String :=
  if path.startsWith "/" then path
  else match workspaceRoot with
    | some root => if root.endsWith "/" then root ++ path else root ++ "/" ++ path
    | none => path

/-- The message about a missing artifact. -/
def artifactMessage (artifact : ArtifactRequirement) : String :=
  let kind := if artifact.required then "Required" else "Optional"
  s!"{kind} artifact missing: {artifact.path} ({artifact.description})"

/-- One turn of the artifact loop over the collected warnings and errors. -/
def checkArtifact (workspaceRoot : Option String) (files : Files) (acc : List String × List String)
    (artifact : ArtifactRequirement) : List String × List String :=
  if files (artifactPath workspaceRoot artifact.path) then acc
  else if artifact.required then (acc.1, acc.2 ++ [artifactMessage artifact])
  else (acc.1 ++ [artifactMessage artifact], acc.2)

/-- Check the artifact prerequisites of a phase: the warnings about missing optional artifacts, or
the errors about missing required ones. -/
def checkArtifactPrerequisites (phase : Phase) (workspaceRoot : Option String) (files : Files) :
    Except (List String) (List String) :=
  let (warnings, errors) :=
    phase.requiredArtifacts.foldl (checkArtifact workspaceRoot files) ([], [])
  if errors = [] then .ok warnings else .error errors

/-- Every required artifact of the phase exists. -/
def Phase.ArtifactsExist (phase : Phase) (files : Files) : Prop :=
  ∀ a ∈ phase.requiredArtifacts, a.required = true → files (artifactPath none a.path) = true

instance (phase : Phase) (files : Files) : Decidable (phase.ArtifactsExist files) :=
  inferInstanceAs (Decidable (∀ a ∈ phase.requiredArtifacts, _))

theorem checkArtifact_errors_eq_nil (root : Option String) (files : Files)
    (l : List ArtifactRequirement) (acc : List String × List String) :
    (l.foldl (checkArtifact root files) acc).2 = [] ↔
      acc.2 = [] ∧ ∀ a ∈ l, a.required = true → files (artifactPath root a.path) = true := by
  induction l generalizing acc with
  | nil => simp
  | cons a l ih =>
    rw [List.foldl_cons, ih]
    unfold checkArtifact
    by_cases hf : files (artifactPath root a.path)
    · simp [hf]
    · cases hr : a.required <;> simp [hf, hr]

/-- The check passes exactly when every required artifact exists. -/
theorem checkArtifactPrerequisites_ok_iff (phase : Phase) (files : Files) :
    (∃ warnings, checkArtifactPrerequisites phase none files = .ok warnings) ↔
      phase.ArtifactsExist files := by
  have h := checkArtifact_errors_eq_nil none files phase.requiredArtifacts ([], [])
  unfold checkArtifactPrerequisites Phase.ArtifactsExist
  simp only [true_and] at h
  by_cases hc : (phase.requiredArtifacts.foldl (checkArtifact none files) ([], [])).2 = []
  · simp only [hc, if_true]
    exact ⟨fun _ => h.mp hc, fun _ => ⟨_, rfl⟩⟩
  · simp only [hc, if_false, reduceCtorEq, exists_false, false_iff]
    exact fun hall => hc (h.mpr hall)

/-! ## The built-in template -/

/-- The built-in implementer/auditor workflow template. -/
def implAuditDefault : WorkflowTemplate where
  schemaVersion := "1.1"
  templateId := "impl-audit"
  name := "Implementer/Auditor"
  description := "Two-phase workflow for implementation handoffs with post-implementation audit. " ++
    "The implementer executes the planned work and verifies it locally. " ++
    "The auditor reviews the code diff, checks for regressions, and validates that " ++
    "all verification evidence is solid before closure."
  phases := [
    { phaseId := "implement"
      role := .implementer
      agentRole := some .worker
      agentTier := .sonnet
      entryGate := ⟨[]⟩
      exitGate := ⟨["code_diff_exists", "verification_passed"]⟩ },
    { phaseId := "audit"
      role := .auditor
      agentRole := some .outputVerifier
      agentTier := .sonnet
      entryGate := ⟨["code_diff_exists", "verification_passed"]⟩
      exitGate := ⟨["audit_clean", "findings_resolved"]⟩ }]
  transitions := [⟨"implement", "audit", "Implementation complete with verification evidence"⟩]

/-- The built-in template passes the registry's check. -/
theorem implAuditDefault_validate : implAuditDefault.validate = .ok () := by decide

end Hymenium
