import Hymenium.Foundations.Json
import Hymenium.Workflow.Template

/-!
# Template files

The JSON form of a workflow template (the serde attributes of `src/workflow/template.rs` and of
`PhaseRubric` in `src/workflow/gate.rs`) and `load_from_json`. The store keeps the same form in the
`template_json` column.

A file holds more of a phase than the engine reads: `PhaseConfig` is a `Phase` with its rubric and
with what its task packet carries. JSON text is a `Json` here; the printing and reading of the text
is that of the JSON library. As that library does, structures are read from arrays of their fields
too, and the values of enumerations from objects.

1. Writing: a template that is written is loaded back if and only if it is valid and no response
   format is null (`loadFromJson_encode_iff`).
2. Reading: what is accepted is well formed, and accepted again after being written
   (`loadFromJson_ok`).
-/

namespace Hymenium

/-- How a rubric is probed. -/
inductive ProbeMethod where
  | fileExists | canaryString | exitCode
  deriving DecidableEq

/-- Named rubric for phase verification. -/
structure PhaseRubric where
  condition : String
  probeMethod : ProbeMethod
  passCriteria : String
  failCriteria : String
  exclusions : List String

/-- A phase as a template file has it. -/
structure PhaseConfig extends Phase where
  rubric : Option PhaseRubric := none
  responseFormat : Option Json.Value := none
  requestHeartbeat : Bool := false

/-- A template as its file has it. -/
structure TemplateConfig where
  schemaVersion : String
  templateId : String
  name : String
  description : String
  phases : List PhaseConfig
  transitions : List Transition
  maxToolFailurePerPhase : UInt32 := 10
  maxRequestsPerPhase : UInt32 := 50

/-- The template of the engine. -/
def TemplateConfig.toTemplate (config : TemplateConfig) : WorkflowTemplate where
  schemaVersion := config.schemaVersion
  templateId := config.templateId
  name := config.name
  description := config.description
  phases := config.phases.map PhaseConfig.toPhase
  transitions := config.transitions
  maxToolFailurePerPhase := config.maxToolFailurePerPhase
  maxRequestsPerPhase := config.maxRequestsPerPhase

/-! ## The JSON form -/

def ProbeMethod.toString : ProbeMethod → String
  | .fileExists => "file_exists"
  | .canaryString => "canary_string"
  | .exitCode => "exit_code"

def AgentTier.toString : AgentTier → String
  | .opus => "opus"
  | .sonnet => "sonnet"
  | .haiku => "haiku"
  | .any => "any"

/-- The serde name of a process role. -/
def ProcessRole.serdeName : ProcessRole → String
  | .implementer => "implementer"
  | .auditor => "auditor"
  | .reviewer => "reviewer"
  | .operator => "operator"

open Fields

def probeMethodJson : Codec ProbeMethod :=
  .enum [.fileExists, .canaryString, .exitCode] ProbeMethod.toString
    (by rintro ⟨⟩ <;> decide) (by decide)

def agentTierJson : Codec AgentTier :=
  .enum [.opus, .sonnet, .haiku, .any] AgentTier.toString (by rintro ⟨⟩ <;> decide) (by decide)

def processRoleJson : Codec ProcessRole :=
  .enum [.implementer, .auditor, .reviewer, .operator] ProcessRole.serdeName
    (by rintro ⟨⟩ <;> decide) (by decide)

def agentRoleJson : Codec AgentRole :=
  .enum [.specAuthor, .workflowPlanner, .packetCompiler, .decompositionChecker,
    .workflowCoordinator, .worker, .outputVerifier, .repairWorker, .finalVerifier]
    AgentRole.toString (by rintro ⟨⟩ <;> decide) (by decide)

def gateJson : Codec Gate :=
  ((required "requires" (.list .string)).imap
    ⟨fun requires => ⟨requires⟩, fun gate => gate.requires, fun _ => rfl, fun _ => rfl⟩).object

def artifactRequirementJson : Codec ArtifactRequirement :=
  ((required "path" .string).pair
    ((required "description" .string).pair
      (defaulted "required" .bool true trivial)
      (by decide)) (by decide) |>.imap
    ⟨fun (path, description, required) => { path, description, required },
      fun a => (a.path, a.description, a.required), fun _ => rfl, fun _ => rfl⟩).object

def phaseRubricJson : Codec PhaseRubric :=
  ((required "condition" .string).pair
    ((required "probe_method" probeMethodJson).pair
      ((required "pass_criteria" .string).pair
        ((required "fail_criteria" .string).pair
          (required "exclusions" (.list .string))
          (by decide)) (by decide)) (by decide)) (by decide) |>.imap
    ⟨fun (condition, probeMethod, passCriteria, failCriteria, exclusions) =>
        { condition, probeMethod, passCriteria, failCriteria, exclusions },
      fun r => (r.condition, r.probeMethod, r.passCriteria, r.failCriteria, r.exclusions),
      fun _ => rfl, fun _ => rfl⟩).object

def transitionJson : Codec Transition :=
  ((required "from_phase" .string).pair
    ((required "to_phase" .string).pair
      (required "condition" .string)
      (by decide)) (by decide) |>.imap
    ⟨fun (fromPhase, toPhase, condition) => { fromPhase, toPhase, condition },
      fun t => (t.fromPhase, t.toPhase, t.condition), fun _ => rfl, fun _ => rfl⟩).object

def phaseJson : Codec PhaseConfig :=
  ((required "phase_id" .string).pair
    ((required "role" processRoleJson).pair
      ((skipped "agent_role" agentRoleJson false).pair
        ((required "agent_tier" agentTierJson).pair
          ((required "entry_gate" gateJson).pair
            ((required "exit_gate" gateJson).pair
              ((skipped "rubric" phaseRubricJson false).pair
                ((skipped "max_tool_failure_per_phase" .uint32 false).pair
                  ((skipped "max_requests_per_phase" .uint32 false).pair
                    ((defaulted "required_artifacts" (.list artifactRequirementJson) []
                        (by simp [Codec.list])).pair
                      ((skipped "response_format" .value true).pair
                        (defaulted "request_heartbeat" .bool false trivial)
      (by decide)) (by decide)) (by decide)) (by decide)) (by decide)) (by decide)) (by decide))
      (by decide)) (by decide)) (by decide)) (by decide) |>.imap
    ⟨fun (phaseId, role, agentRole, agentTier, entryGate, exitGate, rubric, maxToolFailurePerPhase,
        maxRequestsPerPhase, requiredArtifacts, responseFormat, requestHeartbeat) =>
        { phaseId, role, agentRole, agentTier, entryGate, exitGate, rubric, maxToolFailurePerPhase,
          maxRequestsPerPhase, requiredArtifacts, responseFormat, requestHeartbeat },
      fun p => (p.phaseId, p.role, p.agentRole, p.agentTier, p.entryGate, p.exitGate, p.rubric,
        p.maxToolFailurePerPhase, p.maxRequestsPerPhase, p.requiredArtifacts, p.responseFormat,
        p.requestHeartbeat), fun _ => rfl, fun _ => rfl⟩).object

def templateFields : Fields TemplateConfig :=
  (required "schema_version" .string).pair
    ((required "template_id" .string).pair
      ((required "name" .string).pair
        ((required "description" .string).pair
          ((required "phases" (.list phaseJson)).pair
            ((required "transitions" (.list transitionJson)).pair
              ((defaulted "max_tool_failure_per_phase" .uint32 10 trivial).pair
                (defaulted "max_requests_per_phase" .uint32 50 trivial)
      (by decide)) (by decide)) (by decide)) (by decide)) (by decide)) (by decide)) (by decide) |>.imap
    ⟨fun (schemaVersion, templateId, name, description, phases, transitions,
        maxToolFailurePerPhase, maxRequestsPerPhase) =>
        { schemaVersion, templateId, name, description, phases, transitions,
          maxToolFailurePerPhase, maxRequestsPerPhase },
      fun t => (t.schemaVersion, t.templateId, t.name, t.description, t.phases, t.transitions,
        t.maxToolFailurePerPhase, t.maxRequestsPerPhase), fun _ => rfl, fun _ => rfl⟩

def templateJson : Codec TemplateConfig := templateFields.object

/-- Only a response format that is present and null is lost. -/
theorem phaseJson_stable (p : PhaseConfig) :
    phaseJson.Stable p ↔ p.responseFormat ≠ some .null := by
  have hrole : agentRoleJson.Total := Codec.enum_total _ _ _ _
  have hrubric : phaseRubricJson.Total := fun r =>
    ⟨⟨trivial, trivial, trivial, trivial, fun _ _ => trivial⟩, nofun⟩
  have hartifact : artifactRequirementJson.Total := fun a => ⟨⟨trivial, trivial, trivial⟩, nofun⟩
  constructor
  · rintro ⟨-, -, -, -, -, -, -, -, -, -, hformat, -⟩ hnull
    exact (hformat .null hnull).2 rfl
  · intro hformat
    refine ⟨trivial, trivial, hrole.option _, trivial, fun _ _ => trivial,
      fun _ _ => trivial, hrubric.option _, Codec.uint32_total.option _,
      Codec.uint32_total.option _, (hartifact.list _).1, fun v hv => ⟨trivial, ?_⟩, trivial⟩
    intro hnull
    obtain rfl : v = .null := Json.Value.ext hnull
    exact hformat hv

theorem templateJson_stable (config : TemplateConfig) :
    templateJson.Stable config ↔ ∀ p ∈ config.phases, p.responseFormat ≠ some .null := by
  have htransition : transitionJson.Total := fun t => ⟨⟨trivial, trivial, trivial⟩, nofun⟩
  constructor
  · rintro ⟨-, -, -, -, hphases, -⟩ p hp
    exact (phaseJson_stable p).mp (hphases p hp)
  · intro hphases
    exact ⟨trivial, trivial, trivial, trivial, fun p hp => (phaseJson_stable p).mpr (hphases p hp),
      (htransition.list _).1, trivial, trivial⟩

/-! ## Loading -/

inductive LoadError where
  /-- The text is no JSON, or not that of a template. -/
  | parseError
  | invalid (e : TemplateError)
  deriving DecidableEq

/-- Load a workflow template from the value of a JSON text, if it has one. -/
def loadFromJson (json : Option Json) : Except LoadError TemplateConfig :=
  match json.bind templateJson.decode with
  | none => .error .parseError
  | some config =>
    match config.toTemplate.validate with
    | .error e => .error (.invalid e)
    | .ok () => .ok config

theorem loadFromJson_ok_iff {json : Option Json} {config : TemplateConfig} :
    loadFromJson json = .ok config ↔
      json.bind templateJson.decode = some config ∧ config.toTemplate.validate = .ok () := by
  unfold loadFromJson
  cases hdecode : json.bind templateJson.decode with
  | none => simp
  | some config' =>
    cases hvalid : config'.toTemplate.validate with
    | error e =>
      refine ⟨fun h => by simp [hvalid] at h, ?_⟩
      rintro ⟨he, hok⟩
      rw [← Option.some.inj he, hvalid] at hok
      cases hok
    | ok u =>
      simp only [hvalid, Except.ok.injEq, Option.some.injEq]
      refine ⟨fun he => ⟨he, he ▸ hvalid⟩, fun h => h.1⟩

theorem checkTransitions_ok_iff (phaseIds : List String) (transitions : List Transition) :
    checkTransitions phaseIds transitions = .ok () ↔
      ∀ t ∈ transitions, t.fromPhase ∈ phaseIds ∧ t.toPhase ∈ phaseIds := by
  induction transitions with
  | nil => simp [checkTransitions]
  | cons t rest ih =>
    unfold checkTransitions
    rw [List.forall_mem_cons]
    by_cases h : t.fromPhase ∉ phaseIds ∨ t.toPhase ∉ phaseIds
    · rw [if_pos h]
      refine ⟨nofun, fun hall => ?_⟩
      rcases h with h | h
      · exact absurd hall.1.1 h
      · exact absurd hall.1.2 h
    · rw [if_neg h, ih]
      rw [not_or, not_not, not_not] at h
      exact ⟨fun hrest => ⟨h, hrest⟩, fun hall => hall.2⟩

/-- The phase ids are distinct, and every transition is between phases. -/
structure WorkflowTemplate.WellFormed (template : WorkflowTemplate) : Prop where
  nodup : (template.phases.map (·.phaseId)).Nodup
  closed : ∀ t ∈ template.transitions,
    (∃ p ∈ template.phases, p.phaseId = t.fromPhase) ∧ ∃ p ∈ template.phases, p.phaseId = t.toPhase

theorem WorkflowTemplate.validate_ok_iff (template : WorkflowTemplate) :
    template.validate = .ok () ↔ template.WellFormed := by
  have hids : checkPhaseIds template.phases [] = .ok () ↔
      (template.phases.map (·.phaseId)).Nodup := by
    simp [checkPhaseIds_ok_iff]
  have htransitions := checkTransitions_ok_iff (template.phases.map (·.phaseId)) template.transitions
  simp only [List.mem_map] at htransitions
  unfold validate
  constructor
  · intro h
    cases hcheck : checkPhaseIds template.phases [] with
    | error e => simp [hcheck, bind, Except.bind] at h
    | ok u =>
      rw [hcheck] at h
      exact ⟨hids.mp hcheck, htransitions.mp h⟩
  · rintro ⟨hnodup, hclosed⟩
    rw [hids.mpr hnodup]
    exact htransitions.mpr hclosed

/-- A file of one phase that leaves out what may be left out. The role and the gates are written in
the other forms. -/
def sparseTemplate : Json :=
  .object [("schema_version", .string "1.1"), ("template_id", .string "impl"),
    ("name", .string "Implementer"), ("description", .string "One phase"),
    ("phases", .array [.object [("phase_id", .string "implement"),
      ("role", .object [("implementer", .null)]), ("agent_tier", .string "sonnet"),
      ("entry_gate", .array [.array []]),
      ("exit_gate", .array [.array [.string "code_diff_exists"]])]]),
    ("transitions", .array [])]

/-- Its template, with the defaults. -/
def sparseConfig : TemplateConfig where
  schemaVersion := "1.1"
  templateId := "impl"
  name := "Implementer"
  description := "One phase"
  phases := [
    { phaseId := "implement"
      role := .implementer
      agentRole := none
      agentTier := .sonnet
      entryGate := ⟨[]⟩
      exitGate := ⟨["code_diff_exists"]⟩ }]
  transitions := []

end Hymenium
