import Hymenium.Dispatch.Task
import Hymenium.Workflow.Engine

/-!
# Dispatching a workflow

`dispatchWorkflow` (`src/dispatch/orchestrate.rs`): one parent task, one subtask for each phase, the
cancellation of the created subtasks when a later one fails, and the assignment of the first phase.
The calls to Canopy are recorded in order.

What is derived from the handoff text alone (titles, slugs, the description of the parent task and
the task packets) comes in as a `DispatchBrief`.
-/

namespace Hymenium

/-- Options for creating a Canopy task. -/
structure TaskOptions where
  requiredRole : Option AgentRole := none
  requiredTier : Option AgentTier := none
  verificationRequired : Bool := false
  requiredCapabilities : List String := []
  requestedBy : Option String := none
  workflowId : Option String := none
  phaseId : Option String := none
  deriving DecidableEq

/-- A call of dispatch to Canopy. -/
inductive CanopyCall where
  | createTask (title description projectRoot : String) (options : TaskOptions)
  | createSubtask (parentId title description : String) (options : TaskOptions)
  | assignTask (taskId agentId assignedBy : String)
  | cancelTask (taskId : String)
  deriving DecidableEq

/-- Canopy as dispatch sees it. An answer may depend on the calls made so far; `create` answers the
calls that create a task, `act` the others. -/
structure CanopyPort where
  create : List CanopyCall → CanopyCall → Except DispatchError String
  act : List CanopyCall → CanopyCall → Except DispatchError Unit

/-- What dispatch derives from a handoff before it calls Canopy. -/
structure DispatchBrief where
  title : String
  projectRoot : String
  repoName : String
  slug : String
  parentDescription : Except DispatchError String
  phaseDescription : Phase → String

/-- `Display` of a process role. -/
def ProcessRole.toString : ProcessRole → String
  | .implementer => "implementer"
  | .auditor => "auditor"
  | .reviewer => "reviewer"
  | .operator => "operator"

/-- The capability labels that agents working in a repository must have. -/
def capabilitiesForRepo (repo : String) : List String :=
  if repo ∈ ["hymenium", "canopy", "mycelium", "hyphae", "rhizome", "spore", "stipe", "cortina",
      "annulus", "volva"] then ["rust"]
  else if repo = "septa" then ["schema"]
  else if repo = "cap" then ["frontend"]
  else if repo = "lamella" then ["docs"]
  else []

/-- Agent names follow `<role>/<repo>/<handoff-slug>/<run>`. -/
def agentName (role : AgentRole) (repo handoffSlug : String) (run : ℕ) : String :=
  s!"{role.toString}/{repo}/{handoffSlug}/{run}"

namespace DispatchBrief

variable (brief : DispatchBrief)

/-- The call that creates the parent task. -/
def parentCall (description : String) : CanopyCall :=
  .createTask brief.title description brief.projectRoot
    { requiredCapabilities := capabilitiesForRepo brief.repoName
      requestedBy := some "hymenium" }

/-- The call that creates the subtask of a phase. -/
def subtaskCall (workflowId : WorkflowId) (parentId : String) (phase : Phase) : CanopyCall :=
  .createSubtask parentId s!"[{phase.role.toString}] {phase.phaseId} — {brief.title}"
    (brief.phaseDescription phase)
    { requiredRole := phase.agentRole
      requiredTier := some phase.agentTier
      verificationRequired := phase.exitGate.requires ≠ []
      requiredCapabilities := capabilitiesForRepo brief.repoName
      requestedBy := some "hymenium"
      workflowId := some workflowId
      phaseId := some phase.phaseId }

end DispatchBrief

/-- Create a subtask for each phase and store its id. `created` are the subtasks created so far;
they are cancelled when a creation fails, whatever the cancellations answer. -/
def createSubtasks (brief : DispatchBrief) (workflowId : WorkflowId) (canopy : CanopyPort)
    (parentId : String) : List (Phase × PhaseState) → List String → List CanopyCall →
      Except DispatchError (List PhaseState) × List CanopyCall
  | [], _, calls => (.ok [], calls)
  | (phase, state) :: rest, created, calls =>
    let call := brief.subtaskCall workflowId parentId phase
    match canopy.create calls call with
    | .error e => (.error e, calls ++ call :: created.map .cancelTask)
    | .ok subtaskId =>
      match createSubtasks brief workflowId canopy parentId rest (created ++ [subtaskId])
          (calls ++ [call]) with
      | (.error e, calls) => (.error e, calls)
      | (.ok states, calls) =>
        (.ok ({ state with canopyTaskId := some subtaskId } :: states), calls)

/-- Assign the agent of the first phase, and store its name. -/
def assignFirst (agent : String) (canopy : CanopyPort) (states : List PhaseState)
    (calls : List CanopyCall) : Except DispatchError (List PhaseState) × List CanopyCall :=
  match states with
  | [] => (.ok [], calls)
  | first :: rest =>
    match first.canopyTaskId with
    | none => (.ok ({ first with agentId := some agent } :: rest), calls)
    | some taskId =>
      let call := CanopyCall.assignTask taskId agent "hymenium"
      match canopy.act calls call with
      | .error e => (.error e, calls ++ [call])
      | .ok () => (.ok ({ first with agentId := some agent } :: rest), calls ++ [call])

/-- Dispatch a workflow by creating Canopy tasks for each phase. -/
def dispatchWorkflow (brief : DispatchBrief) (template : WorkflowTemplate)
    (workflowId : WorkflowId) (handoffFilePath : String) (canopy : CanopyPort) (now : DateTime) :
    Except DispatchError WorkflowInstance × List CanopyCall :=
  match template.phases with
  | [] => (.error (.invalidState "template has no phases — cannot dispatch"), [])
  | firstPhase :: _ =>
    if brief.slug = "" then
      (.error (.invalidState "handoff title produced an empty slug — cannot form agent name"), [])
    else match brief.parentDescription with
    | .error e => (.error e, [])
    | .ok description =>
      let call := brief.parentCall description
      match canopy.create [] call with
      | .error e => (.error e, [call])
      | .ok parentId =>
        let inst := WorkflowInstance.new workflowId template handoffFilePath now
        match createSubtasks brief workflowId canopy parentId
            (template.phases.zip inst.phaseStates) [] [call] with
        | (.error e, calls) => (.error e, calls)
        | (.ok states, calls) =>
          let agent := agentName firstPhase.effectiveAgentRole brief.repoName brief.slug 1
          match assignFirst agent canopy states calls with
          | (.error e, calls) => (.error e, calls)
          | (.ok states, calls) =>
            (.ok { inst with phaseStates := states, status := .dispatched }, calls)

/-! ## The instance a dispatch returns -/

/-- A phase state without task and agent. -/
def PhaseState.unassigned (p : PhaseState) : PhaseState :=
  { p with agentId := none, canopyTaskId := none }

/-- The instance of a fresh dispatch: apart from task ids and agents, its phases are new. -/
structure FreshDispatch (workflowId : WorkflowId) (template : WorkflowTemplate)
    (inst : WorkflowInstance) : Prop where
  workflowId : inst.workflowId = workflowId
  status : inst.status = .dispatched
  currentPhaseIdx : inst.currentPhaseIdx = 0
  transitions : inst.transitions = []
  template_eq : inst.template = template
  phases : inst.phaseStates.map PhaseState.unassigned =
    template.phases.map fun phase => PhaseState.new phase.phaseId phase.effectiveAgentRole

namespace FreshDispatch

variable {workflowId : WorkflowId} {template : WorkflowTemplate} {inst : WorkflowInstance}

theorem phaseIds (h : FreshDispatch workflowId template inst) :
    inst.phaseStates.map (·.phaseId) = template.phases.map (·.phaseId) := by
  have hids := congrArg (List.map (·.phaseId)) h.phases
  rw [List.map_map, List.map_map] at hids
  exact hids

/-- The phases of a fresh dispatch are pending and were never retried. -/
theorem pending (h : FreshDispatch workflowId template inst) {p : PhaseState}
    (hp : p ∈ inst.phaseStates) : p.status = .pending ∧ p.retryCount = 0 := by
  have hmem : p.unassigned ∈ inst.phaseStates.map PhaseState.unassigned :=
    List.mem_map_of_mem hp
  rw [h.phases] at hmem
  obtain ⟨phase, -, hphase⟩ := List.mem_map.mp hmem
  exact ⟨(congrArg PhaseState.status hphase).symm, (congrArg PhaseState.retryCount hphase).symm⟩

end FreshDispatch

theorem createSubtasks_ok {brief : DispatchBrief} {workflowId : WorkflowId} {canopy : CanopyPort}
    {parentId : String} {phases : List (Phase × PhaseState)} {created : List String}
    {calls calls' : List CanopyCall} {states : List PhaseState}
    (h : createSubtasks brief workflowId canopy parentId phases created calls =
      (.ok states, calls')) :
    states.map PhaseState.unassigned = phases.map fun p => p.2.unassigned := by
  induction phases generalizing created calls calls' states with
  | nil =>
    simp only [createSubtasks, Prod.mk.injEq, Except.ok.injEq] at h
    rw [← h.1]
    rfl
  | cons p rest ih =>
    obtain ⟨phase, state⟩ := p
    rw [createSubtasks] at h
    cases hcreate : canopy.create calls (brief.subtaskCall workflowId parentId phase) with
    | error e => simp [hcreate] at h
    | ok subtaskId =>
      cases hrest : createSubtasks brief workflowId canopy parentId rest (created ++ [subtaskId])
          (calls ++ [brief.subtaskCall workflowId parentId phase]) with
      | mk result calls'' =>
        cases result with
        | error e => simp [hcreate, hrest] at h
        | ok states' =>
          simp only [hcreate, hrest, Prod.mk.injEq, Except.ok.injEq] at h
          rw [← h.1, List.map_cons, List.map_cons, ih hrest]
          rfl

theorem assignFirst_ok {agent : String} {canopy : CanopyPort} {states states' : List PhaseState}
    {calls calls' : List CanopyCall}
    (h : assignFirst agent canopy states calls = (.ok states', calls')) :
    states'.map PhaseState.unassigned = states.map PhaseState.unassigned := by
  cases states with
  | nil =>
    simp only [assignFirst, Prod.mk.injEq, Except.ok.injEq] at h
    rw [← h.1]
  | cons first rest =>
    unfold assignFirst at h
    cases htask : first.canopyTaskId with
    | none =>
      simp only [htask, Prod.mk.injEq, Except.ok.injEq] at h
      rw [← h.1]
      rfl
    | some taskId =>
      cases hact : canopy.act calls (.assignTask taskId agent "hymenium") with
      | error e => simp [htask, hact] at h
      | ok u =>
        simp only [htask, hact, Prod.mk.injEq, Except.ok.injEq] at h
        rw [← h.1]
        rfl

/-- A dispatch that succeeds returns a fresh instance. -/
theorem dispatchWorkflow_ok {brief : DispatchBrief} {template : WorkflowTemplate}
    {workflowId : WorkflowId} {path : String} {canopy : CanopyPort} {now : DateTime}
    {inst : WorkflowInstance} {calls : List CanopyCall}
    (h : dispatchWorkflow brief template workflowId path canopy now = (.ok inst, calls)) :
    FreshDispatch workflowId template inst := by
  unfold dispatchWorkflow at h
  split at h
  · cases h
  next firstPhase rest hphases =>
  split_ifs at h with hslug
  · cases h
  split at h
  · cases h
  next description _ =>
  simp only at h
  split at h
  · cases h
  next parentId _ =>
  split at h
  · cases h
  next states calls₁ hsub =>
  split at h
  · cases h
  next states' calls₂ hassign =>
  cases h
  refine ⟨rfl, rfl, rfl, rfl, rfl, ?_⟩
  have hzip : ∀ phases : List Phase,
      ((phases.zip (phases.map fun phase => PhaseState.new phase.phaseId
        phase.effectiveAgentRole)).map fun p => p.2.unassigned) =
      phases.map fun phase => PhaseState.new phase.phaseId phase.effectiveAgentRole := by
    intro phases
    induction phases with
    | nil => rfl
    | cons phase phases ih =>
      rw [List.map_cons, List.zip_cons_cons, List.map_cons, ih]
      rfl
  calc states'.map PhaseState.unassigned = states.map PhaseState.unassigned :=
        assignFirst_ok hassign
    _ = _ := createSubtasks_ok hsub
    _ = _ := hzip template.phases

end Hymenium
