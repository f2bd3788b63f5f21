import Hymenium.Dispatch.Brief
import Hymenium.Foundations.Json
import Hymenium.Foundations.Options

/-!
# The commands of a dispatch

How the calls of a dispatch leave the process: the command lines of `CliCanopyClient`
(`src/dispatch/cli.rs`), and the typed endpoint that `CapabilityCanopyClient`
(`src/dispatch/capability_client.rs`) prefers for the parent task when a lease or the registry
offers one.

1. A reader of the command line finds again what a call says, except for the tier, and for roles
   that Canopy takes for one (`dispatch_commands_read`); whatever texts a title or an id may be.
2. The typed endpoint is not told as much: it gets the same request from any two handoffs of a
   project (`parentCommand_eq_iff`).

Looking up the binary, its environment and its time limit belong to the operating system; so does
the order in which it lists the leases, which are given as read.
-/

namespace Hymenium

/-! ## Command lines -/

/-- The three roles that Canopy knows. -/
def canopyRequiredRole : AgentRole → String
  | .specAuthor | .workflowPlanner | .packetCompiler | .decompositionChecker
  | .workflowCoordinator => "orchestrator"
  | .worker | .repairWorker => "implementer"
  | .outputVerifier | .finalVerifier => "validator"

/-- `join(",")`. -/
def joinCommas (parts : List String) : String :=
  String.ofList ([','].intercalate (parts.map String.toList))

namespace TaskOptions

variable (options : TaskOptions)

/-- The options that both ways of creating a task write. The tier is not among them. -/
def args : List String :=
  (match options.requiredRole with
    | some role => ["--required-role", canopyRequiredRole role]
    | none => []) ++
  (if options.verificationRequired then ["--verification-required"] else []) ++
  (match options.requestedBy with
    | some requestedBy => ["--requested-by", requestedBy]
    | none => []) ++
  (if options.requiredCapabilities = [] then []
    else ["--required-capabilities", joinCommas options.requiredCapabilities]) ++
  (match options.workflowId with
    | some wid => ["--workflow-id", wid]
    | none => []) ++
  (match options.phaseId with
    | some pid => ["--phase-id", pid]
    | none => [])

end TaskOptions

def buildCreateTaskArgs (title description projectRoot : String) (options : TaskOptions) :
    List String :=
  ["task", "create", "--title", title, "--description", description, "--project-root",
    projectRoot] ++ options.args

def buildCreateSubtaskArgs (parentId title description : String) (options : TaskOptions) :
    List String :=
  ["task", "create", "--parent", parentId, "--title", title, "--description", description] ++
    options.args

def buildAssignTaskArgs (taskId assignedTo assignedBy : String) : List String :=
  ["task", "assign", "--task-id", taskId, "--assigned-to", assignedTo, "--assigned-by", assignedBy]

/-- The command line of a call. -/
def CanopyCall.args : CanopyCall → List String
  | .createTask title description projectRoot options =>
    buildCreateTaskArgs title description projectRoot options
  | .createSubtask parentId title description options =>
    buildCreateSubtaskArgs parentId title description options
  | .assignTask taskId agentId assignedBy => buildAssignTaskArgs taskId agentId assignedBy
  | .cancelTask taskId => ["task", "cancel", taskId, "--cancelled-by", "hymenium"]

/-! ## What the commands say -/

/-- What Canopy is told about a new task. -/
structure TaskTerms where
  role : Option String
  verificationRequired : Bool
  requestedBy : Option String
  capabilities : List String
  workflowId : Option String
  phaseId : Option String
  deriving DecidableEq

/-- What Canopy is asked for. -/
inductive CanopyRequest where
  | createTask (title description projectRoot : String) (terms : TaskTerms)
  | createSubtask (parentId title description : String) (terms : TaskTerms)
  | assignTask (taskId agentId assignedBy : String)
  | cancelTask (taskId : String)
  deriving DecidableEq

/-- What is meant by the options. -/
def TaskOptions.terms (options : TaskOptions) : TaskTerms where
  role := options.requiredRole.map canopyRequiredRole
  verificationRequired := options.verificationRequired
  requestedBy := options.requestedBy
  capabilities := options.requiredCapabilities
  workflowId := options.workflowId
  phaseId := options.phaseId

/-- What is meant by a call. -/
def CanopyCall.request : CanopyCall → CanopyRequest
  | .createTask title description projectRoot options =>
    .createTask title description projectRoot options.terms
  | .createSubtask parentId title description options =>
    .createSubtask parentId title description options.terms
  | .assignTask taskId agentId assignedBy => .assignTask taskId agentId assignedBy
  | .cancelTask taskId => .cancelTask taskId

/-- The options in the order in which they are written. -/
def optionSlots : List (Options.Slot String) :=
  [⟨"--required-role", true⟩, ⟨"--verification-required", false⟩, ⟨"--requested-by", true⟩,
    ⟨"--required-capabilities", true⟩, ⟨"--workflow-id", true⟩, ⟨"--phase-id", true⟩]

/-- `split(',')`. -/
def splitCommas (s : String) : List String := (s.toList.splitOn ',').map String.ofList

/-- Read the options. -/
def readTerms (args : List String) : Option TaskTerms :=
  match Options.decode "" optionSlots args with
  | some [role, verification, requestedBy, capabilities, workflowId, phaseId] =>
    some {
      role
      verificationRequired := verification.isSome
      requestedBy
      capabilities := capabilities.elim [] splitCommas
      workflowId
      phaseId }
  | _ => none

/-- Read a command line. -/
def readCommand : List String → Option CanopyRequest
  | "task" :: "create" :: "--title" :: title :: "--description" :: description ::
      "--project-root" :: projectRoot :: args =>
    (readTerms args).map (.createTask title description projectRoot)
  | "task" :: "create" :: "--parent" :: parentId :: "--title" :: title :: "--description" ::
      description :: args =>
    (readTerms args).map (.createSubtask parentId title description)
  | ["task", "assign", "--task-id", taskId, "--assigned-to", agentId, "--assigned-by",
      assignedBy] => some (.assignTask taskId agentId assignedBy)
  | ["task", "cancel", taskId, "--cancelled-by", _] => some (.cancelTask taskId)
  | _ => none

/-! ## Reading back -/

/-- Labels without commas are found again in their list. -/
theorem splitCommas_joinCommas {parts : List String} (h : ∀ part ∈ parts, ',' ∉ part.toList)
    (hne : parts ≠ []) : splitCommas (joinCommas parts) = parts := by
  have hparts : ∀ part ∈ parts.map String.toList, ',' ∉ part := by
    intro part hpart
    obtain ⟨s, hs, rfl⟩ := List.mem_map.mp hpart
    exact h s hs
  unfold splitCommas joinCommas
  rw [String.toList_ofList, List.splitOn_intercalate ',' hparts (by simpa using hne), List.map_map]
  have hid : String.ofList ∘ String.toList = id := funext fun s => String.ofList_toList
  rw [hid, List.map_id]

namespace TaskOptions

/-- The values in the order of the options. -/
def values (options : TaskOptions) : List (Option String) :=
  [options.requiredRole.map canopyRequiredRole,
    if options.verificationRequired then some "" else none, options.requestedBy,
    if options.requiredCapabilities = [] then none else some (joinCommas options.requiredCapabilities),
    options.workflowId, options.phaseId]

/-- The arguments are those of the general writer. -/
theorem args_eq_encode (options : TaskOptions) :
    options.args = Options.encode (optionSlots.zip options.values) := by
  obtain ⟨role, tier, verification, capabilities, requestedBy, workflowId, phaseId⟩ := options
  unfold args
  simp only [optionSlots, values, List.zip_cons_cons, List.zip_nil_right, Options.encode,
    List.flatMap_cons, List.flatMap_nil, List.append_nil, List.append_assoc]
  congr 1
  · cases role <;> rfl
  congr 1
  · cases verification <;> rfl
  congr 1
  · cases requestedBy <;> rfl
  congr 1
  · split_ifs <;> rfl
  congr 1
  · cases workflowId <;> rfl
  · cases phaseId <;> rfl

/-- The options are read back. -/
theorem readTerms_args {options : TaskOptions}
    (h : ∀ label ∈ options.requiredCapabilities, ',' ∉ label.toList) :
    readTerms options.args = some options.terms := by
  have hlength : optionSlots.length = options.values.length := rfl
  have hswitch : ∀ option ∈ optionSlots.zip options.values, option.1.valued = false →
      option.2 = none ∨ option.2 = some "" := by
    intro option hoption hvalued
    simp only [optionSlots, values, List.zip_cons_cons, List.zip_nil_right, List.mem_cons,
      List.not_mem_nil, or_false] at hoption
    rcases hoption with rfl | rfl | rfl | rfl | rfl | rfl <;> try cases hvalued
    cases options.verificationRequired
    · exact .inl rfl
    · exact .inr rfl
  have hnodup : (optionSlots.map (·.name)).Nodup := by decide
  have hdecode : Options.decode "" ((optionSlots.zip options.values).map Prod.fst)
      (Options.encode (optionSlots.zip options.values)) =
        some ((optionSlots.zip options.values).map Prod.snd) :=
    Options.decode_encode hnodup hswitch
  rw [← args_eq_encode, List.map_fst_zip hlength.le, List.map_snd_zip hlength.ge] at hdecode
  unfold readTerms
  rw [hdecode]
  simp only [values, terms, Option.some.injEq, TaskTerms.mk.injEq, true_and, and_true]
  refine ⟨?_, ?_⟩
  · cases options.verificationRequired <;> rfl
  · split_ifs with hcapabilities
    · exact hcapabilities.symm
    · exact splitCommas_joinCommas h hcapabilities

end TaskOptions

/-- The labels that a call carries. -/
def CanopyCall.labels : CanopyCall → List String
  | .createTask _ _ _ options => options.requiredCapabilities
  | .createSubtask _ _ _ options => options.requiredCapabilities
  | _ => []

/-- A call is read back from its command line, unless a label has a comma. -/
theorem readCommand_args {call : CanopyCall} (h : ∀ label ∈ call.labels, ',' ∉ label.toList) :
    readCommand call.args = some call.request := by
  cases call with
  | createTask title description projectRoot options =>
    show (readTerms options.args).map _ = _
    rw [TaskOptions.readTerms_args h]
    rfl
  | createSubtask parentId title description options =>
    show (readTerms options.args).map _ = _
    rw [TaskOptions.readTerms_args h]
    rfl
  | assignTask taskId agentId assignedBy => rfl
  | cancelTask taskId => rfl

/-! ## The calls of a dispatch -/

section Calls

variable (brief : DispatchBrief) (workflowId : WorkflowId) (canopy : CanopyPort)

/-- What dispatch calls: the parent once, and what always goes over the command line. -/
def CanopyCall.Dispatched : CanopyCall → Prop
  | .createTask title description projectRoot options =>
    CanopyCall.createTask title description projectRoot options = brief.parentCall description
  | .createSubtask _ _ _ options => options.requiredCapabilities = capabilitiesForRepo brief.repoName
  | _ => True

theorem dispatched_createSubtasks (parentId : String) (phases : List (Phase × PhaseState))
    (created : List String) {calls : List CanopyCall} (h : ∀ call ∈ calls, call.Dispatched brief) :
    ∀ call ∈ (createSubtasks brief workflowId canopy parentId phases created calls).2,
      call.Dispatched brief := by
  induction phases generalizing created calls with
  | nil => exact h
  | cons p rest ih =>
    obtain ⟨phase, state⟩ := p
    have hcall : (brief.subtaskCall workflowId parentId phase).Dispatched brief := rfl
    rw [createSubtasks]
    split
    · refine List.forall_mem_append.mpr ⟨h, List.forall_mem_cons.mpr ⟨hcall, fun call hmem => ?_⟩⟩
      obtain ⟨id, -, rfl⟩ := List.mem_map.mp hmem
      trivial
    next subtaskId _ =>
    have hcalls : ∀ call ∈ calls ++ [brief.subtaskCall workflowId parentId phase],
        call.Dispatched brief :=
      List.forall_mem_append.mpr ⟨h, List.forall_mem_singleton.mpr hcall⟩
    have hrest := ih (created ++ [subtaskId]) hcalls
    split
    next hsub =>
      rw [hsub] at hrest
      exact hrest
    next hsub =>
      rw [hsub] at hrest
      exact hrest

theorem dispatched_assignFirst (agent : String) (states : List PhaseState)
    {calls : List CanopyCall} (h : ∀ call ∈ calls, call.Dispatched brief) :
    ∀ call ∈ (assignFirst agent canopy states calls).2, call.Dispatched brief := by
  unfold assignFirst
  split
  · exact h
  split
  · exact h
  next taskId _ =>
  have hcalls : ∀ call ∈ calls ++ [CanopyCall.assignTask taskId agent "hymenium"],
      call.Dispatched brief := List.forall_mem_append.mpr ⟨h, List.forall_mem_singleton.mpr trivial⟩
  dsimp only
  split <;> exact hcalls

theorem dispatched_dispatchWorkflow (template : WorkflowTemplate) (path : String) (now : DateTime) :
    ∀ call ∈ (dispatchWorkflow brief template workflowId path canopy now).2,
      call.Dispatched brief := by
  unfold dispatchWorkflow
  split
  · exact fun _ h => nomatch h
  next firstPhase _ _ =>
  split_ifs
  · exact fun _ h => nomatch h
  split
  · exact fun _ h => nomatch h
  next description _ =>
  have hparent : ∀ call ∈ [brief.parentCall description], call.Dispatched brief :=
    List.forall_mem_singleton.mpr rfl
  dsimp only
  split
  · exact hparent
  next parentId _ =>
  have hsubtasks := dispatched_createSubtasks brief workflowId canopy parentId
    (template.phases.zip (WorkflowInstance.new workflowId template path now).phaseStates) [] hparent
  split
  next hsub =>
    rw [hsub] at hsubtasks
    exact hsubtasks
  next states calls hsub =>
    rw [hsub] at hsubtasks
    have hassign := dispatched_assignFirst brief canopy
      (agentName firstPhase.effectiveAgentRole brief.repoName brief.slug 1) states hsubtasks
    split
    next hfirst =>
      rw [hfirst] at hassign
      exact hassign
    next hfirst =>
      rw [hfirst] at hassign
      exact hassign

/-- No label of a repository has a comma. -/
theorem not_comma_capabilitiesForRepo {repo label : String} (h : label ∈ capabilitiesForRepo repo) :
    ',' ∉ label.toList := by
  unfold capabilitiesForRepo at h
  split_ifs at h <;> simp at h <;> subst h <;> simp

/-- The calls of a dispatch carry the labels of its repository. -/
theorem CanopyCall.Dispatched.labels {brief : DispatchBrief} {call : CanopyCall}
    (h : call.Dispatched brief) : ∀ label ∈ call.labels, ',' ∉ label.toList := by
  cases call with
  | createTask title description projectRoot options =>
    simp only [CanopyCall.Dispatched, DispatchBrief.parentCall, CanopyCall.createTask.injEq] at h
    obtain ⟨-, -, -, rfl⟩ := h
    exact fun label => not_comma_capabilitiesForRepo
  | createSubtask parentId title description options =>
    intro label hlabel
    rw [CanopyCall.labels, h] at hlabel
    exact not_comma_capabilitiesForRepo hlabel
  | assignTask _ _ _ => exact List.forall_mem_nil _
  | cancelTask _ => exact List.forall_mem_nil _

end Calls

/-! ## The typed endpoint -/

/-- Transport kind used to call a capability endpoint. -/
inductive TransportKind where
  | stdio | unixSocket | tcp | cli
  deriving DecidableEq

/-- A runtime lease. -/
structure RuntimeLease where
  tool : String
  capabilityId : String
  transport : TransportKind
  expiresAtUnix : Option ℕ
  endpoint : Option String
  command : Option String
  version : Option String
  deriving DecidableEq

/-- The lease has passed its deadline. -/
def RuntimeLease.isExpired (lease : RuntimeLease) (now : ℕ) : Bool :=
  match lease.expiresAtUnix with
  | none => false
  | some expires => now > expires

/-- Last known health state for a registry entry. -/
inductive RegistryHealthStatus where
  | ok | degraded | missing
  deriving DecidableEq

/-- One entry in the installed capability registry. -/
structure RegistryEntry where
  tool : String
  version : String
  capabilityIds : List String
  transport : TransportKind
  binaryPath : Option String
  health : Option RegistryHealthStatus
  deriving DecidableEq

/-- A resolved endpoint candidate for a requested capability id. -/
structure EndpointCandidate where
  tool : String
  transport : TransportKind
  endpoint : Option String
  command : Option String
  version : Option String
  fromLease : Bool
  deriving DecidableEq

/-- What is installed and running: the leases in the order of their directory, and the registry,
which may be missing or unreadable. -/
structure Capabilities where
  now : ℕ
  leases : List RuntimeLease
  registry : Except String (Option (List RegistryEntry))

namespace Capabilities

variable (caps : Capabilities)

/-- Live leases first, then the registry. -/
def resolveCapability (capabilityId : String) : Except String (Option EndpointCandidate) :=
  match caps.leases.find? fun lease =>
      lease.capabilityId = capabilityId ∧ ¬lease.isExpired caps.now with
  | some lease => .ok (some {
      tool := lease.tool
      transport := lease.transport
      endpoint := lease.endpoint
      command := lease.command
      version := lease.version
      fromLease := true })
  | none =>
    match caps.registry with
    | .error e => .error e
    | .ok none => .ok none
    | .ok (some entries) =>
      .ok ((entries.find? fun entry =>
        capabilityId ∈ entry.capabilityIds ∧ entry.health ≠ some .missing).map fun entry => {
          tool := entry.tool
          transport := entry.transport
          endpoint := none
          command := entry.binaryPath
          version := some entry.version
          fromLease := false })

def dispatchCapability : String := "workflow.dispatch.v1"

/-- An error of the resolution counts as no endpoint. -/
def resolveDispatchEndpoint : Option EndpointCandidate :=
  match caps.resolveCapability dispatchCapability with
  | .ok candidate => candidate
  | .error _ => none

/-- The command that takes typed requests. -/
def typedCommand : Option String :=
  match caps.resolveDispatchEndpoint with
  | none => none
  | some candidate => if candidate.transport = .cli then candidate.command else none

end Capabilities

/-- The `dispatch-request-v1` payload of a task. Title and description are not in it. -/
def buildDispatchRequest (projectRoot : String) (options : TaskOptions) : Json :=
  .object [
    ("schema_version", .string "1.0"),
    ("handoff_path", .string ""),
    ("workflow_template", .string (options.workflowId.getD "impl-audit")),
    ("project_root", .string projectRoot),
    ("target_repo", .string (((fileName projectRoot.toList).map String.ofList).getD projectRoot)),
    ("priority", .string "medium"),
    ("depends_on", .array [])]

/-- What is executed for a call. -/
inductive CanopyCommand where
  /-- `<command> dispatch submit -`, with the request on its standard input. -/
  | submit (command : String) (request : Json)
  | canopy (args : List String)

/-- Tasks are created through the typed endpoint where there is one; all else goes over the command
line. -/
def CanopyCall.command (caps : Capabilities) : CanopyCall → CanopyCommand
  | .createTask title description projectRoot options =>
    match caps.typedCommand with
    | some command => .submit command (buildDispatchRequest projectRoot options)
    | none => .canopy (buildCreateTaskArgs title description projectRoot options)
  | call => .canopy call.args

/-- The command is offered for dispatch: by a live lease, or, where there is no live lease, by an
installed tool that is not missing. -/
def Capabilities.Offers (caps : Capabilities) (command : String) : Prop :=
  (∃ lease ∈ caps.leases, lease.capabilityId = dispatchCapability ∧ ¬lease.isExpired caps.now ∧
    lease.transport = .cli ∧ lease.command = some command) ∨
  ((∀ lease ∈ caps.leases, lease.capabilityId = dispatchCapability → lease.isExpired caps.now) ∧
    ∃ entries, caps.registry = .ok (some entries) ∧ ∃ entry ∈ entries,
      dispatchCapability ∈ entry.capabilityIds ∧ entry.health ≠ some .missing ∧
        entry.transport = .cli ∧ entry.binaryPath = some command)

/-- A typed request goes to a command that is offered. -/
theorem Capabilities.offers_of_typedCommand {caps : Capabilities} {command : String}
    (h : caps.typedCommand = some command) : caps.Offers command := by
  unfold typedCommand resolveDispatchEndpoint resolveCapability at h
  cases hlease : caps.leases.find? fun lease =>
      lease.capabilityId = dispatchCapability ∧ ¬lease.isExpired caps.now with
  | some lease =>
    rw [hlease] at h
    dsimp only at h
    split_ifs at h with htransport
    have hlive := List.find?_some hlease
    simp only [decide_eq_true_eq] at hlive
    exact .inl ⟨lease, List.mem_of_find?_eq_some hlease, hlive.1, hlive.2, htransport, h⟩
  | none =>
    rw [hlease] at h
    have hexpired : ∀ lease ∈ caps.leases, lease.capabilityId = dispatchCapability →
        lease.isExpired caps.now := by
      intro lease hmem hid
      have hnot := List.find?_eq_none.mp hlease lease hmem
      simpa [hid] using hnot
    cases hregistry : caps.registry with
    | error e =>
      rw [hregistry] at h
      cases h
    | ok entries? =>
      rw [hregistry] at h
      cases entries? with
      | none => cases h
      | some entries =>
        dsimp only at h
        cases hentry : entries.find? fun entry =>
            dispatchCapability ∈ entry.capabilityIds ∧ entry.health ≠ some .missing with
        | none =>
          rw [hentry] at h
          cases h
        | some entry =>
          rw [hentry] at h
          dsimp only [Option.map_some] at h
          split_ifs at h with htransport
          have hentry' := List.find?_some hentry
          simp only [decide_eq_true_eq] at hentry'
          exact .inr ⟨hexpired, entries, hregistry, entry, List.mem_of_find?_eq_some hentry, hentry'.1,
            hentry'.2, htransport, h⟩

/-! ## What Canopy learns -/

/-- **Commands of a dispatch.** Whatever Canopy answers, and whatever the texts of the handoff: each
call is read back from the command line it becomes, or it is the parent task, and goes to an offered
command as the typed request of its project. -/
theorem dispatch_commands_read (caps : Capabilities) (brief : DispatchBrief)
    (template : WorkflowTemplate) (workflowId : WorkflowId) (path : String) (canopy : CanopyPort)
    (now : DateTime) :
    ∀ call ∈ (dispatchWorkflow brief template workflowId path canopy now).2,
      (∃ args, call.command caps = .canopy args ∧ readCommand args = some call.request) ∨
      ∃ command description, call = brief.parentCall description ∧ caps.Offers command ∧
        call.command caps = .submit command (buildDispatchRequest brief.projectRoot {}) := by
  intro call hmem
  have hcall := dispatched_dispatchWorkflow brief workflowId canopy template path now call hmem
  have hread : readCommand call.args = some call.request := readCommand_args hcall.labels
  cases call with
  | createTask title description projectRoot options =>
    cases htyped : caps.typedCommand with
    | none =>
      refine .inl ⟨_, ?_, hread⟩
      rw [CanopyCall.command, htyped]
      rfl
    | some command =>
      refine .inr ⟨command, description, hcall, caps.offers_of_typedCommand htyped, ?_⟩
      rw [hcall]
      unfold DispatchBrief.parentCall
      rw [CanopyCall.command, htyped]
      rfl
  | createSubtask parentId title description options => exact .inl ⟨_, rfl, hread⟩
  | assignTask taskId agentId assignedBy => exact .inl ⟨_, rfl, hread⟩
  | cancelTask taskId => exact .inl ⟨_, rfl, hread⟩

/-- Without an endpoint the parent task goes over the command line. -/
theorem dispatch_commands_read_fixIt :
    let call := CanopyCall.createTask "Fix it" "do it" "." ⟨none, none, false, ["rust"],
      some "hymenium", none, none⟩
    ∃ args, call.command ⟨0, [], .ok none⟩ = .canopy args ∧
      readCommand args = some call.request := by
  intro call
  let brief : DispatchBrief := ⟨"Fix it", ".", "hymenium", "fix-it", .ok "do it", (·.phaseId)⟩
  have hmem : call ∈ (dispatchWorkflow brief implAuditDefault "wf" "handoff.md" refusingCanopy 0).2 :=
    List.mem_cons_self
  rcases dispatch_commands_read ⟨0, [], .ok none⟩ brief implAuditDefault "wf" "handoff.md"
    refusingCanopy 0 call hmem with hread | ⟨command, _, _, _, hsubmit⟩
  · exact hread
  · cases hsubmit

/-- **Parent tasks.** Two dispatches ask for their parent tasks with the same command exactly when
title, description, project and labels are the same; but over a typed endpoint, exactly when the
project is. -/
theorem parentCommand_eq_iff (caps : Capabilities) (brief other : DispatchBrief)
    (description description' : String) :
    (brief.parentCall description).command caps = (other.parentCall description').command caps ↔
      brief.projectRoot = other.projectRoot ∧ (caps.typedCommand = none →
        brief.title = other.title ∧ description = description' ∧
          capabilitiesForRepo brief.repoName = capabilitiesForRepo other.repoName) := by
  unfold DispatchBrief.parentCall
  cases htyped : caps.typedCommand with
  | some command =>
    simp only [CanopyCall.command, htyped, CanopyCommand.submit.injEq, true_and, reduceCtorEq,
      false_implies, and_true]
    constructor
    · intro h
      simp only [buildDispatchRequest, Json.object.injEq, List.cons.injEq, Prod.mk.injEq,
        Json.string.injEq, true_and] at h
      exact h.1
    · intro h
      rw [h]
      rfl
  | none =>
    simp only [CanopyCall.command, htyped, CanopyCommand.canopy.injEq, true_implies]
    constructor
    · intro h
      have hread : readCommand (brief.parentCall description).args = _ :=
        readCommand_args fun label => not_comma_capabilitiesForRepo
      have hread' : readCommand (other.parentCall description').args = _ :=
        readCommand_args fun label => not_comma_capabilitiesForRepo
      have hsame := hread.symm.trans ((congrArg readCommand h).trans hread')
      simp only [DispatchBrief.parentCall, CanopyCall.request, TaskOptions.terms,
        Option.some.injEq, CanopyRequest.createTask.injEq, TaskTerms.mk.injEq, true_and,
        and_true] at hsame
      obtain ⟨htitle, hdescription, hroot, hlabels⟩ := hsame
      exact ⟨hroot, htitle, hdescription, hlabels⟩
    · rintro ⟨hroot, htitle, hdescription, hlabels⟩
      rw [hroot, htitle, hdescription, hlabels]

end Hymenium
