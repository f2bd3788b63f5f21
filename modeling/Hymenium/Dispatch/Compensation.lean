import Hymenium.Dispatch.Orchestrate

/-!
# Compensation of a partial dispatch

When the creation of a subtask fails, `dispatchWorkflow` cancels the subtasks created before it, and
the cancellations are exactly the subtasks Canopy created. The assignment that follows the creations
has no such arm: a dispatch that fails there leaves every subtask behind.
-/

namespace Hymenium

/-! ## Call logs -/

namespace CanopyCall

/-- The call creates a task. -/
def creates : CanopyCall → Bool
  | .createTask .. => true
  | .createSubtask .. => true
  | .assignTask .. => false
  | .cancelTask _ => false

/-- The call creates a subtask. -/
def createsSubtask : CanopyCall → Bool
  | .createSubtask .. => true
  | _ => false

/-- The task the call cancels. -/
def cancels : CanopyCall → Option String
  | .cancelTask taskId => some taskId
  | _ => none

theorem cancels_map (ids : List String) : (ids.map cancelTask).filterMap cancels = ids := by
  induction ids with
  | nil => rfl
  | cons id ids ih =>
    show id :: (ids.map cancelTask).filterMap cancels = _
    rw [ih]

end CanopyCall

namespace CanopyPort

variable (canopy : CanopyPort)

/-- The ids Canopy returned for the calls of a kind in a log that goes on from `before`. -/
def created (kind : CanopyCall → Bool) : List CanopyCall → List CanopyCall → List String
  | _, [] => []
  | before, call :: calls =>
    (if kind call then (canopy.create before call).toOption.toList else []) ++
      created kind (before ++ [call]) calls

/-- The ids Canopy returns when it is asked for one task after the other, up to the first error. -/
def createAll : List CanopyCall → List CanopyCall → Except DispatchError (List String)
  | _, [] => .ok []
  | before, call :: calls =>
    match canopy.create before call with
    | .error e => .error e
    | .ok id =>
      match createAll (before ++ [call]) calls with
      | .error e => .error e
      | .ok ids => .ok (id :: ids)

variable {canopy} {kind : CanopyCall → Bool}

theorem created_append (before calls calls' : List CanopyCall) :
    canopy.created kind before (calls ++ calls') =
      canopy.created kind before calls ++ canopy.created kind (before ++ calls) calls' := by
  induction calls generalizing before with
  | nil => simp [created]
  | cons call calls ih =>
    rw [List.cons_append, created, created, ih, List.append_assoc, List.append_assoc]
    rfl

theorem created_eq_nil {calls : List CanopyCall} (h : ∀ call ∈ calls, kind call = false)
    (before : List CanopyCall) : canopy.created kind before calls = [] := by
  induction calls generalizing before with
  | nil => rfl
  | cons call calls ih =>
    rw [created, h call List.mem_cons_self, ih fun c hc => h c (List.mem_cons_of_mem _ hc)]
    rfl

theorem createAll_cons_ok {before : List CanopyCall} {call : CanopyCall} {calls : List CanopyCall}
    {ids : List String} : canopy.createAll before (call :: calls) = .ok ids ↔
      ∃ id rest, canopy.create before call = .ok id ∧
        canopy.createAll (before ++ [call]) calls = .ok rest ∧ ids = id :: rest := by
  rw [createAll]
  cases canopy.create before call with
  | error e => simp
  | ok id =>
    cases canopy.createAll (before ++ [call]) calls with
    | error e => simp
    | ok rest => simp [eq_comm]

theorem createAll_cons_error {before : List CanopyCall} {call : CanopyCall}
    {calls : List CanopyCall} {e : DispatchError} :
    canopy.createAll before (call :: calls) = .error e ↔
      canopy.create before call = .error e ∨ ∃ id, canopy.create before call = .ok id ∧
        canopy.createAll (before ++ [call]) calls = .error e := by
  rw [createAll]
  cases canopy.create before call with
  | error e => simp
  | ok id =>
    cases canopy.createAll (before ++ [call]) calls with
    | error e => simp
    | ok rest => simp

theorem length_createAll {before calls : List CanopyCall} {ids : List String}
    (h : canopy.createAll before calls = .ok ids) : ids.length = calls.length := by
  induction calls generalizing before ids with
  | nil =>
    cases h
    rfl
  | cons call calls ih =>
    obtain ⟨id, rest, -, hrest, rfl⟩ := createAll_cons_ok.mp h
    rw [List.length_cons, List.length_cons, ih hrest]

/-- The log of creations that all succeed holds the ids they returned. -/
theorem created_of_createAll (kind : CanopyCall → Bool) {calls : List CanopyCall}
    (h : ∀ call ∈ calls, kind call = true) {before : List CanopyCall} {ids : List String}
    (hids : canopy.createAll before calls = .ok ids) :
    canopy.created kind before calls = ids := by
  induction calls generalizing before ids with
  | nil =>
    cases hids
    rfl
  | cons call calls ih =>
    obtain ⟨id, rest, hcreate, hrest, rfl⟩ := createAll_cons_ok.mp hids
    rw [created, h call List.mem_cons_self, hcreate,
      ih (fun c hc => h c (List.mem_cons_of_mem _ hc)) hrest]
    rfl

end CanopyPort

/-! ## The subtask loop -/

section Loop

variable {brief : DispatchBrief} {workflowId : WorkflowId} {canopy : CanopyPort}
  {parentId : String}

/-- The state of a phase whose subtask was created. -/
def PhaseState.withTask (p : PhaseState) (taskId : String) : PhaseState :=
  { p with canopyTaskId := some taskId }

/-- The calls of the subtask loop. -/
def subtaskCalls (brief : DispatchBrief) (workflowId : WorkflowId) (parentId : String)
    (phases : List (Phase × PhaseState)) : List CanopyCall :=
  phases.map fun p => brief.subtaskCall workflowId parentId p.1

/-- When every creation succeeds, the loop makes its calls and stores the ids. -/
theorem createSubtasks_created {phases : List (Phase × PhaseState)} (created : List String)
    {calls : List CanopyCall} {ids : List String}
    (h : canopy.createAll calls (subtaskCalls brief workflowId parentId phases) = .ok ids) :
    createSubtasks brief workflowId canopy parentId phases created calls =
      (.ok (List.zipWith (fun p id => p.2.withTask id) phases ids),
        calls ++ subtaskCalls brief workflowId parentId phases) := by
  induction phases generalizing created calls ids with
  | nil =>
    cases h
    simp [createSubtasks, subtaskCalls]
  | cons p phases ih =>
    obtain ⟨id, rest, hcreate, hrest, rfl⟩ := CanopyPort.createAll_cons_ok.mp h
    have hloop := ih (created ++ [id]) hrest
    simp only [createSubtasks, hcreate, hloop, subtaskCalls, List.map_cons, List.append_assoc,
      List.singleton_append, List.zipWith_cons_cons]
    rfl

/-- When a creation fails, the loop cancels what was created before, all of it and nothing else. -/
theorem createSubtasks_cancelled {phases : List (Phase × PhaseState)} (created : List String)
    {calls : List CanopyCall} {e : DispatchError}
    (h : canopy.createAll calls (subtaskCalls brief workflowId parentId phases) = .error e) :
    ∃ new, createSubtasks brief workflowId canopy parentId phases created calls =
        (.error e, calls ++ new) ∧
      new.filterMap CanopyCall.cancels =
        created ++ canopy.created CanopyCall.createsSubtask calls new := by
  induction phases generalizing created calls with
  | nil => cases h
  | cons p phases ih =>
    rcases CanopyPort.createAll_cons_error.mp h with hcreate | ⟨id, hcreate, hrest⟩
    · refine ⟨brief.subtaskCall workflowId parentId p.1 :: created.map .cancelTask, ?_, ?_⟩
      · simp only [createSubtasks, hcreate]
      · have hnone : canopy.created CanopyCall.createsSubtask
            (calls ++ [brief.subtaskCall workflowId parentId p.1]) (created.map .cancelTask) = [] :=
          CanopyPort.created_eq_nil (by simp [CanopyCall.createsSubtask]) _
        rw [List.filterMap_cons_none rfl, CanopyCall.cancels_map, CanopyPort.created, hnone,
          hcreate]
        simp [Except.toOption]
    · obtain ⟨new, hloop, hcancels⟩ := ih (created ++ [id]) hrest
      refine ⟨brief.subtaskCall workflowId parentId p.1 :: new, ?_, ?_⟩
      · simp only [createSubtasks, hcreate, hloop, List.append_assoc, List.singleton_append]
      · rw [List.filterMap_cons_none rfl, hcancels, CanopyPort.created, hcreate]
        simp [CanopyCall.createsSubtask, DispatchBrief.subtaskCall, Except.toOption]

end Loop

/-! ## A whole dispatch -/

/-- A dispatch that failed passed every subtask it created to a cancellation. -/
def Compensated {α : Type} (canopy : CanopyPort) (out : Except DispatchError α × List CanopyCall) :
    Prop :=
  ∀ e, out.1 = .error e → ∀ id ∈ canopy.created CanopyCall.createsSubtask [] out.2,
    id ∈ out.2.filterMap CanopyCall.cancels

/-- Canopy creates the parent task and all subtasks, and then refuses to assign the first. -/
def AssignmentRefused (brief : DispatchBrief) (template : WorkflowTemplate)
    (workflowId : WorkflowId) (canopy : CanopyPort) : Prop :=
  ∃ firstPhase rest description parentId taskId taskIds e,
    let parent := brief.parentCall description
    let subtasks := template.phases.map (brief.subtaskCall workflowId parentId)
    template.phases = firstPhase :: rest ∧ brief.slug ≠ "" ∧
      brief.parentDescription = .ok description ∧ canopy.create [] parent = .ok parentId ∧
      canopy.createAll [parent] subtasks = .ok (taskId :: taskIds) ∧
      canopy.act (parent :: subtasks) (.assignTask taskId
        (agentName firstPhase.effectiveAgentRole brief.repoName brief.slug 1) "hymenium") = .error e

/-- The subtask calls of a new instance are those of its template. -/
theorem subtaskCalls_new (brief : DispatchBrief) (workflowId : WorkflowId) (parentId : String)
    (phases : List Phase) :
    subtaskCalls brief workflowId parentId
        (phases.zip (phases.map fun phase => PhaseState.new phase.phaseId
          phase.effectiveAgentRole)) =
      phases.map (brief.subtaskCall workflowId parentId) := by
  induction phases with
  | nil => rfl
  | cons phase phases ih =>
    rw [List.map_cons, List.zip_cons_cons, List.map_cons, ← ih]
    rfl

/-- The phase states of a dispatched workflow: the task ids in order, and the first agent. -/
def dispatchedStates (agent : String) (phases : List Phase) (taskIds : List String) :
    List PhaseState :=
  (List.zipWith (fun phase taskId =>
    (PhaseState.new phase.phaseId phase.effectiveAgentRole).withTask taskId) phases
    taskIds).modifyHead fun first => { first with agentId := some agent }

theorem dispatchedStates_cons (agent : String) (phase : Phase) (phases : List Phase)
    (taskId : String) (taskIds : List String) :
    dispatchedStates agent (phase :: phases) (taskId :: taskIds) =
      { (PhaseState.new phase.phaseId phase.effectiveAgentRole).withTask taskId with
        agentId := some agent } ::
      List.zipWith (fun phase taskId =>
        (PhaseState.new phase.phaseId phase.effectiveAgentRole).withTask taskId) phases taskIds :=
  rfl

/-- A new workflow whose subtasks were created and whose first one was assigned. -/
def dispatchedInstance (workflowId : WorkflowId) (template : WorkflowTemplate) (path agent : String)
    (taskIds : List String) (now : DateTime) : WorkflowInstance :=
  { WorkflowInstance.new workflowId template path now with
    phaseStates := dispatchedStates agent template.phases taskIds
    status := .dispatched }

theorem zipWith_new (phases : List Phase) (taskIds : List String) :
    List.zipWith (fun p taskId => p.2.withTask taskId)
        (phases.zip (phases.map fun phase => PhaseState.new phase.phaseId
          phase.effectiveAgentRole)) taskIds =
      List.zipWith (fun phase taskId =>
        (PhaseState.new phase.phaseId phase.effectiveAgentRole).withTask taskId) phases
        taskIds := by
  induction phases generalizing taskIds with
  | nil => rfl
  | cons phase phases ih =>
    cases taskIds with
    | nil => rfl
    | cons taskId taskIds =>
      rw [List.map_cons, List.zip_cons_cons, List.zipWith_cons_cons, List.zipWith_cons_cons, ih]

section

variable {brief : DispatchBrief} {template : WorkflowTemplate} {workflowId : WorkflowId}
  {path : String} {canopy : CanopyPort} {now : DateTime} {firstPhase : Phase} {rest : List Phase}
  {description parentId : String}

/-- A dispatch creates its parent task, or fails before it creates anything. -/
theorem dispatchWorkflow_started (brief : DispatchBrief) (template : WorkflowTemplate)
    (workflowId : WorkflowId) (path : String) (canopy : CanopyPort) (now : DateTime) :
    (∃ firstPhase rest description parentId, template.phases = firstPhase :: rest ∧
        brief.slug ≠ "" ∧ brief.parentDescription = .ok description ∧
        canopy.create [] (brief.parentCall description) = .ok parentId) ∨
      (∃ e, (dispatchWorkflow brief template workflowId path canopy now).1 = .error e) ∧
        canopy.created CanopyCall.createsSubtask []
          (dispatchWorkflow brief template workflowId path canopy now).2 = [] := by
  unfold dispatchWorkflow
  split
  · exact .inr ⟨⟨_, rfl⟩, rfl⟩
  next firstPhase rest hphases =>
  split_ifs with hslug
  · exact .inr ⟨⟨_, rfl⟩, rfl⟩
  split
  · exact .inr ⟨⟨_, rfl⟩, rfl⟩
  next description hdescription =>
  simp only
  split
  · exact .inr ⟨⟨_, rfl⟩, rfl⟩
  next parentId hparent =>
  exact .inl ⟨firstPhase, rest, description, parentId, hphases, hslug, hdescription, hparent⟩

variable (workflowId path now) in
/-- A dispatch whose parent task is created goes on to the subtasks and the assignment. -/
theorem dispatchWorkflow_eq (hphases : template.phases = firstPhase :: rest)
    (hslug : brief.slug ≠ "") (hdescription : brief.parentDescription = .ok description)
    (hparent : canopy.create [] (brief.parentCall description) = .ok parentId) :
    dispatchWorkflow brief template workflowId path canopy now =
      let inst := WorkflowInstance.new workflowId template path now
      match createSubtasks brief workflowId canopy parentId
          (template.phases.zip inst.phaseStates) [] [brief.parentCall description] with
      | (.error e, calls) => (.error e, calls)
      | (.ok states, calls) =>
        match assignFirst (agentName firstPhase.effectiveAgentRole brief.repoName brief.slug 1)
            canopy states calls with
        | (.error e, calls) => (.error e, calls)
        | (.ok states, calls) =>
          (.ok { inst with phaseStates := states, status := .dispatched }, calls) := by
  unfold dispatchWorkflow
  split
  · next hnil => exact absurd (hnil.symm.trans hphases) (List.cons_ne_nil _ _).symm
  · next first others hcons =>
    obtain ⟨rfl, rfl⟩ := List.cons.inj (hcons.symm.trans hphases)
    rw [if_neg hslug, hdescription]
    dsimp only
    rewrite [hparent]
    rfl

variable (path now) in
/-- The calls up to the subtasks, when every creation succeeds. -/
theorem dispatchWorkflow_created {taskId : String} {taskIds : List String}
    (hphases : template.phases = firstPhase :: rest)
    (hslug : brief.slug ≠ "") (hdescription : brief.parentDescription = .ok description)
    (hparent : canopy.create [] (brief.parentCall description) = .ok parentId)
    (hids : canopy.createAll [brief.parentCall description]
      (template.phases.map (brief.subtaskCall workflowId parentId)) = .ok (taskId :: taskIds)) :
    let calls := brief.parentCall description ::
      template.phases.map (brief.subtaskCall workflowId parentId)
    let assign := CanopyCall.assignTask taskId
      (agentName firstPhase.effectiveAgentRole brief.repoName brief.slug 1) "hymenium"
    (∀ e, canopy.act calls assign = .error e →
      dispatchWorkflow brief template workflowId path canopy now =
        (.error e, calls ++ [assign])) ∧
    (canopy.act calls assign = .ok () →
      dispatchWorkflow brief template workflowId path canopy now =
        (.ok (dispatchedInstance workflowId template path
            (agentName firstPhase.effectiveAgentRole brief.repoName brief.slug 1)
            (taskId :: taskIds) now),
          calls ++ [assign])) := by
  intro calls assign
  rw [← subtaskCalls_new] at hids
  have hloop := createSubtasks_created [] hids
  rw [zipWith_new, subtaskCalls_new, List.singleton_append, hphases, List.zipWith_cons_cons,
    ← hphases] at hloop
  have hrun := dispatchWorkflow_eq workflowId path now hphases
    hslug hdescription hparent
  have hloop' : createSubtasks brief workflowId canopy parentId (template.phases.zip
      (WorkflowInstance.new workflowId template path now).phaseStates) []
      [brief.parentCall description] = _ := hloop
  simp only [hloop', assignFirst, PhaseState.withTask] at hrun
  constructor
  · intro e he
    simp only [hrun, calls, assign, he]
  · intro hok
    rw [hok] at hrun
    have hstates := dispatchedStates_cons
      (agentName firstPhase.effectiveAgentRole brief.repoName brief.slug 1) firstPhase rest taskId
      taskIds
    rw [← hphases] at hstates
    rw [hrun, dispatchedInstance, hstates]
    rfl

variable (path now) in
/-- A failed creation is compensated exactly. -/
theorem dispatchWorkflow_cancelled (hphases : template.phases = firstPhase :: rest)
    (hslug : brief.slug ≠ "") (hdescription : brief.parentDescription = .ok description)
    (hparent : canopy.create [] (brief.parentCall description) = .ok parentId) {e : DispatchError}
    (he : canopy.createAll [brief.parentCall description]
      (template.phases.map (brief.subtaskCall workflowId parentId)) = .error e) :
    ∃ calls, dispatchWorkflow brief template workflowId path canopy now = (.error e, calls) ∧
      calls.filterMap CanopyCall.cancels =
        canopy.created CanopyCall.createsSubtask [] calls := by
  rw [← subtaskCalls_new] at he
  obtain ⟨new, hloop, hcancels⟩ := createSubtasks_cancelled [] he
  have hrun := dispatchWorkflow_eq workflowId path now hphases
    hslug hdescription hparent
  have hloop' : createSubtasks brief workflowId canopy parentId (template.phases.zip
      (WorkflowInstance.new workflowId template path now).phaseStates) []
      [brief.parentCall description] = _ := hloop
  simp only [hloop'] at hrun
  refine ⟨[brief.parentCall description] ++ new, hrun, ?_⟩
  rw [List.filterMap_append, hcancels, CanopyPort.created_append]
  rfl

/-- What a dispatch that succeeds did and returns. -/
def Dispatched (brief : DispatchBrief) (template : WorkflowTemplate) (workflowId : WorkflowId)
    (path : String) (canopy : CanopyPort) (now : DateTime)
    (out : Except DispatchError WorkflowInstance × List CanopyCall) : Prop :=
  ∃ firstPhase rest description parentId taskId taskIds,
    let agent := agentName firstPhase.effectiveAgentRole brief.repoName brief.slug 1
    let parent := brief.parentCall description
    let subtasks := template.phases.map (brief.subtaskCall workflowId parentId)
    let assign := CanopyCall.assignTask taskId agent "hymenium"
    template.phases = firstPhase :: rest ∧ canopy.create [] parent = .ok parentId ∧
      canopy.createAll [parent] subtasks = .ok (taskId :: taskIds) ∧
      canopy.act (parent :: subtasks) assign = .ok () ∧
      out = (.ok (dispatchedInstance workflowId template path agent (taskId :: taskIds) now),
        parent :: subtasks ++ [assign])

/-- A dispatch fails before it creates a subtask, or cancels those it created, or is refused the
assignment, or succeeds. -/
theorem dispatchWorkflow_ends (brief : DispatchBrief) (template : WorkflowTemplate)
    (workflowId : WorkflowId) (path : String) (canopy : CanopyPort) (now : DateTime) :
    let out := dispatchWorkflow brief template workflowId path canopy now
    ((∃ e, out.1 = .error e) ∧
      (canopy.created CanopyCall.createsSubtask [] out.2 = [] ∨
        out.2.filterMap CanopyCall.cancels =
          canopy.created CanopyCall.createsSubtask [] out.2)) ∨
    ((∃ e, out.1 = .error e) ∧ AssignmentRefused brief template workflowId canopy) ∨
    Dispatched brief template workflowId path canopy now out := by
  intro out
  rcases dispatchWorkflow_started brief template workflowId path canopy now with
    ⟨firstPhase, rest, description, parentId, hphases, hslug, hdescription, hparent⟩ |
      ⟨herror, hnone⟩
  swap
  · exact .inl ⟨herror, .inl hnone⟩
  cases hids : canopy.createAll [brief.parentCall description]
      (template.phases.map (brief.subtaskCall workflowId parentId)) with
  | error e =>
    obtain ⟨calls, hrun, hcancels⟩ := dispatchWorkflow_cancelled path now hphases hslug
      hdescription hparent hids
    have hout : out = (.error e, calls) := hrun
    rw [hout]
    exact .inl ⟨⟨e, rfl⟩, .inr hcancels⟩
  | ok ids =>
    cases ids with
    | nil =>
      rw [hphases, List.map_cons] at hids
      obtain ⟨_, _, -, -, hnil⟩ := CanopyPort.createAll_cons_ok.mp hids
      cases hnil
    | cons taskId taskIds =>
      obtain ⟨hrefused, hok⟩ := dispatchWorkflow_created path now hphases hslug
        hdescription hparent hids
      cases hact : canopy.act (brief.parentCall description ::
          template.phases.map (brief.subtaskCall workflowId parentId)) (.assignTask taskId
          (agentName firstPhase.effectiveAgentRole brief.repoName brief.slug 1) "hymenium") with
      | error e =>
        refine .inr (.inl ⟨⟨e, congrArg Prod.fst (hrefused e hact)⟩, ?_⟩)
        exact ⟨firstPhase, rest, description, parentId, taskId, taskIds, e, hphases, hslug,
          hdescription, hparent, hids, hact⟩
      | ok u =>
        refine .inr (.inr ?_)
        exact ⟨firstPhase, rest, description, parentId, taskId, taskIds, hphases, hparent, hids,
          hact, hok hact⟩

/-- A dispatch that succeeds has created the parent task and all subtasks, and has assigned the
first one. -/
theorem dispatched_of_ok {inst : WorkflowInstance} {calls : List CanopyCall}
    (h : dispatchWorkflow brief template workflowId path canopy now = (.ok inst, calls)) :
    Dispatched brief template workflowId path canopy now (.ok inst, calls) := by
  rcases dispatchWorkflow_ends brief template workflowId path canopy now with
    ⟨⟨e, he⟩, -⟩ | ⟨⟨e, he⟩, -⟩ | hdispatched
  · rw [h] at he
    cases he
  · rw [h] at he
    cases he
  · rw [← h]
    exact hdispatched

/-- A dispatch that succeeds has created the parent task and one subtask for each phase. -/
theorem created_of_dispatchWorkflow_ok {inst : WorkflowInstance} {calls : List CanopyCall}
    (h : dispatchWorkflow brief template workflowId path canopy now = (.ok inst, calls)) :
    (canopy.created CanopyCall.creates [] calls).length = template.phases.length + 1 := by
  obtain ⟨_, _, description, parentId, _, _, -, hparent, hids, -, hout⟩ := dispatched_of_ok h
  rw [(Prod.mk.inj hout).2]
  have hlen := CanopyPort.length_createAll hids
  rw [List.length_map] at hlen
  have hsubtasks := CanopyPort.created_of_createAll CanopyCall.creates
    (by simp [DispatchBrief.subtaskCall, CanopyCall.creates]) hids
  have hcreated : canopy.created CanopyCall.creates [] [brief.parentCall description] =
      [parentId] := by
    rw [CanopyPort.created, hparent]
    rfl
  rw [← List.singleton_append, List.append_assoc, CanopyPort.created_append,
    CanopyPort.created_append, List.nil_append, hsubtasks, hcreated, ← hlen,
    CanopyPort.created_eq_nil (List.forall_mem_singleton.mpr rfl)]
  simp

/-- **Compensation.** A failed dispatch has cancelled every subtask it created, unless Canopy refused
the assignment that follows the creations. -/
theorem compensated_iff (brief : DispatchBrief) (template : WorkflowTemplate)
    (workflowId : WorkflowId) (path : String) (canopy : CanopyPort) (now : DateTime) :
    Compensated canopy (dispatchWorkflow brief template workflowId path canopy now) ↔
      ¬ AssignmentRefused brief template workflowId canopy := by
  constructor
  · rintro hcomp ⟨firstPhase, rest, description, parentId, taskId, taskIds, e, hphases, hslug,
      hdescription, hparent, hids, hact⟩
    have hrun := (dispatchWorkflow_created path now hphases hslug hdescription
      hparent hids).1 e hact
    rw [hrun] at hcomp
    have hcreated : taskId ∈ canopy.created CanopyCall.createsSubtask
        [brief.parentCall description]
        (template.phases.map (brief.subtaskCall workflowId parentId)) := by
      rw [CanopyPort.created_of_createAll _ (by simp [DispatchBrief.subtaskCall,
        CanopyCall.createsSubtask]) hids]
      exact List.mem_cons_self
    have hmem := hcomp e rfl taskId (by
      rw [CanopyPort.created_append]
      exact List.mem_append_left _ hcreated)
    -- the log has no cancellation in it
    simp [CanopyCall.cancels, DispatchBrief.parentCall, DispatchBrief.subtaskCall] at hmem
  · intro haccepted e he id hid
    rcases dispatchWorkflow_ends brief template workflowId path canopy now with
      ⟨-, hnone | hcancels⟩ | ⟨-, hrefused⟩ | ⟨_, _, _, _, _, _, -, -, -, -, hrun⟩
    · rw [hnone] at hid
      cases hid
    · rw [hcancels]
      exact hid
    · exact absurd hrefused haccepted
    · rw [hrun] at he
      cases he

/-- A Canopy that creates every task it is asked for and refuses everything else. -/
def refusingCanopy : CanopyPort where
  create calls _ := .ok (toString calls.length)
  act _ _ := .error (.canopyError "agent not registered")

/-- Both subtasks of the built-in template are created, the assignment is refused, and nothing is
cancelled. -/
theorem not_compensated_refused :
    let out := dispatchWorkflow ⟨"Fix it", ".", "hymenium", "fix-it", .ok "do it", (·.phaseId)⟩
      implAuditDefault "wf" "handoff.md" refusingCanopy 0
    out.1 = .error (.canopyError "agent not registered") ∧
      refusingCanopy.created CanopyCall.createsSubtask [] out.2 = ["1", "2"] ∧
      out.2.filterMap CanopyCall.cancels = [] ∧ ¬ Compensated refusingCanopy out := by
  intro out
  have herror : out.1 = .error (.canopyError "agent not registered") := rfl
  have hcreated : refusingCanopy.created CanopyCall.createsSubtask [] out.2 = ["1", "2"] := rfl
  have hcancelled : out.2.filterMap CanopyCall.cancels = [] := rfl
  refine ⟨herror, hcreated, hcancelled, fun hcomp => ?_⟩
  have hmem := hcomp _ herror "1" (by rw [hcreated]; exact List.mem_cons_self)
  rw [hcancelled] at hmem
  cases hmem

end

end Hymenium
