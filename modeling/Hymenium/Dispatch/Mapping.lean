import Hymenium.Dispatch.Compensation

/-!
# Phases and their tasks

A dispatch that succeeds maps the phases of the template to the subtasks of Canopy, one to one and
in order (`dispatchWorkflow_maps`): the log of calls, the answers to them and the phase states of
the returned instance are read at one index.
-/

namespace Hymenium

/-- What a dispatch that created `parentId` did and returned: the calls to Canopy, in order, with
the answers, and the phase states. There are no other calls. -/
structure MapsPhases (template : WorkflowTemplate) (workflowId : WorkflowId) (canopy : CanopyPort)
    (inst : WorkflowInstance) (calls : List CanopyCall) (parentId : String) : Prop where
  numCalls : calls.length = template.phases.length + 2
  numStates : inst.phaseStates.length = template.phases.length
  status : inst.status = .dispatched
  parent : ∃ title description projectRoot options,
    let call := CanopyCall.createTask title description projectRoot options
    calls[0]? = some call ∧ canopy.create [] call = .ok parentId
  subtask : ∀ i phase, template.phases[i]? = some phase →
    ∃ title description options taskId state,
      let call := CanopyCall.createSubtask parentId title description options
      calls[i + 1]? = some call ∧ canopy.create (calls.take (i + 1)) call = .ok taskId ∧
        options.workflowId = some workflowId ∧ options.phaseId = some phase.phaseId ∧
        inst.phaseStates[i]? = some state ∧ state.phaseId = phase.phaseId ∧
        state.canopyTaskId = some taskId ∧ state.status = .pending ∧
        (state.agentId ≠ none ↔ i = 0)
  assigned : ∃ first taskId agent,
    let call := CanopyCall.assignTask taskId agent "hymenium"
    inst.phaseStates[0]? = some first ∧ first.canopyTaskId = some taskId ∧
      first.agentId = some agent ∧ calls[template.phases.length + 1]? = some call ∧
      canopy.act (calls.take (template.phases.length + 1)) call = .ok ()

/-- Every call of a creation in one go has its answer, after the calls before it. -/
theorem CanopyPort.getElem?_createAll {canopy : CanopyPort} {before calls : List CanopyCall}
    {ids : List String} (h : canopy.createAll before calls = .ok ids) {i : ℕ} {call : CanopyCall}
    (hcall : calls[i]? = some call) :
    ∃ id, ids[i]? = some id ∧ canopy.create (before ++ calls.take i) call = .ok id := by
  induction calls generalizing before ids i with
  | nil => cases hcall
  | cons first calls ih =>
    obtain ⟨id, rest, hcreate, hrest, rfl⟩ := createAll_cons_ok.mp h
    cases i with
    | zero =>
      obtain rfl := Option.some.inj hcall
      refine ⟨id, rfl, ?_⟩
      rw [List.take_zero, List.append_nil]
      exact hcreate
    | succ i =>
      obtain ⟨id', hid', hcreate'⟩ := ih hrest hcall
      refine ⟨id', hid', ?_⟩
      rw [List.take_succ_cons, List.append_cons]
      exact hcreate'

/-- The phase state at an index, from the phase and the task id there. -/
theorem getElem?_dispatchedStates (agent : String) {phases : List Phase} {taskIds : List String}
    {i : ℕ} {phase : Phase} {taskId : String} (hphase : phases[i]? = some phase)
    (htask : taskIds[i]? = some taskId) :
    (dispatchedStates agent phases taskIds)[i]? = some
      { (PhaseState.new phase.phaseId phase.effectiveAgentRole).withTask taskId with
        agentId := if i = 0 then some agent else none } := by
  cases phases with
  | nil => cases hphase
  | cons first phases =>
    cases taskIds with
    | nil => cases htask
    | cons id taskIds =>
      rw [dispatchedStates_cons]
      cases i with
      | zero =>
        obtain rfl := Option.some.inj hphase
        obtain rfl := Option.some.inj htask
        rfl
      | succ i =>
        rw [List.getElem?_cons_succ] at hphase htask ⊢
        rw [List.getElem?_zipWith, hphase, htask]
        rfl

theorem length_dispatchedStates (agent : String) {phases : List Phase} {taskIds : List String}
    (h : taskIds.length = phases.length) :
    (dispatchedStates agent phases taskIds).length = phases.length := by
  rw [dispatchedStates, List.length_modifyHead, List.length_zipWith, h, Nat.min_self]

/-- **Mapping.** A dispatch that succeeds creates one task, one subtask of it for each phase, in
order, and assigns the first one; each phase state holds the id of its subtask. -/
theorem dispatchWorkflow_maps {brief : DispatchBrief} {template : WorkflowTemplate}
    {workflowId : WorkflowId} {path : String} {canopy : CanopyPort} {now : DateTime}
    {inst : WorkflowInstance} {calls : List CanopyCall}
    (h : dispatchWorkflow brief template workflowId path canopy now = (.ok inst, calls)) :
    ∃ parentId, MapsPhases template workflowId canopy inst calls parentId := by
  obtain ⟨firstPhase, rest, description, parentId, taskId, taskIds, hphases, hparent, hids, hact,
    hout⟩ := dispatched_of_ok h
  obtain ⟨hinst, rfl⟩ := Prod.mk.inj hout
  obtain rfl := Except.ok.inj hinst
  have hlen := CanopyPort.length_createAll hids
  rw [List.length_map] at hlen
  have hfirst : template.phases[0]? = some firstPhase := by
    rw [hphases]
    rfl
  refine ⟨parentId, ?_, ?_, rfl, ?_, ?_, ?_⟩
  · simp
  · exact length_dispatchedStates _ hlen
  · exact ⟨_, _, _, _, rfl, hparent⟩
  · intro i phase hphase
    have hcall : (template.phases.map (brief.subtaskCall workflowId parentId))[i]? =
        some (brief.subtaskCall workflowId parentId phase) := by
      rw [List.getElem?_map, hphase]
      rfl
    have hlt : i < (template.phases.map (brief.subtaskCall workflowId parentId)).length :=
      (List.getElem?_eq_some_iff.mp hcall).1
    obtain ⟨id, hid, hcreate⟩ := CanopyPort.getElem?_createAll hids hcall
    have hstate := getElem?_dispatchedStates
      (agentName firstPhase.effectiveAgentRole brief.repoName brief.slug 1) hphase hid
    rw [List.singleton_append, ← List.take_succ_cons, ← List.take_append_of_le_length] at hcreate
    · refine ⟨_, _, _, id, _, ?_, hcreate, rfl, rfl, hstate, rfl, rfl, rfl, ?_⟩
      · rw [List.cons_append, List.getElem?_cons_succ, List.getElem?_append_left hlt]
        exact hcall
      · split_ifs with hi
        · simp [hi]
        · simp [hi]
    · rw [List.length_cons]
      omega
  · have hstate := getElem?_dispatchedStates
      (agentName firstPhase.effectiveAgentRole brief.repoName brief.slug 1) hfirst
      (List.getElem?_cons_zero (l := taskIds) (a := taskId))
    refine ⟨_, taskId, _, hstate, rfl, rfl, ?_, ?_⟩
    · rw [List.getElem?_append_right (by simp)]
      simp
    · rw [List.take_left' (by simp)]
      exact hact

/-- A Canopy that creates every task it is asked for. -/
def acceptingCanopy : CanopyPort where
  create calls _ := .ok (toString calls.length)
  act _ _ := .ok ()

def fixItBrief : DispatchBrief :=
  ⟨"Fix it", ".", "hymenium", "fix-it", .ok "do it", (·.phaseId)⟩

/-- Both phases of the built-in template have their subtasks. -/
theorem dispatchWorkflow_maps_default : ∃ inst calls,
    dispatchWorkflow fixItBrief implAuditDefault "wf" "handoff.md" acceptingCanopy 0 =
        (.ok inst, calls) ∧
      inst.phaseStates.map (·.canopyTaskId) = [some "1", some "2"] ∧
      inst.phaseStates.map (·.agentId) = [some "Worker/hymenium/fix-it/1", none] ∧
      ∃ parentId, MapsPhases implAuditDefault "wf" acceptingCanopy inst calls parentId := by
  refine ⟨_, _, rfl, rfl, rfl, ?_⟩
  exact dispatchWorkflow_maps (show dispatchWorkflow fixItBrief implAuditDefault "wf" "handoff.md"
    acceptingCanopy 0 = _ from rfl)

end Hymenium
