import Hymenium.Foundations.Kahn

/-!
# DAG workflows

Nodes, edges and the validation of a DAG workflow file (`src/workflow/dag/node.rs`,
`src/workflow/dag/loader.rs`). A node keeps the fields its execution reads.

A validated DAG is a finite multigraph (`WorkflowDag.graph`): node ids are distinct, edge ends are
nodes, and an edge may be written twice or lead back to its own node.
-/

namespace Hymenium

/-- Controls when a node with multiple incoming edges becomes ready. -/
inductive TriggerRule where
  | allSuccess | oneSuccess
  deriving DecidableEq

structure PromptNode where
  id : String
  triggerRule : TriggerRule := .allSuccess
  deriving DecidableEq

structure BashNode where
  id : String
  command : String
  triggerRule : TriggerRule := .allSuccess
  idleTimeout : Option ℕ := none
  deriving DecidableEq

structure LoopNode where
  id : String
  triggerRule : TriggerRule := .allSuccess
  deriving DecidableEq

structure CommandNode where
  id : String
  skill : String
  args : List String := []
  triggerRule : TriggerRule := .allSuccess
  idleTimeout : Option ℕ := none
  deriving DecidableEq

structure ApprovalNode where
  id : String
  prompt : String
  triggerRule : TriggerRule := .allSuccess
  deriving DecidableEq

/-- Typed node kinds of DAG workflows. -/
inductive DagNode where
  | prompt (n : PromptNode)
  | bash (n : BashNode)
  | loop (n : LoopNode)
  | command (n : CommandNode)
  | approval (n : ApprovalNode)
  deriving DecidableEq

/-- The node id of any variant. -/
def DagNode.id : DagNode → String
  | .prompt n => n.id
  | .bash n => n.id
  | .loop n => n.id
  | .command n => n.id
  | .approval n => n.id

/-- The trigger rule of any variant. -/
def DagNode.triggerRule : DagNode → TriggerRule
  | .prompt n => n.triggerRule
  | .bash n => n.triggerRule
  | .loop n => n.triggerRule
  | .command n => n.triggerRule
  | .approval n => n.triggerRule

/-- A directed edge in the DAG. -/
structure DagEdge where
  fromId : String
  toId : String
  deriving DecidableEq

/-- Environment variables by name. -/
abbrev Env := String → Option String

/-- A workflow DAG with its environment. -/
structure WorkflowDag where
  workflowId : String
  nodes : List DagNode
  edges : List DagEdge
  env : Env := fun _ => none

/-- The node ids, in file order. -/
def WorkflowDag.ids (dag : WorkflowDag) : List String := dag.nodes.map DagNode.id

/-! ## Validation -/

/-- The scan for a repeated node id; the result is the set of ids seen. -/
def checkNodeIds : List DagNode → List String → Except String (List String)
  | [], seen => .ok seen
  | node :: rest, seen =>
    if node.id ∈ seen then .error s!"duplicate node ID: '{node.id}'"
    else checkNodeIds rest (node.id :: seen)

/-- The scan for an edge whose end is not a node. -/
def checkEdges (seen : List String) : List DagEdge → Except String Unit
  | [] => .ok ()
  | edge :: rest =>
    if edge.fromId ∉ seen then
      .error s!"edge references unknown source node '{edge.fromId}' (from '{edge.fromId}' to '{edge.toId}')"
    else if edge.toId ∉ seen then
      .error s!"edge references unknown target node '{edge.toId}' (from '{edge.fromId}' to '{edge.toId}')"
    else checkEdges seen rest

/-- Validate the DAG for consistency. -/
def validateDag (dag : WorkflowDag) : Except String Unit := do
  let seen ← checkNodeIds dag.nodes []
  checkEdges seen dag.edges

/-- What validation guarantees. -/
structure WorkflowDag.Valid (dag : WorkflowDag) : Prop where
  nodup : dag.ids.Nodup
  closed : ∀ e ∈ dag.edges, e.fromId ∈ dag.ids ∧ e.toId ∈ dag.ids

theorem checkNodeIds_ok_iff (nodes : List DagNode) (seen ids : List String) :
    checkNodeIds nodes seen = .ok ids ↔
      ids = (nodes.map DagNode.id).reverse ++ seen ∧ (nodes.map DagNode.id).Nodup ∧
        ∀ id ∈ nodes.map DagNode.id, id ∉ seen := by
  induction nodes generalizing seen with
  | nil => simp [checkNodeIds, eq_comm]
  | cons node rest ih =>
    unfold checkNodeIds
    by_cases h : node.id ∈ seen
    · simp [h]
    · rw [if_neg h, ih]
      simp only [List.map_cons, List.nodup_cons, List.mem_cons, forall_eq_or_imp, not_or,
        List.reverse_cons, List.append_assoc, List.singleton_append]
      constructor
      · rintro ⟨rfl, hn, hs⟩
        exact ⟨rfl, ⟨fun hm => (hs _ hm).1 rfl, hn⟩, h, fun id hid => (hs id hid).2⟩
      · rintro ⟨rfl, ⟨hm, hn⟩, -, hs⟩
        exact ⟨rfl, hn, fun id hid => ⟨fun e => hm (e ▸ hid), hs id hid⟩⟩

theorem checkEdges_ok_iff (seen : List String) (edges : List DagEdge) :
    checkEdges seen edges = .ok () ↔ ∀ e ∈ edges, e.fromId ∈ seen ∧ e.toId ∈ seen := by
  induction edges with
  | nil => simp [checkEdges]
  | cons edge rest ih =>
    unfold checkEdges
    by_cases hf : edge.fromId ∈ seen
    · by_cases ht : edge.toId ∈ seen
      · simp [hf, ht, ih]
      · simp [hf, ht]
    · simp [hf]

/-- Validation accepts exactly the DAGs with distinct ids and known edge ends. -/
theorem validateDag_ok_iff (dag : WorkflowDag) : validateDag dag = .ok () ↔ dag.Valid := by
  have hids := checkNodeIds_ok_iff dag.nodes []
  unfold validateDag
  constructor
  · intro h
    cases hc : checkNodeIds dag.nodes [] with
    | error e => rw [hc] at h; cases h
    | ok seen =>
      rw [hc] at h
      obtain ⟨rfl, hnodup, -⟩ := (hids seen).mp hc
      refine ⟨hnodup, fun e he => ?_⟩
      simpa [WorkflowDag.ids] using (checkEdges_ok_iff _ _).mp h e he
  · rintro ⟨hnodup, hclosed⟩
    have hc := (hids _).mpr ⟨rfl, hnodup, fun _ _ => by simp⟩
    rw [hc]
    refine (checkEdges_ok_iff _ _).mpr fun e he => ?_
    simpa [WorkflowDag.ids] using hclosed e he

/-! ## The graph of a DAG -/

namespace WorkflowDag

/-- The targets of the edges out of each node, in file order. -/
def outgoing (dag : WorkflowDag) : String → List String :=
  dag.edges.foldl (fun m e => Function.update m e.fromId (m e.fromId ++ [e.toId])) fun _ => []

/-- The sources of the edges into each node, in file order. -/
def predecessors (dag : WorkflowDag) : String → List String :=
  dag.edges.foldl (fun m e => Function.update m e.toId (m e.toId ++ [e.fromId])) fun _ => []

/-- A map of lists filled entry by entry lists, at each key, the values pushed there. -/
theorem foldl_push {ι : Type*} (key value : ι → String) (l : List ι) (m : String → List String)
    (k : String) :
    l.foldl (fun m e => Function.update m (key e) (m (key e) ++ [value e])) m k =
      m k ++ (l.filter fun e => key e = k).map value := by
  induction l generalizing m with
  | nil => simp
  | cons e l ih =>
    rw [List.foldl_cons, ih]
    by_cases he : key e = k
    · subst he
      simp
    · rw [Function.update_of_ne (Ne.symm he), List.filter_cons_of_neg (by simpa using he)]

theorem outgoing_eq (dag : WorkflowDag) (u : String) :
    dag.outgoing u = (dag.edges.filter fun e => e.fromId = u).map DagEdge.toId := by
  unfold outgoing
  rw [foldl_push, List.nil_append]

theorem predecessors_eq (dag : WorkflowDag) (v : String) :
    dag.predecessors v = (dag.edges.filter fun e => e.toId = v).map DagEdge.fromId := by
  unfold predecessors
  rw [foldl_push, List.nil_append]

theorem mem_outgoing {dag : WorkflowDag} {u v : String} :
    v ∈ dag.outgoing u ↔ ⟨u, v⟩ ∈ dag.edges := by
  rw [outgoing_eq]
  simp only [List.mem_map, List.mem_filter, decide_eq_true_eq]
  constructor
  · rintro ⟨e, ⟨he, rfl⟩, rfl⟩
    exact he
  · intro h
    exact ⟨⟨u, v⟩, ⟨h, rfl⟩, rfl⟩

theorem mem_predecessors {dag : WorkflowDag} {u v : String} :
    u ∈ dag.predecessors v ↔ ⟨u, v⟩ ∈ dag.edges := by
  rw [predecessors_eq]
  simp only [List.mem_map, List.mem_filter, decide_eq_true_eq]
  constructor
  · rintro ⟨e, ⟨he, rfl⟩, rfl⟩
    exact he
  · intro h
    exact ⟨⟨u, v⟩, ⟨h, rfl⟩, rfl⟩

/-- The multigraph of a validated DAG. -/
def graph (dag : WorkflowDag) (h : dag.Valid) : Multigraph String where
  nodes := dag.ids
  succs := dag.outgoing
  preds := dag.predecessors
  mem_iff _ _ := mem_outgoing.trans mem_predecessors.symm
  closed _ _ hp := h.closed _ (mem_predecessors.mp hp)

/-- There is an edge from `u` to `v`. -/
def Edge (dag : WorkflowDag) (u v : String) : Prop := ⟨u, v⟩ ∈ dag.edges

/-- The edge relation has a cycle. -/
def HasCycle (dag : WorkflowDag) : Prop := ∃ v, Relation.TransGen dag.Edge v v

theorem graph_edge {dag : WorkflowDag} (h : dag.Valid) : (dag.graph h).Edge = dag.Edge := by
  funext u v
  exact propext mem_predecessors

theorem length_outgoing_le (dag : WorkflowDag) (u : String) :
    (dag.outgoing u).length ≤ dag.edges.length := by
  rw [outgoing_eq, List.length_map]
  exact List.length_filter_le _ _

end WorkflowDag

end Hymenium
