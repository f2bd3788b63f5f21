import Hymenium.Dag.Loader
import Mathlib.Data.Finset.Basic

/-!
# The DAG executor

`runInner` (`src/workflow/dag/executor.rs`): the topological sort with its cycle test, the wave loop
with the skip marks for OneSuccess successors, and the collection of results.

Running one node is a parameter, `NodeExec`: the code hands it a node, an environment and the
results so far, and takes its answer as it comes. The order in which the tasks of one wave finish is
the parameter `Arrivals`.

The code indexes its maps by node ids. A missing key, which would be a panic, cannot occur for a
validated DAG; the maps here are total, and read as empty at a missing key.
-/

namespace Hymenium

/-- Execution status of a node. -/
inductive NodeStatus where
  | success | failed | skipped
  deriving DecidableEq

/-- Result of a single node execution. -/
structure NodeResult where
  nodeId : String
  status : NodeStatus
  output : String
  deriving DecidableEq

/-- The results so far, by node id. -/
abbrev Results := String → Option NodeResult

/-- Running one node. Every arm of the source stamps the result with the id of the node. -/
structure NodeExec where
  run : DagNode → Env → Results → NodeResult
  nodeId_run : ∀ node env results, (run node env results).nodeId = node.id

/-- The order in which the tasks of each wave finish. -/
structure Arrivals where
  order : ℕ → List NodeResult → List NodeResult
  perm : ∀ k l, (order k l).Perm l

/-- The tasks finish in the order they were spawned. -/
def Arrivals.inOrder : Arrivals := ⟨fun _ l => l, fun _ l => List.Perm.refl l⟩

inductive DagError where
  | cycle (unreachable : ℕ)
  /-- The count of unreachable nodes underflows. -/
  | subtractOverflow
  /-- A loop of the model used up its turns; no run on a validated DAG ends so. -/
  | outOfFuel
  deriving DecidableEq

/-- Text of a DAG error. -/
def DagError.toString : DagError → String
  | .cycle unreachable =>
    s!"workflow DAG contains a cycle; {unreachable} node(s) are unreachable"
  | .subtractOverflow => "attempt to subtract with overflow"
  | .outOfFuel => ""

/-! ## Topological sort -/

/-- State of the sorting loop. -/
structure SortState where
  incoming : String → List String
  queue : List String
  topoOrder : List String

/-- Visit one successor of the node just taken: drop the node from its predecessors, and enqueue it
when none is left. -/
def visitSuccessor (nodeId : String) (st : (String → List String) × List String)
    (nextId : String) : (String → List String) × List String :=
  let incoming := Function.update st.1 nextId ((st.1 nextId).filter (· ≠ nodeId))
  (incoming, if incoming nextId = [] then st.2 ++ [nextId] else st.2)

/-- The sorting loop, at most `fuel` turns. -/
def sortLoop (outgoing : String → List String) : ℕ → SortState → SortState
  | 0, st => st
  | fuel + 1, st =>
    match st.queue with
    | [] => st
    | nodeId :: rest =>
      let (incoming, queue) := (outgoing nodeId).foldl (visitSuccessor nodeId) (st.incoming, rest)
      sortLoop outgoing fuel ⟨incoming, queue, st.topoOrder ++ [nodeId]⟩

namespace WorkflowDag

variable (dag : WorkflowDag)

/-- A number of turns that always empties the queue. -/
def sortFuel : ℕ := dag.nodes.length * (dag.edges.length + 1) ^ dag.nodes.length

/-- The state the sorting loop ends in. -/
def sortEnd : SortState :=
  let incoming := dag.predecessors
  let queue := dag.ids.filter fun id => incoming id = []
  sortLoop dag.outgoing dag.sortFuel ⟨incoming, queue, []⟩

/-- The node ids in the order Kahn's algorithm takes them. -/
def topoSort : List String := dag.sortEnd.topoOrder

/-- Insert a node into the map of nodes. -/
def insertNode (m : String → Option DagNode) (node : DagNode) : String → Option DagNode :=
  Function.update m node.id (some node)

/-- The nodes by id. -/
def nodeMap : String → Option DagNode := dag.nodes.foldl insertNode fun _ => none

/-- The trigger rule of the node with this id. -/
def rule (id : String) : Option TriggerRule := (dag.nodeMap id).map DagNode.triggerRule

end WorkflowDag

/-! ## Waves -/

/-- State of the wave loop. -/
structure WaveState where
  results : Results
  completed : Finset String
  skipped : Finset String

/-- The state before the first wave. -/
def WaveState.init : WaveState := ⟨fun _ => none, ∅, ∅⟩

/-- The result of a node that is marked skipped, or never got a result. -/
def skippedResult (id : String) : NodeResult := ⟨id, .skipped, ""⟩

/-- The trigger rule over the results of the predecessors. -/
def triggered (results : Results) (rule : Option TriggerRule) (preds : List String) : Bool :=
  if preds = [] then true
  else
    let predResults := preds.filterMap results
    match rule with
    | some .allSuccess =>
      predResults.length = preds.length && predResults.all (·.status = .success)
    | some .oneSuccess => predResults.any (·.status = .success)
    | none => false

namespace WaveState

variable (dag : WorkflowDag)

/-- The node may still be spawned or marked: neither completed nor skipped. -/
def Open (st : WaveState) (id : String) : Prop := id ∉ st.completed ∧ id ∉ st.skipped

instance (st : WaveState) : DecidablePred st.Open :=
  fun _ => inferInstanceAs (Decidable (_ ∧ _))

/-- The nodes ready to be spawned, in topological order. -/
def ready (st : WaveState) : List String :=
  dag.topoSort.filter fun id =>
    st.Open id && triggered st.results (dag.rule id) (dag.predecessors id)

/-- Take in the result of a finished task. -/
def record (st : WaveState) (result : NodeResult) : WaveState :=
  { st with
    completed := insert result.nodeId st.completed
    results := Function.update st.results result.nodeId (some result) }

/-- Mark a node as skipped. -/
def markSkipped (st : WaveState) (id : String) : WaveState :=
  { st with
    skipped := insert id st.skipped
    results := Function.update st.results id (some (skippedResult id)) }

/-- Mark the other predecessors of a OneSuccess successor that has not fired yet. -/
def skipOthers (nodeId : String) (st : WaveState) (succId : String) : WaveState :=
  if dag.rule succId = some .oneSuccess ∧ st.Open succId then
    (dag.predecessors succId).foldl
      (fun st other => if other ≠ nodeId ∧ st.Open other then st.markSkipped other else st) st
  else st

/-- The skip pass over one node of the wave. -/
def skipFrom (st : WaveState) (nodeId : String) : WaveState :=
  match st.results nodeId with
  | some result =>
    if result.status = .success then (dag.outgoing nodeId).foldl (skipOthers dag nodeId) st
    else st
  | none => st

variable (exec : NodeExec) (env : Env)

/-- The results of the tasks spawned for the ready nodes. -/
def spawn (st : WaveState) : List NodeResult :=
  ((st.ready dag).filterMap dag.nodeMap).map fun node => exec.run node env st.results

/-- One wave: run the ready nodes, take in their results as they arrive, then mark skips. -/
def wave (arrivals : Arrivals) (k : ℕ) (st : WaveState) : WaveState :=
  let done := (arrivals.order k (st.spawn dag exec env)).foldl record st
  (st.ready dag).foldl (skipFrom dag) done

/-- The wave loop from wave `k` on, at most `fuel` waves. -/
def waveLoop (arrivals : Arrivals) : ℕ → ℕ → WaveState → WaveState
  | 0, _, st => st
  | fuel + 1, k, st =>
    if st.ready dag = [] then st
    else waveLoop arrivals fuel (k + 1) (st.wave dag exec env arrivals k)

/-- The result listed for a node: skipped when there is none. -/
def collect (st : WaveState) (id : String) : NodeResult := (st.results id).getD (skippedResult id)

end WaveState

/-- The environment of the executor, overridden by the environment of the DAG. -/
def mergeEnv (env dagEnv : Env) : Env := fun name => (dagEnv name).or (env name)

/-- The arithmetic of the cycle error: `len(nodes) - len(order)` in machine integers. -/
def cycleError (nodes order : ℕ) : DagError :=
  if order ≤ nodes then .cycle (nodes - order) else .subtractOverflow

/-- Execute a DAG workflow, returning results for all nodes. -/
def runInner (env : Env) (exec : NodeExec) (arrivals : Arrivals) (dag : WorkflowDag) :
    Except DagError (List NodeResult) :=
  let order := dag.topoSort
  if dag.sortEnd.queue ≠ [] then .error .outOfFuel
  else if order.length ≠ dag.nodes.length then
    .error (cycleError dag.nodes.length order.length)
  else
    let st := WaveState.init.waveLoop dag exec (mergeEnv env dag.env) arrivals
      (dag.nodes.length + 1) 0
    if st.ready dag ≠ [] then .error .outOfFuel
    else .ok (order.map st.collect)

end Hymenium
