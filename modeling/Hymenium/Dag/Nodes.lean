import Hymenium.Dag.Launch
import Hymenium.Dag.Results

/-!
# Nodes on a machine

`execute_node` (`src/workflow/dag/executor.rs`) runs one node: a bash node through the shell, a
command node through the program its skill names, an approval node through a line of the standard
input. Prompt and loop nodes have no runner, and are skipped.

`Machine` is what the executor asks: processes, their ends, the search path and the terminal. A
question carries the id of the node that asks, since no node is run twice.

1. Reports: what a task is shown and what the run reports agree (`runLaunches_consistent`).
2. Prompt and loop nodes: a node whose rule needs one of them is skipped on every machine
   (`blocked_skipped`), and with the AllSuccess rule no other node has to be (`succeeds_iff`).
-/

namespace Hymenium

open Text WaveState

/-! ## One node -/

/-- What a process ends with. -/
inductive ProcessEnd where
  /-- It could not be started, or not be waited for. -/
  | error (e : String)
  | output (success : Bool) (stdout : String)

/-- What the executor asks of the machine, for the node of an id. -/
structure Machine where
  shell : String → Text → Env → ProcessEnd
  process : String → String → List Text → ProcessEnd
  /-- The process of the node ends within so many seconds. -/
  inTime : String → ℕ → Bool
  /-- The path of a skill. -/
  which : String → Option String
  /-- A line of the standard input. -/
  readLine : String → Option Text
  /-- The order in which the map of results is gone through. -/
  order : String → List String → List String
  order_perm : ∀ id ids, (order id ids).Perm ids

/-- The result of a process that was waited for. -/
def ProcessEnd.result (id : String) : ProcessEnd → NodeResult
  | .output success stdout => ⟨id, if success then .success else .failed, stdout⟩
  | .error e => ⟨id, .failed, s!"execution error: {e}"⟩

namespace Machine

variable (machine : Machine)

/-- The result of a process that is given a time to end in. -/
def await (id : String) (idleTimeout : Option ℕ) (processEnd : ProcessEnd) : NodeResult :=
  match idleTimeout with
  | some dur =>
    if machine.inTime id dur then processEnd.result id
    else ⟨id, .failed, s!"node timed out after {dur}s"⟩
  | none => processEnd.result id

/-- The iteration over the map of results of a DAG, for one node. -/
def iterate (dag : WorkflowDag) (id : String) (results : Results) : Iteration where
  entries := (machine.order id dag.ids.dedup).filterMap fun i => (results i).map fun r => (i, r)
  nodup := by
    have hnodup := (machine.order_perm id dag.ids.dedup).nodup_iff.mpr (List.nodup_dedup _)
    refine List.Nodup.sublist ?_ hnodup
    generalize machine.order id dag.ids.dedup = l
    induction l with
    | nil => exact List.Sublist.refl _
    | cons i l ih =>
      cases hi : results i with
      | none =>
        rw [List.filterMap_cons_none (by rw [hi]; rfl)]
        exact ih.cons i
      | some r =>
        rw [List.filterMap_cons_some (by rw [hi]; rfl), List.map_cons]
        exact ih.cons_cons i

/-- Execute a single node and return its result. -/
def executeNode (U : Unicode) (dag : WorkflowDag) :
    DagNode → Env → Results → NodeResult
  | .bash n, env, results =>
    let expandedCmd := expandVariables n.command.toList (machine.iterate dag n.id results)
    machine.await n.id n.idleTimeout (machine.shell n.id expandedCmd env)
  | .command n, _, results =>
    match machine.which n.skill with
    | some binPath =>
      let args := n.args.map fun arg =>
        expandVariables arg.toList (machine.iterate dag n.id results)
      machine.await n.id n.idleTimeout (machine.process n.id binPath args)
    | none => ⟨n.id, .failed, s!"skill '{n.skill}' not found in PATH"⟩
  | .prompt n, _, _ => skippedResult n.id
  | .loop n, _, _ => skippedResult n.id
  | .approval n, _, _ =>
    let response := match machine.readLine n.id with
      | some input => U.toLowercase (trim input)
      | none => []
    let success := response = "y".toList ∨ response = "yes".toList
    ⟨n.id, if success then .success else .failed, String.ofList response⟩

theorem await_nodeId (id : String) (idleTimeout : Option ℕ) (processEnd : ProcessEnd) :
    (machine.await id idleTimeout processEnd).nodeId = id := by
  have hend : (processEnd.result id).nodeId = id := by cases processEnd <;> rfl
  unfold await
  cases idleTimeout with
  | none => exact hend
  | some dur =>
    dsimp only
    split_ifs
    · exact hend
    · rfl

/-- The nodes of a DAG on a machine. -/
def exec (U : Unicode) (dag : WorkflowDag) : NodeExec where
  run := machine.executeNode U dag
  nodeId_run node env results := by
    cases node with
    | bash n => exact machine.await_nodeId _ _ _
    | command n =>
      cases hwhich : machine.which n.skill with
      | some binPath =>
        simp only [executeNode, hwhich]
        exact machine.await_nodeId _ _ _
      | none =>
        simp only [executeNode, hwhich]
        rfl
    | prompt n => rfl
    | loop n => rfl
    | approval n => rfl

end Machine

/-! ## Reports -/

namespace WaveState

variable {dag : WorkflowDag} {exec : NodeExec} {env : Env} {arrivals : Arrivals}

/-- Nothing happens after a wave that spawns nothing. -/
theorem waveAt_of_end {w j : ℕ} (hend : spawnedAt dag exec env arrivals w = []) (hj : w ≤ j) :
    waveAt dag exec env arrivals j = waveAt dag exec env arrivals w := by
  induction j, hj using Nat.le_induction with
  | base => rfl
  | succ j _ ih =>
    have hready : (waveAt dag exec env arrivals w).ready dag = [] := hend
    have hspawn : arrivals.order j ((waveAt dag exec env arrivals w).spawn dag exec env) = [] := by
      apply List.Perm.eq_nil
      refine (arrivals.perm _ _).trans ?_
      rw [spawn, hready]
      exact List.Perm.refl _
    rw [waveAt, ih, wave, hspawn, hready]
    rfl

/-- The tasks of the loop from wave `k` on are those of the waves up to its end. -/
theorem mem_loopLaunches_iff {fuel k : ℕ} {task : Launch} :
    task ∈ (waveAt dag exec env arrivals k).loopLaunches dag exec env arrivals fuel k ↔
      ∃ j, k ≤ j ∧ j < k + fuel ∧ (∀ i, k ≤ i → i < j → spawnedAt dag exec env arrivals i ≠ []) ∧
        ∃ id ∈ spawnedAt dag exec env arrivals j, dag.nodeMap id = some task.node ∧
          task.env = env ∧ task.results = (waveAt dag exec env arrivals j).results := by
  induction fuel generalizing k with
  | zero =>
    refine ⟨fun hmem => (List.not_mem_nil hmem).elim, ?_⟩
    rintro ⟨j, hle, hlt, -⟩
    omega
  | succ fuel ih =>
    have hhere : task ∈ (waveAt dag exec env arrivals k).launches dag env ↔
        ∃ id ∈ spawnedAt dag exec env arrivals k, dag.nodeMap id = some task.node ∧
          task.env = env ∧ task.results = (waveAt dag exec env arrivals k).results := by
      unfold launches
      rw [List.mem_map]
      constructor
      · rintro ⟨node, hnode, rfl⟩
        obtain ⟨id, hid, hmap⟩ := List.mem_filterMap.mp hnode
        exact ⟨id, hid, hmap, rfl, rfl⟩
      · rintro ⟨id, hid, hmap, rfl, hresults⟩
        refine ⟨task.node, List.mem_filterMap.mpr ⟨id, hid, hmap⟩, ?_⟩
        rw [← hresults]
    rw [loopLaunches]
    split_ifs with hready
    · refine ⟨fun hmem => (List.not_mem_nil hmem).elim, ?_⟩
      rintro ⟨j, hle, -, hne, id, hid, -⟩
      rcases Nat.eq_or_lt_of_le hle with rfl | hlt
      · exact absurd hid (by rw [spawnedAt, hready]; exact List.not_mem_nil)
      · exact absurd hready (hne k (le_refl k) hlt)
    · rw [List.mem_append, hhere]
      have hnext := ih (k := k + 1)
      rw [waveAt] at hnext
      rw [hnext]
      constructor
      · rintro (htask | ⟨j, hle, hlt, hne, htask⟩)
        · exact ⟨k, le_refl k, by omega, fun i h₁ h₂ => by omega, htask⟩
        · refine ⟨j, by omega, by omega, fun i h₁ h₂ => ?_, htask⟩
          rcases Nat.eq_or_lt_of_le h₁ with rfl | hki
          · exact hready
          · exact hne i hki h₂
      · rintro ⟨j, hle, hlt, hne, htask⟩
        rcases Nat.eq_or_lt_of_le hle with rfl | hkj
        · exact .inl htask
        · exact .inr ⟨j, hkj, by omega, fun i h₁ h₂ => hne i (by omega) h₂, htask⟩

end WaveState

/-- What the tasks of a run are shown and what the run reports. -/
structure Consistent (dag : WorkflowDag) (exec : NodeExec) (tasks : List Launch)
    (reports : List NodeResult) : Prop where
  /-- A result that a task is shown is reported. -/
  final : ∀ task ∈ tasks, ∀ id ∈ dag.ids, ∀ r, task.results id = some r →
    r ∈ reports ∧ r.nodeId = id
  /-- The rule of a task is met by the successes it is shown. -/
  met : ∀ task ∈ tasks,
    RuleMet dag (fun p => ∃ r, task.results p = some r ∧ r.status = .success) task.node
  /-- The result of a task is reported. -/
  ran : ∀ task ∈ tasks, exec.run task.node task.env task.results ∈ reports
  /-- A report is the result of a task, or the empty skip of a node without a task. -/
  reported : ∀ r ∈ reports, (∃ task ∈ tasks, exec.run task.node task.env task.results = r) ∨
    r = skippedResult r.nodeId ∧ ∀ task ∈ tasks, task.node.id ≠ r.nodeId

section Reports

variable {dag : WorkflowDag} {exec : NodeExec} {arrivals : Arrivals}

/-- The tasks of a run are those of its waves. -/
theorem mem_runLaunches_iff (h : dag.Valid) (hlength : dag.topoSort.length = dag.nodes.length)
    {pairs : List (String × String)} {task : Launch} :
    let env := mergeEnv (runEnv dag.env pairs) dag.env
    task ∈ runLaunches pairs exec arrivals dag ↔
      ∃ j, task.node.id ∈ spawnedAt dag exec env arrivals j ∧ task.node ∈ dag.nodes ∧
        task.env = env ∧ task.results = (waveAt dag exec env arrivals j).results := by
  intro env
  obtain ⟨w, hle, -, hend, hbefore⟩ := waveLoop_ends h exec env arrivals
  have hloop := @mem_loopLaunches_iff dag exec env arrivals (dag.nodes.length + 1) 0 task
  unfold runLaunches
  rw [if_neg (by simp [WorkflowDag.sortEnd_queue h, hlength])]
  refine hloop.trans ?_
  constructor
  · rintro ⟨j, -, -, -, id, hid, hnode, henv, hresults⟩
    obtain ⟨hmem, rfl⟩ := (WorkflowDag.nodeMap_eq_some_iff h).mp hnode
    exact ⟨j, hid, hmem, henv, hresults⟩
  · rintro ⟨j, hid, hnode, henv, hresults⟩
    have hj : j < w := by
      by_contra hj
      rw [spawnedAt, waveAt_of_end hend (Nat.le_of_not_lt hj)] at hid
      exact List.not_mem_nil (show task.node.id ∈ [] from hend ▸ hid)
    exact ⟨j, Nat.zero_le j, by omega, fun i _ hi => hbefore i (hi.trans hj), _, hid,
      WorkflowDag.nodeMap_id h hnode, henv, hresults⟩

/-- A result of any wave is the one that is collected. -/
theorem collect_of_results (h : dag.Valid) {env : Env} {j : ℕ} {id : String} {r : NodeResult}
    (hr : (waveAt dag exec (mergeEnv env dag.env) arrivals j).results id = some r) :
    (finalState env exec arrivals dag).collect id = r := by
  obtain ⟨w, hw, hend⟩ := finalState_eq h env exec arrivals
  have hfinal : (waveAt dag exec (mergeEnv env dag.env) arrivals w).results id = some r := by
    rcases Nat.le_total j w with hle | hle
    · exact results_mono h hle hr
    · rw [waveAt_of_end hend hle] at hr
      exact hr
  rw [hw, collect, hfinal]
  rfl

/-- A node that no wave spawned is reported as an empty skip. -/
theorem collect_of_not_spawned (h : dag.Valid) {env : Env} {id : String}
    (hspawn : ∀ j, id ∉ spawnedAt dag exec (mergeEnv env dag.env) arrivals j) :
    (finalState env exec arrivals dag).collect id = skippedResult id := by
  obtain ⟨w, hw, -⟩ := finalState_eq h env exec arrivals
  have hinv := inv_waveAt h exec (mergeEnv env dag.env) arrivals w
  have hcompleted : id ∉ (waveAt dag exec (mergeEnv env dag.env) arrivals w).completed := by
    intro hc
    obtain ⟨j, -, hj⟩ := (mem_completed_iff h).mp hc
    exact hspawn j hj
  rw [hw, collect]
  by_cases hs : id ∈ (waveAt dag exec (mergeEnv env dag.env) arrivals w).skipped
  · rw [hinv.marked _ hs]
    rfl
  · rw [hinv.unset _ ⟨hcompleted, hs⟩]
    rfl

/-- **Reports.** What the tasks of a run are shown and what the run reports agree: a task reads
final results only, its rule is met by what it reads, and every report that is no empty skip is the
result of a task. -/
theorem runLaunches_consistent (pairs : List (String × String)) (exec : NodeExec)
    (arrivals : Arrivals) (dag : WorkflowDag) (hvalid : validateDag dag = .ok ())
    (hacyclic : ¬ dag.HasCycle) (hedges : dag.edges.Nodup) :
    ∃ rs, runInner (runEnv dag.env pairs) exec arrivals dag = .ok rs ∧
      Consistent dag exec (runLaunches pairs exec arrivals dag) rs := by
  have h := (validateDag_ok_iff dag).mp hvalid
  have hlength := (WorkflowDag.length_topoSort_eq_iff h (WorkflowDag.nodup_topoSort h hedges)).mpr
    hacyclic
  obtain ⟨hrun, -⟩ := runInner_of_acyclic h hacyclic hedges (runEnv dag.env pairs) exec arrivals
  set env := mergeEnv (runEnv dag.env pairs) dag.env with henv
  have hmem {task : Launch} : task ∈ runLaunches pairs exec arrivals dag ↔
      ∃ j, task.node.id ∈ spawnedAt dag exec env arrivals j ∧ task.node ∈ dag.nodes ∧
        task.env = env ∧ task.results = (waveAt dag exec env arrivals j).results :=
    mem_runLaunches_iff h hlength
  -- A result of any wave is reported.
  have hreport : ∀ {j id r}, id ∈ dag.ids → (waveAt dag exec env arrivals j).results id = some r →
      r ∈ dag.topoSort.map (finalState (runEnv dag.env pairs) exec arrivals dag).collect ∧
        r.nodeId = id := by
    intro j id r hid hr
    have hcollect := collect_of_results h hr
    refine ⟨List.mem_map.mpr ⟨id, WorkflowDag.mem_topoSort_of_acyclic h hacyclic hid, hcollect⟩, ?_⟩
    rw [← hcollect]
    exact collect_nodeId h id
  have hran : ∀ {task : Launch} {j}, task.node.id ∈ spawnedAt dag exec env arrivals j →
      task.node ∈ dag.nodes → (waveAt dag exec env arrivals (j + 1)).results task.node.id =
        some (exec.run task.node env (waveAt dag exec env arrivals j).results) :=
    fun hid hnode => results_of_spawned h (Nat.lt_succ_self _) hid (WorkflowDag.nodeMap_id h hnode)
  refine ⟨_, hrun, ?_, ?_, ?_, ?_⟩
  · intro task htask id hid r hr
    obtain ⟨j, -, -, -, hresults⟩ := hmem.mp htask
    rw [hresults] at hr
    exact hreport hid hr
  · intro task htask
    obtain ⟨j, hid, hnode, -, hresults⟩ := hmem.mp htask
    rw [hresults]
    refine (RuleMet.congr fun p _ => ?_).mp ((mem_spawnedAt_iff h hnode).mp hid).2.2
    exact (success_iff h).symm
  · intro task htask
    obtain ⟨j, hid, hnode, htaskEnv, hresults⟩ := hmem.mp htask
    rw [htaskEnv, hresults]
    exact (hreport (List.mem_map_of_mem hnode) (hran hid hnode)).1
  · intro r hr
    obtain ⟨id, hid, rfl⟩ := List.mem_map.mp hr
    have hids := ((WorkflowDag.mem_topoSort_iff h).mp hid).1
    obtain ⟨node, hnode, rfl⟩ := List.mem_map.mp hids
    rw [collect_nodeId h]
    by_cases hspawn : ∃ j, node.id ∈ spawnedAt dag exec env arrivals j
    · obtain ⟨j, hj⟩ := hspawn
      refine .inl ⟨⟨node, env, (waveAt dag exec env arrivals j).results⟩,
        hmem.mpr ⟨j, hj, hnode, rfl, rfl⟩, ?_⟩
      exact (collect_of_results h
        (results_of_spawned h (Nat.lt_succ_self j) hj (WorkflowDag.nodeMap_id h hnode))).symm
    · refine .inr ⟨?_, fun task htask he => ?_⟩
      · exact collect_of_not_spawned h fun j hj => hspawn ⟨j, hj⟩
      · obtain ⟨j, hj, -⟩ := hmem.mp htask
        exact hspawn ⟨j, he ▸ hj⟩

theorem runLaunches_consistent_pair :
    ∃ rs, runInner (runEnv twiceDag.simple.env []) quietExec Arrivals.inOrder twiceDag.simple =
        .ok rs ∧
      Consistent twiceDag.simple quietExec
        (runLaunches [] quietExec Arrivals.inOrder twiceDag.simple) rs :=
  runLaunches_consistent [] quietExec Arrivals.inOrder twiceDag.simple (by decide)
    (WorkflowDag.simple_hasCycle.not.mpr twiceDag_acyclic) (by decide)

end Reports

/-! ## Prompt and loop nodes -/

/-- The nodes whose rules need the success of a prompt or loop node. -/
inductive Blocked (dag : WorkflowDag) : String → Prop
  | prompt (n : PromptNode) (hnode : .prompt n ∈ dag.nodes) : Blocked dag n.id
  | loop (n : LoopNode) (hnode : .loop n ∈ dag.nodes) : Blocked dag n.id
  | all (node : DagNode) (hnode : node ∈ dag.nodes) (hrule : node.triggerRule = .allSuccess)
      (p : String) (hp : p ∈ dag.predecessors node.id) (hblocked : Blocked dag p) :
      Blocked dag node.id
  | one (node : DagNode) (hnode : node ∈ dag.nodes) (hrule : node.triggerRule = .oneSuccess)
      (hne : dag.predecessors node.id ≠ [])
      (hblocked : ∀ p ∈ dag.predecessors node.id, Blocked dag p) : Blocked dag node.id

section Blocking

variable {dag : WorkflowDag} {U : Unicode} {machine : Machine} {env : Env} {arrivals : Arrivals}

/-- A wave that spawns a blocked node spawns a prompt or loop node. -/
theorem Blocked.run (h : dag.Valid) {id : String} (hblocked : Blocked dag id) {j : ℕ}
    (hid : id ∈ spawnedAt dag (machine.exec U dag) env arrivals j) {node : DagNode}
    (hnode : dag.nodeMap id = some node) :
    (machine.exec U dag).run node env
      (waveAt dag (machine.exec U dag) env arrivals j).results = skippedResult id := by
  -- A predecessor whose runs are all skipped has succeeded in no wave.
  have hnever : ∀ {p : String}, (∀ {i : ℕ} {node : DagNode},
      p ∈ spawnedAt dag (machine.exec U dag) env arrivals i → dag.nodeMap p = some node →
      (machine.exec U dag).run node env
        (waveAt dag (machine.exec U dag) env arrivals i).results = skippedResult p) →
      ∀ k, ¬ SucceededBefore dag (machine.exec U dag) env arrivals k p := by
    rintro p hrun k ⟨i, -, hp, node, hnode, hsuccess⟩
    rw [hrun hp hnode] at hsuccess
    cases hsuccess
  induction hblocked generalizing j node with
  | prompt n hn =>
    obtain rfl := Option.some.inj (hnode.symm.trans (WorkflowDag.nodeMap_id h hn))
    rfl
  | loop n hn =>
    obtain rfl := Option.some.inj (hnode.symm.trans (WorkflowDag.nodeMap_id h hn))
    rfl
  | all node' hnode' hrule p hp _ ih =>
    have hmet := ((mem_spawnedAt_iff h hnode').mp hid).2.2
    rw [RuleMet, hrule] at hmet
    exact absurd (hmet.resolve_left (List.ne_nil_of_mem hp) p hp) (hnever (fun hi hn => ih hi hn) j)
  | one node' hnode' hrule hne _ ih =>
    have hmet := ((mem_spawnedAt_iff h hnode').mp hid).2.2
    rw [RuleMet, hrule] at hmet
    obtain ⟨p, hp, hsuccess⟩ := hmet.resolve_left hne
    exact absurd hsuccess (hnever (fun hi hn => ih p hp hi hn) j)

theorem Blocked.collect (h : dag.Valid) {id : String} (hblocked : Blocked dag id) :
    (finalState env (machine.exec U dag) arrivals dag).collect id = skippedResult id := by
  by_cases hspawn : ∃ j, id ∈ spawnedAt dag (machine.exec U dag) (mergeEnv env dag.env) arrivals j
  · obtain ⟨j, hj⟩ := hspawn
    have hids := ((WorkflowDag.mem_topoSort_iff h).mp (mem_ready.mp hj).1).1
    obtain ⟨node, hnode⟩ := WorkflowDag.exists_nodeMap h hids
    rw [collect_of_results h (results_of_spawned h (Nat.lt_succ_self j) hj hnode)]
    exact hblocked.run h hj hnode
  · exact collect_of_not_spawned h fun j hj => hspawn ⟨j, hj⟩

/-- **Prompts and loops.** A node whose rule needs the success of a prompt or loop node is skipped
without output on every machine. -/
theorem blocked_skipped (U : Unicode) (machine : Machine) (env : Env) (arrivals : Arrivals)
    (dag : WorkflowDag) (hvalid : validateDag dag = .ok ()) {rs : List NodeResult}
    (hrun : runInner env (machine.exec U dag) arrivals dag = .ok rs) {r : NodeResult}
    (hr : r ∈ rs) (hblocked : Blocked dag r.nodeId) : r = skippedResult r.nodeId := by
  have h := (validateDag_ok_iff dag).mp hvalid
  rw [runInner_eq h] at hrun
  split_ifs at hrun
  obtain rfl := Except.ok.inj hrun
  obtain ⟨id, hid, rfl⟩ := List.mem_map.mp hr
  rw [collect_nodeId h] at hblocked ⊢
  exact hblocked.collect h

/-- A machine on which everything works and everybody agrees. -/
def Machine.obliging : Machine where
  shell _ _ _ := .output true ""
  process _ _ _ := .output true ""
  inTime _ _ := true
  which skill := some skill
  readLine _ := some "y".toList
  order _ ids := ids
  order_perm _ ids := List.Perm.refl ids

/-- A bash node that waits for a prompt node. -/
def promptDag : WorkflowDag where
  workflowId := "prompt"
  nodes := [.prompt { id := "plan" }, .bash { id := "apply", command := "$plan.output" }]
  edges := [⟨"plan", "apply"⟩]

/-- Neither the prompt node nor the node that waits for it does anything, although every command
works. -/
theorem blocked_skipped_apply : ∃ rs,
    runInner (fun _ => none) (Machine.obliging.exec .asciiTables promptDag) Arrivals.inOrder
        promptDag = .ok rs ∧
      rs.map (·.nodeId) = ["plan", "apply"] ∧ ∀ r ∈ rs, r = skippedResult r.nodeId := by
  obtain ⟨rs, hrun, hids⟩ : ∃ rs, runInner (fun _ => none)
      (Machine.obliging.exec .asciiTables promptDag) Arrivals.inOrder promptDag = .ok rs ∧
      rs.map (·.nodeId) = ["plan", "apply"] :=
    ⟨[skippedResult "plan", skippedResult "apply"], by decide, by decide⟩
  have hplan : Blocked promptDag "plan" := .prompt { id := "plan" } (by decide)
  have happly : Blocked promptDag "apply" :=
    .all (.bash { id := "apply", command := "$plan.output" }) (by decide) rfl "plan" (by decide)
      hplan
  refine ⟨rs, hrun, hids, fun r hr => blocked_skipped .asciiTables Machine.obliging
    (fun _ => none) Arrivals.inOrder promptDag (by decide) hrun hr ?_⟩
  have hmem : r.nodeId ∈ ["plan", "apply"] := hids ▸ List.mem_map_of_mem hr
  rcases List.mem_pair.mp hmem with hid | hid
  · exact hid ▸ hplan
  · exact hid ▸ happly

/-- On the obliging machine every node with a runner succeeds. -/
theorem obliging_success {node : DagNode} (hnode : node ∈ dag.nodes)
    (hfree : ¬ Blocked dag node.id) (results : Results) :
    ((Machine.obliging.exec U dag).run node env results).status = .success := by
  have hawait : ∀ id idleTimeout,
      (Machine.obliging.await id idleTimeout (.output true "")).status = .success := by
    intro id idleTimeout
    cases idleTimeout <;> rfl
  cases node with
  | prompt n => exact absurd (Blocked.prompt n hnode) hfree
  | loop n => exact absurd (Blocked.loop n hnode) hfree
  | bash n => exact hawait _ _
  | command n => exact hawait _ _
  | approval n =>
    have hlower : U.toLowercase (trim "y".toList) = "y".toList := by
      have hword : IsWord "y".toList := ⟨by simp, by simp [isWhitespace]⟩
      rw [trim_word hword, U.ascii _ (by simp)]
      decide
    show (if _ then NodeStatus.success else NodeStatus.failed) = _
    exact if_pos (.inl hlower)

/-- **Prompts and loops.** In a DAG of AllSuccess nodes, a node succeeds on some machine if and only
if neither it nor a node before it is a prompt or loop node. -/
theorem succeeds_iff (U : Unicode) (env : Env) (dag : WorkflowDag)
    (hvalid : validateDag dag = .ok ()) (hacyclic : ¬ dag.HasCycle) (hedges : dag.edges.Nodup)
    (hrules : ∀ node ∈ dag.nodes, node.triggerRule = .allSuccess) {id : String}
    (hid : id ∈ dag.ids) :
    (∃ (machine : Machine) (arrivals : Arrivals) (rs : List NodeResult),
      runInner env (machine.exec U dag) arrivals dag = .ok rs ∧
        ∃ r ∈ rs, r.nodeId = id ∧ r.status = .success) ↔ ¬ Blocked dag id := by
  have h := (validateDag_ok_iff dag).mp hvalid
  constructor
  · rintro ⟨machine, arrivals, rs, hrun, r, hr, rfl, hsuccess⟩ hblocked
    rw [runInner_eq h] at hrun
    split_ifs at hrun
    obtain rfl := Except.ok.inj hrun
    obtain ⟨id, hid, rfl⟩ := List.mem_map.mp hr
    rw [collect_nodeId h] at hblocked
    rw [hblocked.collect h] at hsuccess
    cases hsuccess
  · intro hfree
    set exec := Machine.obliging.exec U dag with hexec
    obtain ⟨hrun, -⟩ := runInner_of_acyclic h hacyclic hedges env exec Arrivals.inOrder
    refine ⟨Machine.obliging, Arrivals.inOrder, _, hrun, _, List.mem_map_of_mem
      (WorkflowDag.mem_topoSort_of_acyclic h hacyclic hid), collect_nodeId h id, ?_⟩
    -- By induction along the edges: the predecessors of a free node are free.
    induction id using (WorkflowDag.wellFounded h hacyclic).induction with
    | _ id ih =>
      obtain ⟨node, hnode, rfl⟩ := List.mem_map.mp hid
      have hcases := @collect_cases dag env exec Arrivals.inOrder h hacyclic hrules node hnode
      rcases hcases with ⟨-, env', results, hran⟩ | ⟨⟨p, hp, hne⟩, -⟩
      · exact hran.trans (obliging_success hnode hfree results)
      · have hedge := WorkflowDag.mem_predecessors.mp hp
        exact absurd (ih p hedge (h.closed _ hedge).1 fun hblocked =>
          hfree (.all node hnode (hrules node hnode) p hp hblocked)) hne

theorem succeeds_iff_plan :
    (∃ (machine : Machine) (arrivals : Arrivals) (rs : List NodeResult),
      runInner (fun _ => none) (machine.exec Unicode.asciiTables promptDag) arrivals promptDag =
          .ok rs ∧
        ∃ r ∈ rs, r.nodeId = "plan" ∧ r.status = .success) ↔ ¬ Blocked promptDag "plan" := by
  have hvalid : validateDag promptDag = .ok () := by decide
  have hacyclic : ¬ promptDag.HasCycle := by
    rw [WorkflowDag.hasCycle_iff_length ((validateDag_ok_iff _).mp hvalid)]
    decide
  exact succeeds_iff Unicode.asciiTables _ promptDag hvalid hacyclic (by decide) (by decide)
    (by decide)

end Blocking

end Hymenium
