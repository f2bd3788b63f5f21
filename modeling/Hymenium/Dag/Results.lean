import Hymenium.Dag.Waves

/-!
# What a DAG run returns

`ExactRun` is the contract of `runInner` on a validated DAG: a cycle error exactly for cyclic
DAGs, otherwise one result per node in an order that follows the edges. It holds when no repeated
edge fires, and for acyclic DAGs only then.

For a DAG whose nodes all have the AllSuccess rule the statuses are those of the recursive
`reference`.
-/

namespace Hymenium

open WaveState

variable {dag : WorkflowDag} {env : Env} {exec : NodeExec} {arrivals : Arrivals}

/-- The state in which the wave loop of a run ends. -/
def finalState (env : Env) (exec : NodeExec) (arrivals : Arrivals) (dag : WorkflowDag) :
    WaveState :=
  WaveState.init.waveLoop dag exec (mergeEnv env dag.env) arrivals (dag.nodes.length + 1) 0

theorem finalState_eq (h : dag.Valid) (env : Env) (exec : NodeExec) (arrivals : Arrivals) :
    ∃ w, finalState env exec arrivals dag = waveAt dag exec (mergeEnv env dag.env) arrivals w ∧
      spawnedAt dag exec (mergeEnv env dag.env) arrivals w = [] := by
  obtain ⟨w, -, hw, hend, -⟩ := waveLoop_ends h exec (mergeEnv env dag.env) arrivals
  exact ⟨w, hw, hend⟩

/-- Neither loop of a run uses up its turns. -/
theorem runInner_eq (h : dag.Valid) (env : Env) (exec : NodeExec) (arrivals : Arrivals) :
    runInner env exec arrivals dag =
      if dag.topoSort.length ≠ dag.nodes.length then
        .error (cycleError dag.nodes.length dag.topoSort.length)
      else .ok (dag.topoSort.map (finalState env exec arrivals dag).collect) := by
  obtain ⟨w, hw, hend⟩ := finalState_eq h env exec arrivals
  have hready : (finalState env exec arrivals dag).ready dag = [] := by
    rw [hw]
    exact hend
  unfold runInner
  rw [show (WaveState.init.waveLoop dag exec (mergeEnv env dag.env) arrivals
    (dag.nodes.length + 1) 0) = finalState env exec arrivals dag from rfl]
  simp only [WorkflowDag.sortEnd_queue h, hready, ne_eq, not_true_eq_false, if_false]

theorem collect_nodeId (h : dag.Valid) (id : String) :
    ((finalState env exec arrivals dag).collect id).nodeId = id := by
  obtain ⟨w, hw, -⟩ := finalState_eq h env exec arrivals
  have hinv := inv_waveAt h exec (mergeEnv env dag.env) arrivals w
  rw [hw]
  unfold collect
  by_cases hs : id ∈ (waveAt dag exec (mergeEnv env dag.env) arrivals w).skipped
  · rw [hinv.marked id hs]
    rfl
  by_cases hc : id ∈ (waveAt dag exec (mergeEnv env dag.env) arrivals w).completed
  · obtain ⟨r, hr, hid⟩ := hinv.set id hc
    rw [hr]
    exact hid
  · rw [hinv.unset id ⟨hc, hs⟩]
    rfl

/-! ## Cycles and order -/

/-- The contract of a run. -/
structure ExactRun (dag : WorkflowDag) (out : Except DagError (List NodeResult)) : Prop where
  cycle_iff : (∃ n, out = .error (.cycle n)) ↔ dag.HasCycle
  noOtherError : ∀ e, out = .error e → ∃ n, e = .cycle n
  listed : ∀ rs, out = .ok rs → (rs.map NodeResult.nodeId).Perm dag.ids
  ordered : ∀ rs, out = .ok rs → ∀ l₁ r l₂, rs = l₁ ++ r :: l₂ →
    ∀ e ∈ dag.edges, e.toId = r.nodeId → ∃ r' ∈ l₁, r'.nodeId = e.fromId

theorem exactRun_cycle (hcycle : dag.HasCycle) (n : ℕ) :
    ExactRun dag (.error (.cycle n)) where
  cycle_iff := ⟨fun _ => hcycle, fun _ => ⟨n, rfl⟩⟩
  noOtherError e he := by
    cases he
    exact ⟨n, rfl⟩
  listed rs hrs := by cases hrs
  ordered rs hrs := by cases hrs

/-- A sort that lists no node twice makes the run exact. -/
theorem exactRun_of_nodup (h : dag.Valid) (hnodup : dag.topoSort.Nodup) :
    ExactRun dag (runInner env exec arrivals dag) := by
  have hle := WorkflowDag.length_topoSort_le h hnodup
  have hlen := WorkflowDag.length_topoSort_eq_iff h hnodup
  rw [runInner_eq h]
  by_cases heq : dag.topoSort.length = dag.nodes.length
  · rw [if_neg (not_not.mpr heq)]
    refine ⟨by simp [hlen.mp heq], fun e he => ?_, fun rs hrs => ?_,
      fun rs hrs l₁ r l₂ hsplit e he hto => ?_⟩
    · cases he
    · cases hrs
      have hids : (dag.topoSort.map (finalState env exec arrivals dag).collect).map
          NodeResult.nodeId = dag.topoSort := by
        rw [List.map_map]
        exact List.map_id'' (fun id => collect_nodeId h id) _
      rw [hids]
      refine (List.perm_ext_iff_of_nodup hnodup h.nodup).mpr fun v => ?_
      exact ⟨fun hv => ((WorkflowDag.mem_topoSort_iff h).mp hv).1,
        WorkflowDag.mem_topoSort_of_acyclic h (hlen.mp heq)⟩
    · cases hrs
      obtain ⟨m₁, m, hm, rfl, hrest⟩ := List.map_eq_append_iff.mp hsplit
      obtain ⟨v, m₂, rfl, rfl, -⟩ := List.map_eq_cons_iff.mp hrest
      rw [collect_nodeId h] at hto
      have hpred : e.fromId ∈ dag.predecessors v :=
        WorkflowDag.mem_predecessors.mpr (by rw [← hto]; exact he)
      refine ⟨_, List.mem_map_of_mem (WorkflowDag.topoSort_sorted h hm _ hpred), ?_⟩
      exact collect_nodeId h _
  · rw [if_pos heq]
    have hcycle : dag.HasCycle := by
      by_contra hno
      exact heq (hlen.mpr hno)
    have herr : cycleError dag.nodes.length dag.topoSort.length =
        .cycle (dag.nodes.length - dag.topoSort.length) := if_pos hle
    rw [herr]
    exact exactRun_cycle hcycle _

/-- A run of an acyclic DAG without repeated edges lists the final result of every node. -/
theorem runInner_of_acyclic (h : dag.Valid) (hacyclic : ¬ dag.HasCycle) (hedges : dag.edges.Nodup)
    (env : Env) (exec : NodeExec) (arrivals : Arrivals) :
    runInner env exec arrivals dag =
        .ok (dag.topoSort.map (finalState env exec arrivals dag).collect) ∧
      ((dag.topoSort.map (finalState env exec arrivals dag).collect).map
        NodeResult.nodeId).Perm dag.ids := by
  have hnodup := WorkflowDag.nodup_topoSort h hedges
  have hlen := (WorkflowDag.length_topoSort_eq_iff h hnodup).mpr hacyclic
  have hrun := runInner_eq h env exec arrivals
  rw [if_neg (not_not.mpr hlen)] at hrun
  exact ⟨hrun, (exactRun_of_nodup h hnodup).listed _ hrun⟩

/-- **Arrival order.** A run of a validated acyclic DAG with distinct edges returns one list of
results, whatever order the tasks of each wave finish in. -/
theorem runInner_arrivals (env : Env) (exec : NodeExec) (dag : WorkflowDag)
    (hvalid : validateDag dag = .ok ()) (hacyclic : ¬ dag.HasCycle) (hedges : dag.edges.Nodup) :
    ∃ rs, ∀ arrivals, runInner env exec arrivals dag = .ok rs := by
  have h := (validateDag_ok_iff dag).mp hvalid
  refine ⟨dag.topoSort.map (finalState env exec Arrivals.inOrder dag).collect, fun arrivals => ?_⟩
  obtain ⟨hrun, -⟩ := runInner_of_acyclic h hacyclic hedges env exec arrivals
  have hfinal : finalState env exec arrivals dag = finalState env exec Arrivals.inOrder dag :=
    waveLoop_arrivals h arrivals Arrivals.inOrder _ _ _
  rw [hrun, hfinal]

/-- The two tasks of the first wave finish in any order. -/
theorem runInner_arrivals_join :
    ∃ rs, ∀ arrivals, runInner (fun _ => none)
      ⟨fun node _ _ => ⟨node.id, .success, ""⟩, fun _ _ _ => rfl⟩ arrivals
      joinDag.simple = .ok rs :=
  runInner_arrivals _ _ joinDag.simple (by decide)
    (WorkflowDag.simple_hasCycle.not.mpr joinDag_acyclic) (by decide)

/-- On an acyclic DAG, a node listed twice makes the count of unreachable nodes underflow. -/
theorem runInner_of_dup (h : dag.Valid) (hacyclic : ¬ dag.HasCycle)
    (hdup : ¬ dag.topoSort.Nodup) :
    runInner env exec arrivals dag = .error .subtractOverflow := by
  have hlt := WorkflowDag.length_lt_topoSort h hacyclic hdup
  rw [runInner_eq h, if_pos (by omega), cycleError, if_neg (by omega)]

/-- **Sort and cycle test.** A run on a validated DAG is exact when no repeated edge fires, and a
run on an acyclic one only then. -/
theorem exactRun_iff (env : Env) (exec : NodeExec) (arrivals : Arrivals) (dag : WorkflowDag)
    (hvalid : validateDag dag = .ok ()) :
    (¬ dag.RepeatedEdgeFires → ExactRun dag (runInner env exec arrivals dag)) ∧
      (¬ dag.HasCycle → ExactRun dag (runInner env exec arrivals dag) →
        ¬ dag.RepeatedEdgeFires) := by
  have h := (validateDag_ok_iff dag).mp hvalid
  rw [← WorkflowDag.nodup_topoSort_iff h]
  refine ⟨exactRun_of_nodup h, fun hacyclic hexact => ?_⟩
  by_contra hdup
  obtain ⟨n, hn⟩ := hexact.noOtherError _ (runInner_of_dup h hacyclic hdup)
  cases hn

/-- On a cyclic DAG the run is exact when the sort lists fewer entries than there are nodes. -/
theorem exactRun_iff_of_cycle (h : dag.Valid) (hcycle : dag.HasCycle) :
    ExactRun dag (runInner env exec arrivals dag) ↔
      dag.topoSort.length < dag.nodes.length := by
  constructor
  · intro hexact
    obtain ⟨n, hn⟩ := hexact.cycle_iff.mpr hcycle
    rw [runInner_eq h] at hn
    split_ifs at hn with hne
    unfold cycleError at hn
    split_ifs at hn with hle
    · omega
    · cases hn
  · intro hlt
    rw [runInner_eq h, if_pos (by omega), cycleError, if_pos (by omega)]
    exact exactRun_cycle hcycle _

/-- The edge of `twiceDag` is written twice: the DAG is accepted and has no cycle, and its run fails
in the arithmetic of the cycle error. -/
theorem twiceDag_overflow :
    validateDag twiceDag = .ok () ∧ ¬ twiceDag.HasCycle ∧
      runInner (fun _ => none) ⟨fun node _ _ => ⟨node.id, .success, ""⟩, fun _ _ _ => rfl⟩
        Arrivals.inOrder twiceDag = .error .subtractOverflow :=
  ⟨by decide, twiceDag_acyclic, by decide⟩

/-- A repeated edge that does not fire. -/
theorem exactRun_joinDag : ¬ joinDag.edges.Nodup ∧ ExactRun joinDag (runInner (fun _ => none)
    ⟨fun node _ _ => ⟨node.id, .success, ""⟩, fun _ _ _ => rfl⟩ Arrivals.inOrder joinDag) := by
  have hquiet : ¬ joinDag.RepeatedEdgeFires :=
    (WorkflowDag.nodup_topoSort_iff joinDag_valid).mp (by decide)
  exact ⟨by decide, (exactRun_iff _ _ _ joinDag (by decide)).1 hquiet⟩

/-! ## The recursive meaning of AllSuccess DAGs -/

section Reference

open Classical in
/-- The recursive meaning: a node has its own outcome when all its predecessors succeeded, and is
skipped otherwise. -/
noncomputable def reference (wf : WellFounded dag.Edge) (own : String → NodeStatus) :
    String → NodeStatus :=
  wf.fix fun v status =>
    if ∀ p, ∀ hp : dag.Edge p v, status p hp = .success then own v else .skipped

open Classical in
theorem reference_eq (wf : WellFounded dag.Edge) (own : String → NodeStatus) (v : String) :
    reference wf own v =
      if ∀ p ∈ dag.predecessors v, reference wf own p = .success then own v else .skipped := by
  unfold reference
  rw [WellFounded.fix_eq]
  refine if_congr ?_ rfl rfl
  exact forall_congr' fun p =>
    forall_prop_congr (fun _ => Iff.rfl) WorkflowDag.mem_predecessors.symm

/-- The reference is the only assignment of statuses that satisfies its equation. -/
theorem eq_reference (wf : WellFounded dag.Edge) (own status : String → NodeStatus)
    (h : ∀ v ∈ dag.ids, (∀ p ∈ dag.predecessors v, status p = .success) ∧ status v = own v ∨
      (∃ p ∈ dag.predecessors v, status p ≠ .success) ∧ status v = .skipped)
    (hvalid : dag.Valid) {v : String} (hv : v ∈ dag.ids) : status v = reference wf own v := by
  induction v using wf.induction with
  | _ v ih =>
    have hpred : ∀ p ∈ dag.predecessors v, status p = reference wf own p := fun p hp => by
      have he := WorkflowDag.mem_predecessors.mp hp
      exact ih p he (hvalid.closed _ he).1
    rw [reference_eq]
    rcases h v hv with ⟨hall, hown⟩ | ⟨⟨p, hp, hne⟩, hskip⟩
    · rw [if_pos fun p hp => by rw [← hpred p hp]; exact hall p hp]
      exact hown
    · rw [if_neg fun hall => hne (by rw [hpred p hp]; exact hall p hp)]
      exact hskip

/-- Without OneSuccess nodes nothing is marked skipped. -/
theorem skipped_eq_empty (h : dag.Valid)
    (hrules : ∀ node ∈ dag.nodes, node.triggerRule = .allSuccess) (exec : NodeExec) (env : Env)
    (arrivals : Arrivals) (k : ℕ) : (waveAt dag exec env arrivals k).skipped = ∅ := by
  have hrule : ∀ id, dag.rule id ≠ some .oneSuccess := by
    intro id hone
    obtain ⟨node, hnode, hr⟩ := Option.map_eq_some_iff.mp hone
    rw [hrules node ((WorkflowDag.nodeMap_eq_some_iff h).mp hnode).1] at hr
    cases hr
  have hothers : ∀ u st s, skipOthers dag u st s = st := fun u st s =>
    if_neg fun hc => hrule s hc.1
  have hfrom : ∀ st u, skipFrom dag st u = st := by
    intro st u
    unfold skipFrom
    split
    · split_ifs
      · exact List.foldl_fixed' (fun s => hothers u st s) _
      · rfl
    · rfl
  induction k with
  | zero => rfl
  | succ k ih =>
    rw [waveAt, wave, List.foldl_fixed' (fun u => hfrom _ u), foldl_record_skipped]
    exact ih

/-- A node with the AllSuccess rule has the status of a run of its own when all its predecessors
succeeded, and is skipped otherwise. -/
theorem collect_cases (h : dag.Valid) (hacyclic : ¬ dag.HasCycle)
    (hrules : ∀ node ∈ dag.nodes, node.triggerRule = .allSuccess) {node : DagNode}
    (hnode : node ∈ dag.nodes) :
    let status := fun id => ((finalState env exec arrivals dag).collect id).status
    (∀ p ∈ dag.predecessors node.id, status p = .success) ∧
        (∃ env results, status node.id = (exec.run node env results).status) ∨
      (∃ p ∈ dag.predecessors node.id, status p ≠ .success) ∧ status node.id = .skipped := by
  intro status
  have hrule := hrules node hnode
  obtain ⟨w, -, hw, hend, -⟩ := waveLoop_ends h exec (mergeEnv env dag.env) arrivals
  have hstatus : ∀ id, status id =
      ((waveAt dag exec (mergeEnv env dag.env) arrivals w).collect id).status := by
    intro id
    show ((finalState env exec arrivals dag).collect id).status = _
    rw [finalState, hw]
  have hskip := skipped_eq_empty h hrules exec (mergeEnv env dag.env) arrivals w
  by_cases hspawn : ∃ j < w, node.id ∈ spawnedAt dag exec (mergeEnv env dag.env) arrivals j
  · left
    obtain ⟨j, hj, hid⟩ := hspawn
    refine ⟨fun p hp => ?_, ?_⟩
    · have hmet := ((mem_spawnedAt_iff h hnode).mp hid).2.2
      rw [RuleMet, hrule] at hmet
      have hsucc := hmet.resolve_left (List.ne_nil_of_mem hp) p hp
      obtain ⟨r, hr, hs⟩ := (success_iff h).mpr hsucc
      rw [hstatus, collect_success_iff]
      exact ⟨r, results_mono h hj.le hr, hs⟩
    · refine ⟨mergeEnv env dag.env, (waveAt dag exec (mergeEnv env dag.env) arrivals j).results, ?_⟩
      rw [hstatus, collect, results_of_spawned h hj hid (WorkflowDag.nodeMap_id h hnode)]
      rfl
  · right
    have hopen : (waveAt dag exec (mergeEnv env dag.env) arrivals w).Open node.id :=
      ⟨fun hc => hspawn ((mem_completed_iff h).mp hc), by simp [hskip]⟩
    have hunmet := unmet_of_open h hacyclic hend hnode hopen
    rw [RuleMet, hrule, not_or] at hunmet
    refine ⟨?_, ?_⟩
    · have hex := hunmet.2
      simp only [not_forall] at hex
      obtain ⟨p, hp, hne⟩ := hex
      exact ⟨p, hp, by rw [hstatus]; exact hne⟩
    · rw [hstatus, collect, (inv_waveAt h exec (mergeEnv env dag.env) arrivals w).unset _ hopen]
      rfl

/-- The final statuses satisfy the equation of the reference. -/
theorem collect_recursive (hvalid : validateDag dag = .ok ()) (hacyclic : ¬ dag.HasCycle)
    (_ : dag.edges.Nodup) (hrules : ∀ node ∈ dag.nodes, node.triggerRule = .allSuccess)
    (own : String → NodeStatus)
    (hown : ∀ node env results, (exec.run node env results).status = own node.id) {v : String}
    (hv : v ∈ dag.ids) :
    let status := fun id => ((finalState env exec arrivals dag).collect id).status
    (∀ p ∈ dag.predecessors v, status p = .success) ∧ status v = own v ∨
      (∃ p ∈ dag.predecessors v, status p ≠ .success) ∧ status v = .skipped := by
  intro status
  have h := (validateDag_ok_iff dag).mp hvalid
  obtain ⟨node, hnode, rfl⟩ := List.mem_map.mp hv
  refine (collect_cases h hacyclic hrules hnode).imp_left fun hran => ⟨hran.1, ?_⟩
  obtain ⟨env', results, hstatus⟩ := hran.2
  exact hstatus.trans (hown node env' results)

/-- **Reference.** When every node has the AllSuccess rule and an outcome of its own, a run of a
validated acyclic DAG without repeated edges returns the statuses of the recursive meaning. -/
theorem runInner_reference (env : Env) (exec : NodeExec) (arrivals : Arrivals)
    (dag : WorkflowDag) (own : String → NodeStatus) (hvalid : validateDag dag = .ok ())
    (hacyclic : ¬ dag.HasCycle) (hedges : dag.edges.Nodup)
    (hrules : ∀ node ∈ dag.nodes, node.triggerRule = .allSuccess)
    (hown : ∀ node env results, (exec.run node env results).status = own node.id) :
    ∃ rs, runInner env exec arrivals dag = .ok rs ∧ (rs.map NodeResult.nodeId).Perm dag.ids ∧
      ∀ r ∈ rs, r.status = reference (WorkflowDag.wellFounded
        ((validateDag_ok_iff dag).mp hvalid) hacyclic) own r.nodeId := by
  have h := (validateDag_ok_iff dag).mp hvalid
  obtain ⟨hrun, hperm⟩ := runInner_of_acyclic h hacyclic hedges env exec arrivals
  refine ⟨_, hrun, hperm, fun r hr => ?_⟩
  obtain ⟨id, hid, rfl⟩ := List.mem_map.mp hr
  rw [collect_nodeId h]
  exact eq_reference _ own
    (fun id => ((finalState env exec arrivals dag).collect id).status)
    (fun v hv => collect_recursive hvalid hacyclic hedges hrules own hown hv) h
    ((WorkflowDag.mem_topoSort_iff h).mp hid).1

theorem runInner_reference_pair :
    ∃ rs, runInner (fun _ => none) ⟨fun node _ _ => ⟨node.id, .failed, ""⟩, fun _ _ _ => rfl⟩
        Arrivals.inOrder twiceDag.simple = .ok rs ∧
      (rs.map NodeResult.nodeId).Perm twiceDag.simple.ids ∧
      ∀ r ∈ rs, r.status = reference (WorkflowDag.wellFounded
        ((validateDag_ok_iff twiceDag.simple).mp (by decide))
        (WorkflowDag.simple_hasCycle.not.mpr twiceDag_acyclic)) (fun _ => .failed) r.nodeId :=
  runInner_reference _ _ _ twiceDag.simple (fun _ => .failed) (by decide)
    (WorkflowDag.simple_hasCycle.not.mpr twiceDag_acyclic) (by decide) (by decide)
    (fun _ _ _ => rfl)

end Reference

end Hymenium
