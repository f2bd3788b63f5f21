import Hymenium.Dag.Sort

/-!
# The wave loop of the executor

`WaveStep` says what one wave does to the state: the ready nodes complete with the results of their
runs, some open nodes are marked skipped, nothing else changes. `WaveState.Inv` and the facts about
whole runs follow from it.
-/

namespace Hymenium

/-! ## Node lookup -/

namespace WorkflowDag

variable {dag : WorkflowDag}

theorem foldl_nodeMap_of_ne {l : List DagNode} {id : String} (h : ∀ node ∈ l, node.id ≠ id)
    (m : String → Option DagNode) :
    l.foldl insertNode m id = m id := by
  induction l generalizing m with
  | nil => rfl
  | cons node l ih =>
    rw [List.foldl_cons, ih fun n hn => h n (by simp [hn])]
    exact Function.update_of_ne (h node (by simp)).symm _ _

theorem foldl_nodeMap_eq_some_iff {l : List DagNode} (h : (l.map DagNode.id).Nodup)
    {m : String → Option DagNode} {id : String} (hm : m id = none) {node : DagNode} :
    l.foldl insertNode m id = some node ↔
      node ∈ l ∧ node.id = id := by
  induction l generalizing m with
  | nil => simp [hm]
  | cons n l ih =>
    rw [List.map_cons, List.nodup_cons] at h
    rw [List.foldl_cons, List.mem_cons]
    by_cases hn : n.id = id
    · have hne : ∀ node ∈ l, node.id ≠ id := fun node hnode he =>
        h.1 (by rw [hn, ← he]; exact List.mem_map_of_mem hnode)
      rw [foldl_nodeMap_of_ne hne, insertNode, hn, Function.update_self, Option.some.injEq]
      constructor
      · rintro rfl
        exact ⟨.inl rfl, hn⟩
      · rintro ⟨rfl | hnode, he⟩
        · rfl
        · exact absurd he (hne node hnode)
    · rw [ih h.2 (by rw [insertNode, Function.update_of_ne (Ne.symm hn)]; exact hm)]
      constructor
      · exact fun ⟨hnode, he⟩ => ⟨.inr hnode, he⟩
      · rintro ⟨rfl | hnode, he⟩
        · exact absurd he hn
        · exact ⟨hnode, he⟩

theorem nodeMap_eq_some_iff (h : dag.Valid) {id : String} {node : DagNode} :
    dag.nodeMap id = some node ↔ node ∈ dag.nodes ∧ node.id = id :=
  foldl_nodeMap_eq_some_iff h.nodup rfl

theorem nodeMap_id (h : dag.Valid) {node : DagNode} (hnode : node ∈ dag.nodes) :
    dag.nodeMap node.id = some node := (nodeMap_eq_some_iff h).mpr ⟨hnode, rfl⟩

theorem exists_nodeMap (h : dag.Valid) {id : String} (hid : id ∈ dag.ids) :
    ∃ node, dag.nodeMap id = some node := by
  obtain ⟨node, hnode, rfl⟩ := List.mem_map.mp hid
  exact ⟨node, nodeMap_id h hnode⟩

theorem rule_id (h : dag.Valid) {node : DagNode} (hnode : node ∈ dag.nodes) :
    dag.rule node.id = some node.triggerRule := by
  rw [rule, nodeMap_id h hnode]
  rfl

end WorkflowDag

namespace WaveState

/-! ## Taking in results -/

theorem foldl_record_skipped (l : List NodeResult) (st : WaveState) :
    (l.foldl record st).skipped = st.skipped := by
  induction l generalizing st with
  | nil => rfl
  | cons r l ih => rw [List.foldl_cons, ih]; rfl

theorem mem_foldl_record_completed (l : List NodeResult) (st : WaveState) (id : String) :
    id ∈ (l.foldl record st).completed ↔ id ∈ st.completed ∨ ∃ r ∈ l, r.nodeId = id := by
  induction l generalizing st with
  | nil => simp
  | cons r l ih =>
    rw [List.foldl_cons, ih]
    simp only [record, Finset.mem_insert, List.mem_cons, exists_eq_or_imp]
    constructor
    · rintro ((rfl | h) | h)
      · exact .inr (.inl rfl)
      · exact .inl h
      · exact .inr (.inr h)
    · rintro (h | rfl | h)
      · exact .inl (.inr h)
      · exact .inl (.inl rfl)
      · exact .inr h

theorem foldl_record_results_of_ne {l : List NodeResult} {id : String}
    (h : ∀ r ∈ l, r.nodeId ≠ id) (st : WaveState) :
    (l.foldl record st).results id = st.results id := by
  induction l generalizing st with
  | nil => rfl
  | cons r l ih =>
    rw [List.foldl_cons, ih fun r' hr' => h r' (by simp [hr'])]
    exact Function.update_of_ne (h r (by simp)).symm _ _

/-- When a node has one result only, that result is recorded, in whatever order results arrive. -/
theorem foldl_record_results_of_mem {l : List NodeResult} {r : NodeResult} (hr : r ∈ l)
    (h : ∀ r' ∈ l, r'.nodeId = r.nodeId → r' = r) (st : WaveState) :
    (l.foldl record st).results r.nodeId = some r := by
  induction l generalizing st with
  | nil => cases hr
  | cons r' l ih =>
    rw [List.foldl_cons]
    by_cases hl : r ∈ l
    · exact ih hl (fun r'' hr'' => h r'' (by simp [hr''])) _
    · have hne : ∀ r'' ∈ l, r''.nodeId ≠ r.nodeId := fun r'' hr'' he =>
        hl (h r'' (by simp [hr'']) he ▸ hr'')
      rw [foldl_record_results_of_ne hne]
      obtain rfl : r = r' := (List.mem_cons.mp hr).resolve_right hl
      exact Function.update_self ..

/-! ## Marking skips -/

/-- `st'` is `st` with some open nodes marked skipped. -/
structure Marks (st st' : WaveState) : Prop where
  completed : st'.completed = st.completed
  skipped : st.skipped ⊆ st'.skipped
  marked : ∀ id ∈ st'.skipped, id ∉ st.skipped →
    id ∉ st.completed ∧ st'.results id = some (skippedResult id)
  kept : ∀ id, (id ∈ st.skipped ∨ id ∉ st'.skipped) → st'.results id = st.results id

theorem Marks.refl (st : WaveState) : Marks st st :=
  ⟨rfl, Finset.Subset.refl _, fun _ h hn => absurd h hn, fun _ _ => rfl⟩

theorem Marks.trans {a b c : WaveState} (h : Marks a b) (h' : Marks b c) : Marks a c where
  completed := h'.completed.trans h.completed
  skipped := h.skipped.trans h'.skipped
  marked id hc ha := by
    by_cases hb : id ∈ b.skipped
    · rw [h'.kept id (.inl hb)]
      exact h.marked id hb ha
    · have := h'.marked id hc hb
      rwa [h.completed] at this
  kept id hid := by
    rcases hid with ha | hc
    · rw [h'.kept id (.inl (h.skipped ha)), h.kept id (.inl ha)]
    · rw [h'.kept id (.inr hc), h.kept id (.inr fun hb => hc (h'.skipped hb))]

theorem marks_markSkipped {st : WaveState} {id : String} (h : st.Open id) :
    Marks st (st.markSkipped id) where
  completed := rfl
  skipped := Finset.subset_insert id st.skipped
  marked id' hid' hn := by
    obtain rfl : id' = id := (Finset.mem_insert.mp hid').resolve_right hn
    exact ⟨h.1, Function.update_self ..⟩
  kept id' hid' := by
    have hne : id' ≠ id := by
      rintro rfl
      rcases hid' with hs | hn
      · exact h.2 hs
      · exact hn (Finset.mem_insert_self _ _)
    exact Function.update_of_ne hne _ _

theorem marks_foldl {ι : Type*} {f : WaveState → ι → WaveState} (hf : ∀ st i, Marks st (f st i))
    (l : List ι) (st : WaveState) : Marks st (l.foldl f st) := by
  induction l generalizing st with
  | nil => exact Marks.refl st
  | cons i l ih => exact (hf st i).trans (ih _)

theorem marks_skipOthers (dag : WorkflowDag) (nodeId : String) (st : WaveState)
    (succId : String) : Marks st (st.skipOthers dag nodeId succId) := by
  unfold skipOthers
  split_ifs
  · refine marks_foldl (fun st other => ?_) _ st
    split_ifs with ho
    · exact marks_markSkipped ho.2
    · exact Marks.refl st
  · exact Marks.refl st

theorem marks_skipFrom (dag : WorkflowDag) (st : WaveState) (nodeId : String) :
    Marks st (st.skipFrom dag nodeId) := by
  unfold skipFrom
  split
  · split_ifs
    · exact marks_foldl (marks_skipOthers dag nodeId) _ st
    · exact Marks.refl st
  · exact Marks.refl st

/-! ## One wave -/

variable {dag : WorkflowDag} {exec : NodeExec} {env : Env} {arrivals : Arrivals}

theorem mem_ready {st : WaveState} {id : String} :
    id ∈ st.ready dag ↔ id ∈ dag.topoSort ∧ st.Open id ∧
      triggered st.results (dag.rule id) (dag.predecessors id) = true := by
  simp [ready]

theorem mem_spawn {st : WaveState} {r : NodeResult} :
    r ∈ st.spawn dag exec env ↔
      ∃ id ∈ st.ready dag, ∃ node, dag.nodeMap id = some node ∧
        exec.run node env st.results = r := by
  simp only [spawn, List.mem_map, List.mem_filterMap]
  constructor
  · rintro ⟨node, ⟨id, hid, hnode⟩, hr⟩
    exact ⟨id, hid, node, hnode, hr⟩
  · rintro ⟨id, hid, node, hnode, hr⟩
    exact ⟨node, ⟨id, hid, hnode⟩, hr⟩

/-- The state once every task of the wave has finished. -/
def arrived (dag : WorkflowDag) (exec : NodeExec) (env : Env) (arrivals : Arrivals) (k : ℕ)
    (st : WaveState) : WaveState :=
  (arrivals.order k (st.spawn dag exec env)).foldl record st

theorem nodeId_of_spawn (h : dag.Valid) {st : WaveState} {id : String} {node : DagNode}
    (hnode : dag.nodeMap id = some node) : (exec.run node env st.results).nodeId = id := by
  rw [exec.nodeId_run]
  exact ((WorkflowDag.nodeMap_eq_some_iff h).mp hnode).2

theorem mem_arrived_completed (h : dag.Valid) (exec : NodeExec) (env : Env)
    (arrivals : Arrivals) (st : WaveState) (k : ℕ) (id : String) :
    id ∈ (st.arrived dag exec env arrivals k).completed ↔
      id ∈ st.completed ∨ id ∈ st.ready dag := by
  unfold arrived
  rw [mem_foldl_record_completed]
  refine or_congr_right ?_
  constructor
  · rintro ⟨r, hr, rfl⟩
    obtain ⟨id, hid, node, hnode, rfl⟩ := mem_spawn.mp ((arrivals.perm _ _).mem_iff.mp hr)
    rw [nodeId_of_spawn h hnode]
    exact hid
  · intro hid
    have hmem : id ∈ dag.ids := ((WorkflowDag.mem_topoSort_iff h).mp (mem_ready.mp hid).1).1
    obtain ⟨node, hnode⟩ := WorkflowDag.exists_nodeMap h hmem
    exact ⟨_, (arrivals.perm _ _).mem_iff.mpr (mem_spawn.mpr ⟨id, hid, node, hnode, rfl⟩),
      nodeId_of_spawn h hnode⟩

theorem arrived_results_of_ready (h : dag.Valid) {st : WaveState} (k : ℕ) {id : String}
    (hid : id ∈ st.ready dag) {node : DagNode} (hnode : dag.nodeMap id = some node) :
    (st.arrived dag exec env arrivals k).results id = some (exec.run node env st.results) := by
  have hmem : exec.run node env st.results ∈
      arrivals.order k (st.spawn dag exec env) :=
    (arrivals.perm _ _).mem_iff.mpr (mem_spawn.mpr ⟨id, hid, node, hnode, rfl⟩)
  have hrec := foldl_record_results_of_mem hmem (fun r' hr' he => by
    obtain ⟨id', -, node', hnode', rfl⟩ := mem_spawn.mp ((arrivals.perm _ _).mem_iff.mp hr')
    rw [nodeId_of_spawn h hnode', nodeId_of_spawn h hnode] at he
    subst he
    rw [Option.some.inj (hnode'.symm.trans hnode)]) st
  rwa [nodeId_of_spawn h hnode] at hrec

theorem arrived_results_of_not_ready (h : dag.Valid) {st : WaveState} (k : ℕ) {id : String}
    (hid : id ∉ st.ready dag) :
    (st.arrived dag exec env arrivals k).results id = st.results id := by
  refine foldl_record_results_of_ne (fun r hr he => ?_) st
  obtain ⟨id', hid', node', hnode', rfl⟩ := mem_spawn.mp ((arrivals.perm _ _).mem_iff.mp hr)
  rw [nodeId_of_spawn h hnode'] at he
  exact hid (he ▸ hid')

attribute [ext] WaveState

/-- Whatever order the results of a wave arrive in, they are taken in to one state. -/
theorem arrived_eq (h : dag.Valid) (arrivals arrivals' : Arrivals) (st : WaveState) (k : ℕ) :
    st.arrived dag exec env arrivals k = st.arrived dag exec env arrivals' k := by
  have hcompleted : (st.arrived dag exec env arrivals k).completed =
      (st.arrived dag exec env arrivals' k).completed := by
    ext id
    rw [mem_arrived_completed h, mem_arrived_completed h]
  have hresults : (st.arrived dag exec env arrivals k).results =
      (st.arrived dag exec env arrivals' k).results := by
    funext id
    by_cases hid : id ∈ st.ready dag
    · have hmem : id ∈ dag.ids := ((WorkflowDag.mem_topoSort_iff h).mp (mem_ready.mp hid).1).1
      obtain ⟨node, hnode⟩ := WorkflowDag.exists_nodeMap h hmem
      rw [arrived_results_of_ready h k hid hnode, arrived_results_of_ready h k hid hnode]
    · rw [arrived_results_of_not_ready h k hid, arrived_results_of_not_ready h k hid]
  have hskipped : (st.arrived dag exec env arrivals k).skipped =
      (st.arrived dag exec env arrivals' k).skipped := by
    rw [arrived, arrived, foldl_record_skipped, foldl_record_skipped]
  exact WaveState.ext hresults hcompleted hskipped

/-- The skip pass walks the ready nodes in the order of the sort, so a wave ends in one state. -/
theorem wave_arrivals (h : dag.Valid) (arrivals arrivals' : Arrivals) (k : ℕ) (st : WaveState) :
    st.wave dag exec env arrivals k = st.wave dag exec env arrivals' k := by
  show (st.ready dag).foldl (skipFrom dag) (st.arrived dag exec env arrivals k) = _
  rw [arrived_eq h arrivals arrivals']
  rfl

theorem waveLoop_arrivals (h : dag.Valid) (arrivals arrivals' : Arrivals) (fuel k : ℕ)
    (st : WaveState) :
    st.waveLoop dag exec env arrivals fuel k = st.waveLoop dag exec env arrivals' fuel k := by
  induction fuel generalizing k st with
  | zero => rfl
  | succ fuel ih => rw [waveLoop, waveLoop, wave_arrivals h arrivals arrivals', ih]

/-- What a wave does: the ready nodes complete with the results of their runs, and some open nodes
are marked skipped. -/
structure WaveStep (dag : WorkflowDag) (exec : NodeExec) (env : Env) (st st' : WaveState) :
    Prop where
  completed : ∀ id, id ∈ st'.completed ↔ id ∈ st.completed ∨ id ∈ st.ready dag
  skipped : st.skipped ⊆ st'.skipped
  ran : ∀ id ∈ st.ready dag, ∀ node, dag.nodeMap id = some node →
    st'.results id = some (exec.run node env st.results)
  marked : ∀ id ∈ st'.skipped, id ∉ st.skipped →
    id ∉ st'.completed ∧ st'.results id = some (skippedResult id)
  kept : ∀ id, id ∉ st.ready dag → (id ∈ st.skipped ∨ id ∉ st'.skipped) →
    st'.results id = st.results id

/-- **Step lemma.** -/
theorem wave_step (h : dag.Valid) (k : ℕ) (st : WaveState) :
    WaveStep dag exec env st (st.wave dag exec env arrivals k) := by
  have hmarks : Marks (st.arrived dag exec env arrivals k) (st.wave dag exec env arrivals k) :=
    marks_foldl (marks_skipFrom dag) _ _
  have hskip : (st.arrived dag exec env arrivals k).skipped = st.skipped :=
    foldl_record_skipped _ st
  have hcomp := mem_arrived_completed h exec env arrivals st k
  refine ⟨fun id => ?_, ?_, fun id hid node hnode => ?_, fun id hid hn => ?_, fun id hid hs => ?_⟩
  · rw [hmarks.completed]
    exact hcomp id
  · rw [← hskip]
    exact hmarks.skipped
  · have hnot : id ∉ (st.wave dag exec env arrivals k).skipped := by
      intro hs
      have hopen := (mem_ready.mp hid).2.1
      exact (hmarks.marked id hs (by rw [hskip]; exact hopen.2)).1 ((hcomp id).mpr (.inr hid))
    rw [hmarks.kept id (.inr hnot)]
    exact arrived_results_of_ready h k hid hnode
  · rw [hmarks.completed]
    exact hmarks.marked id hid (by rw [hskip]; exact hn)
  · rw [hmarks.kept id (by rw [hskip]; exact hs)]
    exact arrived_results_of_not_ready h k hid

/-! ## The invariant of the loop -/

/-- A node has a result when it completed or was marked, and never both. -/
structure Inv (dag : WorkflowDag) (st : WaveState) : Prop where
  nodes : ∀ id ∈ st.completed, id ∈ dag.ids
  disjoint : ∀ id ∈ st.completed, id ∉ st.skipped
  marked : ∀ id ∈ st.skipped, st.results id = some (skippedResult id)
  unset : ∀ id, st.Open id → st.results id = none
  set : ∀ id ∈ st.completed, ∃ r, st.results id = some r ∧ r.nodeId = id

theorem inv_init : Inv dag init where
  nodes id h := by simp [init] at h
  disjoint id h := by simp [init] at h
  marked id h := by simp [init] at h
  unset id _ := rfl
  set id h := by simp [init] at h

theorem Inv.step (h : dag.Valid) {st st' : WaveState} (hinv : Inv dag st)
    (hstep : WaveStep dag exec env st st') : Inv dag st' where
  nodes id hid := by
    rcases (hstep.completed id).mp hid with hc | hr
    · exact hinv.nodes id hc
    · exact ((WorkflowDag.mem_topoSort_iff h).mp (mem_ready.mp hr).1).1
  disjoint id hid hs := by
    by_cases hold : id ∈ st.skipped
    · rcases (hstep.completed id).mp hid with hc | hr
      · exact hinv.disjoint id hc hold
      · exact (mem_ready.mp hr).2.1.2 hold
    · exact (hstep.marked id hs hold).1 hid
  marked id hid := by
    by_cases hold : id ∈ st.skipped
    · have hnot : id ∉ st.ready dag := fun hr => (mem_ready.mp hr).2.1.2 hold
      rw [hstep.kept id hnot (.inl hold)]
      exact hinv.marked id hold
    · exact (hstep.marked id hid hold).2
  unset id hopen := by
    have hnot : id ∉ st.ready dag := fun hr => hopen.1 ((hstep.completed id).mpr (.inr hr))
    rw [hstep.kept id hnot (.inr hopen.2)]
    exact hinv.unset id ⟨fun hc => hopen.1 ((hstep.completed id).mpr (.inl hc)),
      fun hs => hopen.2 (hstep.skipped hs)⟩
  set id hid := by
    by_cases hr : id ∈ st.ready dag
    · have hmem := ((WorkflowDag.mem_topoSort_iff h).mp (mem_ready.mp hr).1).1
      obtain ⟨node, hnode⟩ := WorkflowDag.exists_nodeMap h hmem
      exact ⟨_, hstep.ran id hr node hnode, nodeId_of_spawn h hnode⟩
    · have hc := ((hstep.completed id).mp hid).resolve_right hr
      have hns : id ∉ st'.skipped := fun hs =>
        (hstep.marked id hs (hinv.disjoint id hc)).1 hid
      rw [hstep.kept id hr (.inr hns)]
      exact hinv.set id hc

/-- A result, once there, stays. -/
theorem Inv.results_stable {st st' : WaveState} (hinv : Inv dag st)
    (hstep : WaveStep dag exec env st st') {id : String} {r : NodeResult}
    (hr : st.results id = some r) : st'.results id = some r := by
  have hopen : ¬ st.Open id := fun ho => by rw [hinv.unset id ho] at hr; cases hr
  have hnot : id ∉ st.ready dag := fun hrd => hopen (mem_ready.mp hrd).2.1
  refine (hstep.kept id hnot ?_).trans hr
  by_cases hs : id ∈ st.skipped
  · exact .inl hs
  · refine .inr fun hs' => (hstep.marked id hs' hs).1 ((hstep.completed id).mpr (.inl ?_))
    by_contra hc
    exact hopen ⟨hc, hs⟩

/-! ## Whole runs -/

variable (dag exec env arrivals) in
/-- The state after `k` waves. -/
def waveAt : ℕ → WaveState
  | 0 => init
  | k + 1 => (waveAt k).wave dag exec env arrivals k

variable (dag exec env arrivals) in
/-- The nodes wave `k` spawns. -/
def spawnedAt (k : ℕ) : List String := (waveAt dag exec env arrivals k).ready dag

theorem waveAt_step (h : dag.Valid) (k : ℕ) :
    WaveStep dag exec env (waveAt dag exec env arrivals k)
      (waveAt dag exec env arrivals (k + 1)) := wave_step h k _

theorem inv_waveAt (h : dag.Valid) (exec : NodeExec) (env : Env) (arrivals : Arrivals) (k : ℕ) :
    Inv dag (waveAt dag exec env arrivals k) := by
  induction k with
  | zero => exact inv_init
  | succ k ih => exact ih.step h (waveAt_step h k)

theorem completed_mono (h : dag.Valid) {j k : ℕ} (hjk : j ≤ k) :
    (waveAt dag exec env arrivals j).completed ⊆ (waveAt dag exec env arrivals k).completed := by
  induction k, hjk using Nat.le_induction with
  | base => exact Finset.Subset.refl _
  | succ k _ ih => exact fun id hid => ((waveAt_step h k).completed id).mpr (.inl (ih hid))

theorem skipped_mono (h : dag.Valid) {j k : ℕ} (hjk : j ≤ k) :
    (waveAt dag exec env arrivals j).skipped ⊆ (waveAt dag exec env arrivals k).skipped := by
  induction k, hjk using Nat.le_induction with
  | base => exact Finset.Subset.refl _
  | succ k _ ih => exact fun id hid => (waveAt_step h k).skipped (ih hid)

theorem results_mono (h : dag.Valid) {j k : ℕ} (hjk : j ≤ k) {id : String} {r : NodeResult}
    (hr : (waveAt dag exec env arrivals j).results id = some r) :
    (waveAt dag exec env arrivals k).results id = some r := by
  induction k, hjk using Nat.le_induction with
  | base => exact hr
  | succ k _ ih => exact (inv_waveAt h exec env arrivals k).results_stable (waveAt_step h k) ih

/-- A completed node was spawned by an earlier wave. -/
theorem mem_completed_iff (h : dag.Valid) {k : ℕ} {id : String} :
    id ∈ (waveAt dag exec env arrivals k).completed ↔
      ∃ j < k, id ∈ spawnedAt dag exec env arrivals j := by
  induction k with
  | zero => simp [waveAt, init]
  | succ k ih =>
    rw [(waveAt_step h k).completed id, ih]
    constructor
    · rintro (⟨j, hj, hid⟩ | hid)
      · exact ⟨j, by omega, hid⟩
      · exact ⟨k, by omega, hid⟩
    · rintro ⟨j, hj, hid⟩
      rcases Nat.lt_succ_iff_lt_or_eq.mp hj with hlt | rfl
      · exact .inl ⟨j, hlt, hid⟩
      · exact .inr hid

/-- A spawned node keeps the result of its run. -/
theorem results_of_spawned (h : dag.Valid) {j k : ℕ} (hjk : j < k) {id : String}
    (hid : id ∈ spawnedAt dag exec env arrivals j) {node : DagNode}
    (hnode : dag.nodeMap id = some node) :
    (waveAt dag exec env arrivals k).results id =
      some (exec.run node env (waveAt dag exec env arrivals j).results) :=
  results_mono h hjk ((waveAt_step h j).ran id hid node hnode)

/-- Every wave that spawns completes a node that was not completed. -/
theorem card_completed (h : dag.Valid) {k : ℕ}
    (hk : ∀ j < k, spawnedAt dag exec env arrivals j ≠ []) :
    k ≤ (waveAt dag exec env arrivals k).completed.card := by
  induction k with
  | zero => exact Nat.zero_le _
  | succ k ih =>
    obtain ⟨id, hid⟩ := List.exists_mem_of_ne_nil _ (hk k (by omega))
    have hlt : (waveAt dag exec env arrivals k).completed.card <
        (waveAt dag exec env arrivals (k + 1)).completed.card := by
      refine Finset.card_lt_card ⟨completed_mono h (Nat.le_succ k), fun hsub => ?_⟩
      have hc := hsub (((waveAt_step h k).completed id).mpr (.inr hid))
      exact (mem_ready.mp hid).2.1.1 hc
    have := ih fun j hj => hk j (by omega)
    omega

/-- At most as many waves spawn as there are nodes. -/
theorem waves_le (h : dag.Valid) {k : ℕ}
    (hk : ∀ j < k, spawnedAt dag exec env arrivals j ≠ []) : k ≤ dag.nodes.length := by
  have hsub : (waveAt dag exec env arrivals k).completed ⊆ dag.ids.toFinset := fun id hid =>
    List.mem_toFinset.mpr ((inv_waveAt h exec env arrivals k).nodes id hid)
  calc k ≤ (waveAt dag exec env arrivals k).completed.card := card_completed h hk
    _ ≤ dag.ids.toFinset.card := Finset.card_le_card hsub
    _ ≤ dag.ids.length := List.toFinset_card_le _
    _ = dag.nodes.length := by simp [WorkflowDag.ids]

/-- The loop runs waves until one spawns nothing, or the turns are used up. -/
theorem waveLoop_waveAt (dag : WorkflowDag) (exec : NodeExec) (env : Env) (arrivals : Arrivals)
    (fuel k : ℕ) :
    ∃ w, (waveAt dag exec env arrivals k).waveLoop dag exec env arrivals fuel k =
        waveAt dag exec env arrivals w ∧ k ≤ w ∧
      (spawnedAt dag exec env arrivals w = [] ∨ w = k + fuel) ∧
      ∀ j, k ≤ j → j < w → spawnedAt dag exec env arrivals j ≠ [] := by
  induction fuel generalizing k with
  | zero => exact ⟨k, rfl, le_refl k, .inr rfl, fun j h₁ h₂ => by omega⟩
  | succ fuel ih =>
    rw [waveLoop]
    split_ifs with hready
    · exact ⟨k, rfl, le_refl k, .inl hready, fun j h₁ h₂ => by omega⟩
    · obtain ⟨w, hw, hle, hend, hall⟩ := ih (k + 1)
      refine ⟨w, hw, by omega, hend.imp_right (by omega), fun j h₁ h₂ => ?_⟩
      rcases Nat.eq_or_lt_of_le h₁ with rfl | hlt
      · exact hready
      · exact hall j hlt h₂

/-- **Termination.** Within one more wave than there are nodes, the loop meets a wave that spawns
nothing, and it is the first such wave. -/
theorem waveLoop_ends (h : dag.Valid) (exec : NodeExec) (env : Env) (arrivals : Arrivals) :
    ∃ w ≤ dag.nodes.length,
      init.waveLoop dag exec env arrivals (dag.nodes.length + 1) 0 =
        waveAt dag exec env arrivals w ∧
      spawnedAt dag exec env arrivals w = [] ∧
      ∀ j < w, spawnedAt dag exec env arrivals j ≠ [] := by
  obtain ⟨w, hw, -, hend, hall⟩ :=
    waveLoop_waveAt dag exec env arrivals (dag.nodes.length + 1) 0
  have hne : ∀ j < w, spawnedAt dag exec env arrivals j ≠ [] := fun j hj =>
    hall j (Nat.zero_le j) hj
  have hle : w ≤ dag.nodes.length := waves_le h hne
  exact ⟨w, hle, hw, hend.resolve_right (by omega), hne⟩

/-! ## Trigger rules -/

end WaveState

/-- The trigger rule of a node, when `ok` says which predecessors succeeded. -/
def RuleMet (dag : WorkflowDag) (ok : String → Prop) (node : DagNode) : Prop :=
  dag.predecessors node.id = [] ∨
    match node.triggerRule with
    | .allSuccess => ∀ p ∈ dag.predecessors node.id, ok p
    | .oneSuccess => ∃ p ∈ dag.predecessors node.id, ok p

theorem RuleMet.congr {dag : WorkflowDag} {ok ok' : String → Prop} {node : DagNode}
    (h : ∀ p ∈ dag.predecessors node.id, (ok p ↔ ok' p)) :
    RuleMet dag ok node ↔ RuleMet dag ok' node := by
  unfold RuleMet
  cases node.triggerRule with
  | allSuccess => exact or_congr_right (forall₂_congr h)
  | oneSuccess => exact or_congr_right (exists_congr fun p => and_congr_right fun hp => h p hp)

theorem length_filterMap_eq_iff {α β : Type*} {f : α → Option β} {l : List α} :
    (l.filterMap f).length = l.length ↔ ∀ x ∈ l, (f x).isSome = true := by
  induction l with
  | nil => simp
  | cons x l ih =>
    have hle := List.length_filterMap_le f l
    cases hx : f x with
    | none =>
      rw [List.filterMap_cons_none hx]
      simp only [List.length_cons, List.forall_mem_cons, hx, Option.isSome_none,
        Bool.false_eq_true, false_and, iff_false]
      omega
    | some y =>
      rw [List.filterMap_cons_some hx, List.length_cons, List.length_cons, Nat.add_right_cancel_iff,
        ih, List.forall_mem_cons, hx]
      simp

/-- The readiness test of the source is the trigger rule over the recorded successes. -/
theorem triggered_iff {dag : WorkflowDag} {results : Results} {node : DagNode} :
    triggered results (some node.triggerRule) (dag.predecessors node.id) = true ↔
      RuleMet dag (fun p => ∃ r, results p = some r ∧ r.status = .success) node := by
  unfold triggered RuleMet
  by_cases hp : dag.predecessors node.id = []
  · simp [hp]
  · simp only [hp, if_false, false_or]
    cases node.triggerRule with
    | oneSuccess =>
      simp only [List.any_eq_true, List.mem_filterMap, decide_eq_true_eq]
      constructor
      · rintro ⟨r, ⟨p, hmem, hr⟩, hs⟩
        exact ⟨p, hmem, r, hr, hs⟩
      · rintro ⟨p, hmem, r, hr, hs⟩
        exact ⟨r, ⟨p, hmem, hr⟩, hs⟩
    | allSuccess =>
      simp only [Bool.and_eq_true, decide_eq_true_eq, length_filterMap_eq_iff, List.all_eq_true,
        List.mem_filterMap, forall_exists_index, and_imp]
      constructor
      · rintro ⟨hsome, hall⟩ p hmem
        obtain ⟨r, hr⟩ := Option.isSome_iff_exists.mp (hsome p hmem)
        exact ⟨r, hr, hall r p hmem hr⟩
      · intro h
        refine ⟨fun p hmem => ?_, fun r p hmem hr => ?_⟩
        · obtain ⟨r, hr, -⟩ := h p hmem
          rw [hr]
          rfl
        · obtain ⟨r', hr', hs⟩ := h p hmem
          rwa [Option.some.inj (hr.symm.trans hr')]

namespace WaveState

variable {dag : WorkflowDag} {exec : NodeExec} {env : Env} {arrivals : Arrivals}

variable (dag exec env arrivals) in
/-- The node was spawned by a wave before `k`, and its run succeeded. -/
def SucceededBefore (k : ℕ) (id : String) : Prop :=
  ∃ j < k, id ∈ spawnedAt dag exec env arrivals j ∧ ∃ node, dag.nodeMap id = some node ∧
    (exec.run node env (waveAt dag exec env arrivals j).results).status = .success

/-- A recorded success comes from the run of a spawned node: a mark never counts as one. -/
theorem success_iff (h : dag.Valid) {k : ℕ} {id : String} :
    (∃ r, (waveAt dag exec env arrivals k).results id = some r ∧ r.status = .success) ↔
      SucceededBefore dag exec env arrivals k id := by
  have hinv := inv_waveAt h exec env arrivals k
  constructor
  · rintro ⟨r, hr, hs⟩
    have hskip : id ∉ (waveAt dag exec env arrivals k).skipped := by
      intro hm
      rw [hinv.marked id hm] at hr
      cases hr
      cases hs
    have hcomp : id ∈ (waveAt dag exec env arrivals k).completed := by
      by_contra hc
      rw [hinv.unset id ⟨hc, hskip⟩] at hr
      cases hr
    obtain ⟨j, hj, hid⟩ := (mem_completed_iff h).mp hcomp
    obtain ⟨node, hnode⟩ := WorkflowDag.exists_nodeMap h (hinv.nodes id hcomp)
    rw [results_of_spawned h hj hid hnode] at hr
    exact ⟨j, hj, hid, node, hnode, by rw [Option.some.inj hr]; exact hs⟩
  · rintro ⟨j, hj, hid, node, hnode, hs⟩
    exact ⟨_, results_of_spawned h hj hid hnode, hs⟩

theorem collect_success_iff {st : WaveState} {id : String} :
    (st.collect id).status = .success ↔ ∃ r, st.results id = some r ∧ r.status = .success := by
  unfold collect
  cases st.results id with
  | none => simp [skippedResult]
  | some r => simp

/-- A node is spawned by wave `k` when it is open and its rule is met by earlier waves. -/
theorem mem_spawnedAt_iff (h : dag.Valid) {k : ℕ} {node : DagNode} (hnode : node ∈ dag.nodes) :
    node.id ∈ spawnedAt dag exec env arrivals k ↔
      node.id ∈ dag.topoSort ∧ (waveAt dag exec env arrivals k).Open node.id ∧
        RuleMet dag (SucceededBefore dag exec env arrivals k) node := by
  unfold spawnedAt
  rw [mem_ready, WorkflowDag.rule_id h hnode, triggered_iff]
  simp only [success_iff h]

/-- Once a wave spawns nothing, the rule of an open node is unmet by the final results. -/
theorem unmet_of_open (h : dag.Valid) (hacyclic : ¬ dag.HasCycle) {w : ℕ}
    (hend : spawnedAt dag exec env arrivals w = []) {node : DagNode} (hnode : node ∈ dag.nodes)
    (hopen : (waveAt dag exec env arrivals w).Open node.id) :
    ¬ RuleMet dag (fun p => ((waveAt dag exec env arrivals w).collect p).status = .success)
      node := by
  intro hmet
  have hready : node.id ∈ spawnedAt dag exec env arrivals w := by
    rw [mem_spawnedAt_iff h hnode]
    refine ⟨WorkflowDag.mem_topoSort_of_acyclic h hacyclic (List.mem_map_of_mem hnode), hopen,
      (RuleMet.congr fun p _ => ?_).mp hmet⟩
    rw [collect_success_iff, success_iff h]
  rw [hend] at hready
  cases hready

/-! ## Soundness and exhaustion -/

/-- What the wave loop does over a whole run. -/
structure SoundRun (dag : WorkflowDag) (exec : NodeExec) (env : Env) (arrivals : Arrivals) :
    Prop where
  /-- A spawned node has its rule met by the results of strictly earlier waves. -/
  fired : ∀ k, ∀ node ∈ dag.nodes, node.id ∈ spawnedAt dag exec env arrivals k →
    RuleMet dag (SucceededBefore dag exec env arrivals k) node
  nodup : ∀ k, (spawnedAt dag exec env arrivals k).Nodup
  once : ∀ j k, j < k → ∀ id ∈ spawnedAt dag exec env arrivals j,
    id ∉ spawnedAt dag exec env arrivals k
  unskipped : ∀ j k, j ≤ k → ∀ id ∈ (waveAt dag exec env arrivals j).skipped,
    id ∉ spawnedAt dag exec env arrivals k
  /-- The loop ends, at the first wave that spawns nothing, and a node that was neither spawned nor
  marked has its rule unmet by the final results. -/
  ends : ∃ w ≤ dag.nodes.length,
    init.waveLoop dag exec env arrivals (dag.nodes.length + 1) 0 =
      waveAt dag exec env arrivals w ∧
    spawnedAt dag exec env arrivals w = [] ∧
    (∀ j < w, spawnedAt dag exec env arrivals j ≠ []) ∧
    ∀ node ∈ dag.nodes, (∀ j < w, node.id ∉ spawnedAt dag exec env arrivals j) →
      node.id ∉ (waveAt dag exec env arrivals w).skipped →
      ¬ RuleMet dag (fun p => ((waveAt dag exec env arrivals w).collect p).status = .success) node

/-- **Waves.** The wave loop of a validated acyclic DAG without repeated edges is sound and
exhaustive. -/
theorem waves_sound (dag : WorkflowDag) (exec : NodeExec) (env : Env) (arrivals : Arrivals)
    (hvalid : validateDag dag = .ok ()) (hacyclic : ¬ dag.HasCycle) (hedges : dag.edges.Nodup) :
    SoundRun dag exec env arrivals := by
  have h := (validateDag_ok_iff dag).mp hvalid
  refine ⟨fun k node hnode hid => ((mem_spawnedAt_iff h hnode).mp hid).2.2, fun k => ?_,
    fun j k hjk id hj hk => ?_, fun j k hjk id hs hk => ?_, ?_⟩
  · exact (WorkflowDag.nodup_topoSort h hedges).filter _
  · have hc : id ∈ (waveAt dag exec env arrivals k).completed :=
      (mem_completed_iff h).mpr ⟨j, hjk, hj⟩
    exact (mem_ready.mp hk).2.1.1 hc
  · exact (mem_ready.mp hk).2.1.2 (skipped_mono h hjk hs)
  · obtain ⟨w, hle, hw, hend, hne⟩ := waveLoop_ends h exec env arrivals
    refine ⟨w, hle, hw, hend, hne, fun node hnode hspawn hskip hmet => ?_⟩
    have hmem : node.id ∈ dag.topoSort :=
      WorkflowDag.mem_topoSort_of_acyclic h hacyclic (List.mem_map_of_mem hnode)
    have hopen : (waveAt dag exec env arrivals w).Open node.id := by
      refine ⟨fun hc => ?_, hskip⟩
      obtain ⟨j, hj, hid⟩ := (mem_completed_iff h).mp hc
      exact hspawn j hj hid
    have hready : node.id ∈ spawnedAt dag exec env arrivals w := by
      rw [mem_spawnedAt_iff h hnode]
      refine ⟨hmem, hopen, (RuleMet.congr fun p _ => ?_).mp hmet⟩
      rw [collect_success_iff, success_iff h]
    rw [hend] at hready
    cases hready

theorem waves_sound_pair :
    SoundRun twiceDag.simple ⟨fun node _ _ => ⟨node.id, .success, ""⟩, fun _ _ _ => rfl⟩
      (fun _ => none) Arrivals.inOrder :=
  waves_sound twiceDag.simple _ _ _ (by decide)
    (WorkflowDag.simple_hasCycle.not.mpr twiceDag_acyclic) (by decide)

end WaveState

end Hymenium
