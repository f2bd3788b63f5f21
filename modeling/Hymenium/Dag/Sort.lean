import Hymenium.Dag.Executor

/-!
# The topological sort of the executor

`sortLoop` keeps the predecessors that have not been taken; Kahn's algorithm on the multigraph of
the DAG keeps the nodes that have. `sortLoop_eq_turns` relates the two, and the facts about the
abstract algorithm become facts about `topoSort`.

An edge written twice makes `visitSuccessor` run twice on the same target, and the second visit sees
the list the first one emptied: the target is enqueued again when its last predecessor was the
source of that edge (`RepeatedEdgeFires`).
-/

namespace Hymenium

open Relation

/-! ## The loop is Kahn's algorithm -/

section Refinement

variable {G : Multigraph String}

/-- The predecessors of `v` that are not in `order`. -/
def pendingPreds (G : Multigraph String) (order : List String) (v : String) : List String :=
  (G.preds v).filter (· ∉ order)

theorem pendingPreds_eq_nil {order : List String} {v : String} :
    pendingPreds G order v = [] ↔ G.Ready order v := by
  simp [pendingPreds, Multigraph.Ready, List.filter_eq_nil_iff]

theorem filter_pendingPreds (order : List String) (u v : String) :
    (pendingPreds G order v).filter (· ≠ u) = pendingPreds G (order ++ [u]) v := by
  unfold pendingPreds
  rw [List.filter_filter]
  congr 1
  funext p
  simp [not_or, and_comm]

theorem filter_pendingPreds_self (order : List String) (u v : String) :
    (pendingPreds G (order ++ [u]) v).filter (· ≠ u) = pendingPreds G (order ++ [u]) v := by
  unfold pendingPreds
  rw [List.filter_filter]
  congr 1
  funext p
  simp only [List.mem_append, List.mem_singleton, not_or, ne_eq, decide_not, Bool.decide_and]
  cases decide (p = u) <;> simp

/-- The visits of one turn: the visited predecessor lists lose `u`, and the targets left without
predecessors are enqueued, once per visit. -/
theorem foldl_visitSuccessor (order : List String) (u : String) (l : List String)
    (incoming : String → List String) (queue : List String)
    (h : ∀ v, incoming v = pendingPreds G order v ∨
      incoming v = pendingPreds G (order ++ [u]) v) :
    l.foldl (visitSuccessor u) (incoming, queue) =
      (fun v => if v ∈ l then pendingPreds G (order ++ [u]) v else incoming v,
        queue ++ l.filter (G.Ready (order ++ [u]))) := by
  induction l generalizing incoming queue with
  | nil => simp
  | cons w l ih =>
    have hw : (incoming w).filter (· ≠ u) = pendingPreds G (order ++ [u]) w := by
      rcases h w with hi | hi <;> rw [hi]
      · exact filter_pendingPreds order u w
      · exact filter_pendingPreds_self order u w
    have hvisit : visitSuccessor u (incoming, queue) w =
        (Function.update incoming w (pendingPreds G (order ++ [u]) w),
          if G.Ready (order ++ [u]) w then queue ++ [w] else queue) := by
      unfold visitSuccessor
      simp only [hw, Function.update_self, pendingPreds_eq_nil]
    rw [List.foldl_cons, hvisit, ih _ _ fun v => ?_]
    · refine Prod.ext ?_ ?_
      · funext v
        by_cases hv : v = w
        · subst hv
          simp
        · simp [hv]
      · by_cases hr : G.Ready (order ++ [u]) w
        · rw [if_pos hr, List.filter_cons_of_pos (by simpa using hr), List.append_assoc,
            List.singleton_append]
        · rw [if_neg hr, List.filter_cons_of_neg (by simpa using hr)]
    · by_cases hv : v = w
      · subst hv
        exact .inr (by simp)
      · rw [Function.update_of_ne hv]
        exact h v

/-- **Refinement.** The sorting loop runs Kahn's algorithm. -/
theorem sortLoop_eq_turns (fuel : ℕ) (order queue : List String) :
    sortLoop G.succs fuel ⟨pendingPreds G order, queue, order⟩ =
      ⟨pendingPreds G (G.turns fuel order queue).1, (G.turns fuel order queue).2,
        (G.turns fuel order queue).1⟩ := by
  induction fuel generalizing order queue with
  | zero => rfl
  | succ fuel ih =>
    cases queue with
    | nil => rfl
    | cons u rest =>
      have hfold := foldl_visitSuccessor (G := G) order u (G.succs u) (pendingPreds G order) rest
        fun v => .inl rfl
      have hincoming : (fun v => if v ∈ G.succs u then pendingPreds G (order ++ [u]) v
          else pendingPreds G order v) = pendingPreds G (order ++ [u]) := by
        funext v
        split_ifs with hv
        · rfl
        · -- `u` is not among the predecessors of a node it does not lead to
          rw [← filter_pendingPreds]
          refine (List.filter_eq_self.mpr fun p hp => ?_).symm
          have hp' : p ∈ G.preds v := (List.mem_filter.mp hp).1
          simp only [ne_eq, decide_not, Bool.not_eq_true', decide_eq_false_iff_not]
          rintro rfl
          exact hv ((G.mem_iff p v).mpr hp')
      rw [hincoming] at hfold
      rw [sortLoop]
      simp only [hfold]
      exact ih (order ++ [u]) _

end Refinement

namespace WorkflowDag

variable {dag : WorkflowDag}

theorem sortEnd_eq (h : dag.Valid) :
    dag.sortEnd = ⟨pendingPreds (dag.graph h) ((dag.graph h).sort dag.edges.length), [],
      (dag.graph h).sort dag.edges.length⟩ := by
  have hq : (dag.ids.filter fun id => dag.predecessors id = []) = (dag.graph h).sources := by
    unfold Multigraph.sources
    congr 1
    funext v
    simp [Multigraph.Ready, graph, List.eq_nil_iff_forall_not_mem]
  have hp : dag.predecessors = pendingPreds (dag.graph h) [] := by
    funext v
    simp [pendingPreds, graph]
  have hfuel : dag.sortFuel = (dag.graph h).fuel dag.edges.length := by
    simp [sortFuel, Multigraph.fuel, graph, ids]
  unfold sortEnd
  simp only
  rw [hq, hp, hfuel]
  rw [show dag.outgoing = (dag.graph h).succs from rfl, sortLoop_eq_turns,
    Multigraph.turns_fuel (G := dag.graph h) dag.length_outgoing_le]
  rfl

theorem topoSort_eq (h : dag.Valid) : dag.topoSort = (dag.graph h).sort dag.edges.length := by
  rw [topoSort, sortEnd_eq h]

/-- The sorting loop ends with an empty queue. -/
theorem sortEnd_queue (h : dag.Valid) : dag.sortEnd.queue = [] := by
  rw [sortEnd_eq h]

/-! ## What the sort returns -/

/-- The sort lists the nodes that are on no cycle and behind none. -/
theorem mem_topoSort_iff (h : dag.Valid) {v : String} :
    v ∈ dag.topoSort ↔ v ∈ dag.ids ∧ Acc dag.Edge v := by
  rw [topoSort_eq h, Multigraph.mem_sort_iff (G := dag.graph h) dag.length_outgoing_le,
    graph_edge]
  rfl

/-- Every listed node comes after all its predecessors. -/
theorem topoSort_sorted (h : dag.Valid) {l₁ l₂ : List String} {v : String}
    (heq : dag.topoSort = l₁ ++ v :: l₂) : ∀ u ∈ dag.predecessors v, u ∈ l₁ := by
  rw [topoSort_eq h] at heq
  exact Multigraph.sorted_sort (G := dag.graph h) dag.length_outgoing_le l₁ v l₂ heq

/-! ## Repeated edges -/

/-- The DAG without its repeated edges. -/
def simple (dag : WorkflowDag) : WorkflowDag := { dag with edges := dag.edges.dedup }

/-- In the sort of the DAG without repeated edges, the source of an edge that is written more than
once is the last of its target's predecessors to be taken. -/
def RepeatedEdgeFires (dag : WorkflowDag) : Prop :=
  ∃ l₁ u l₂ v, dag.simple.topoSort = l₁ ++ u :: l₂ ∧ 2 ≤ dag.edges.count ⟨u, v⟩ ∧
    ∀ p ∈ dag.predecessors v, p ∈ l₁ ++ [u]

theorem Valid.simple (h : dag.Valid) : dag.simple.Valid :=
  ⟨h.nodup, fun e he => h.closed e (List.mem_dedup.mp he)⟩

theorem count_outgoing (dag : WorkflowDag) (u v : String) :
    (dag.outgoing u).count v = dag.edges.count ⟨u, v⟩ := by
  rw [outgoing_eq, List.count_eq_countP, List.countP_map, List.countP_filter,
    List.count_eq_countP]
  congr 1
  funext e
  obtain ⟨a, b⟩ := e
  rw [Bool.eq_iff_iff]
  simp [and_comm]

theorem simple_outgoing (dag : WorkflowDag) (u : String) :
    dag.simple.outgoing u = (dag.outgoing u).dedup := by
  rw [outgoing_eq, outgoing_eq, simple]
  induction dag.edges with
  | nil => rfl
  | cons e l ih =>
    by_cases hu : e.fromId = u
    · rw [List.filter_cons_of_pos (by simpa using hu), List.map_cons]
      have hmem : e.toId ∈ (l.filter fun e => e.fromId = u).map DagEdge.toId ↔ e ∈ l := by
        simp only [List.mem_map, List.mem_filter, decide_eq_true_eq]
        constructor
        · rintro ⟨e', ⟨he', hfrom⟩, hto⟩
          obtain rfl : e' = e := by
            cases e'; cases e; simp_all
          exact he'
        · exact fun he => ⟨e, ⟨he, hu⟩, rfl⟩
      by_cases he : e ∈ l
      · rw [List.dedup_cons_of_mem he, List.dedup_cons_of_mem (hmem.mpr he), ih]
      · rw [List.dedup_cons_of_notMem he, List.dedup_cons_of_notMem (hmem.not.mpr he),
          List.filter_cons_of_pos (by simpa using hu), List.map_cons, ih]
    · rw [List.filter_cons_of_neg (by simpa using hu), ← ih]
      by_cases he : e ∈ l
      · rw [List.dedup_cons_of_mem he]
      · rw [List.dedup_cons_of_notMem he, List.filter_cons_of_neg (by simpa using hu)]

theorem simple_topoSort (h : dag.Valid) :
    dag.simple.topoSort = (dag.graph h).simple.sort dag.edges.length := by
  have hle : ∀ u, (dag.simple.outgoing u).length ≤ dag.edges.length := fun u =>
    (dag.simple.length_outgoing_le u).trans (List.dedup_sublist dag.edges).length_le
  rw [topoSort_eq h.simple, Multigraph.sort_eq_sort (G := dag.simple.graph h.simple)
    dag.simple.length_outgoing_le hle]
  exact Multigraph.sort_congr rfl (funext fun u => simple_outgoing dag u)

/-- **Repeated edges.** The sort lists no node twice exactly when no repeated edge fires. -/
theorem nodup_topoSort_iff (h : dag.Valid) : dag.topoSort.Nodup ↔ ¬ dag.RepeatedEdgeFires := by
  rw [topoSort_eq h, Multigraph.nodup_sort_iff (G := dag.graph h) dag.length_outgoing_le h.nodup,
    ← simple_topoSort h]
  constructor
  · rintro hquiet ⟨l₁, u, l₂, v, heq, hcount, hready⟩
    have hle := List.nodup_iff_count_le_one.mp (hquiet l₁ u l₂ heq) v
    have hready' : (dag.graph h).Ready (l₁ ++ [u]) v := hready
    rw [Multigraph.release, List.count_filter (by simpa using hready')] at hle
    have hout : (dag.outgoing u).count v ≤ 1 := hle
    rw [count_outgoing] at hout
    omega
  · intro hnot l₁ u l₂ heq
    refine List.nodup_iff_count_le_one.mpr fun v => ?_
    by_contra hgt
    have hmem : v ∈ (dag.graph h).release (l₁ ++ [u]) u :=
      List.count_pos_iff.mp (by omega)
    have hready := (Multigraph.mem_release.mp hmem).2
    rw [Multigraph.release, List.count_filter (by simpa using hready)] at hgt
    have hout : ¬ (dag.outgoing u).count v ≤ 1 := hgt
    rw [count_outgoing] at hout
    exact hnot ⟨l₁, u, l₂, v, heq, by omega, hready⟩

theorem nodup_topoSort (h : dag.Valid) (hedges : dag.edges.Nodup) : dag.topoSort.Nodup := by
  rw [nodup_topoSort_iff h]
  rintro ⟨-, u, -, v, -, hcount, -⟩
  have := List.nodup_iff_count_le_one.mp hedges ⟨u, v⟩
  omega

/-! ## The length test -/

theorem hasCycle_iff (h : dag.Valid) :
    dag.HasCycle ↔ ¬ ∀ v, ¬ TransGen (dag.graph h).Edge v v := by
  rw [graph_edge, HasCycle, not_forall]
  simp only [not_not]

theorem length_topoSort_le (h : dag.Valid) (hnodup : dag.topoSort.Nodup) :
    dag.topoSort.length ≤ dag.nodes.length := by
  rw [topoSort_eq h] at hnodup ⊢
  have := Multigraph.length_sort_le (G := dag.graph h) dag.length_outgoing_le hnodup
  simpa [graph, ids] using this

theorem length_topoSort_eq_iff (h : dag.Valid) (hnodup : dag.topoSort.Nodup) :
    dag.topoSort.length = dag.nodes.length ↔ ¬ dag.HasCycle := by
  rw [topoSort_eq h] at hnodup ⊢
  rw [hasCycle_iff h, not_not,
    ← Multigraph.length_sort_eq_iff (G := dag.graph h) dag.length_outgoing_le h.nodup hnodup]
  simp [graph, ids]

theorem length_lt_topoSort (h : dag.Valid) (hacyclic : ¬ dag.HasCycle)
    (hdup : ¬ dag.topoSort.Nodup) : dag.nodes.length < dag.topoSort.length := by
  rw [topoSort_eq h] at hdup ⊢
  rw [hasCycle_iff h, not_not] at hacyclic
  have := Multigraph.length_lt_sort (G := dag.graph h) dag.length_outgoing_le h.nodup hacyclic hdup
  simpa [graph, ids] using this

/-- Without cycles every node is listed. -/
theorem mem_topoSort_of_acyclic (h : dag.Valid) (hacyclic : ¬ dag.HasCycle) {v : String}
    (hv : v ∈ dag.ids) : v ∈ dag.topoSort := by
  rw [hasCycle_iff h, not_not] at hacyclic
  rw [topoSort_eq h]
  exact (Multigraph.sort_complete_iff (G := dag.graph h) dag.length_outgoing_le).mpr hacyclic v hv

theorem wellFounded (h : dag.Valid) (hacyclic : ¬ dag.HasCycle) : WellFounded dag.Edge := by
  rw [hasCycle_iff h, not_not] at hacyclic
  rw [← graph_edge h]
  exact Multigraph.wellFounded_of_acyclic hacyclic

theorem simple_hasCycle : dag.simple.HasCycle ↔ dag.HasCycle := by
  have hedge : dag.simple.Edge = dag.Edge := by
    funext u v
    exact propext List.mem_dedup
  rw [HasCycle, hedge, HasCycle]

/-- Cycles can be decided by sorting the DAG without its repeated edges. -/
theorem hasCycle_iff_length (h : dag.Valid) :
    dag.HasCycle ↔ dag.simple.topoSort.length ≠ dag.nodes.length := by
  have hnodup : dag.simple.topoSort.Nodup := nodup_topoSort h.simple (List.nodup_dedup _)
  have hlen := length_topoSort_eq_iff h.simple hnodup
  rw [← simple_hasCycle, ne_eq, ← not_iff_not, not_not]
  exact hlen.symm

end WorkflowDag

/-- Two command nodes, the edge between them written twice. -/
def twiceDag : WorkflowDag where
  workflowId := "twice"
  nodes := [.command { id := "a", skill := "build" }, .command { id := "b", skill := "test" }]
  edges := [⟨"a", "b"⟩, ⟨"a", "b"⟩]

theorem twiceDag_valid : twiceDag.Valid := (validateDag_ok_iff _).mp (by decide)

theorem twiceDag_acyclic : ¬ twiceDag.HasCycle := by
  rw [WorkflowDag.hasCycle_iff_length twiceDag_valid]
  decide

/-- Two command nodes before a third one. The edge from `a` is written twice, but `b` is the last to
be taken. -/
def joinDag : WorkflowDag where
  workflowId := "join"
  nodes := [.command { id := "a", skill := "build" }, .command { id := "b", skill := "lint" },
    .command { id := "c", skill := "test" }]
  edges := [⟨"a", "c"⟩, ⟨"a", "c"⟩, ⟨"b", "c"⟩]

theorem joinDag_valid : joinDag.Valid := (validateDag_ok_iff _).mp (by decide)

theorem joinDag_acyclic : ¬ joinDag.HasCycle := by
  rw [WorkflowDag.hasCycle_iff_length joinDag_valid]
  decide

end Hymenium
