import Hymenium.Dag.Launch
import Hymenium.Dag.Skips

/-!
# Skipped nodes that are still needed

The skip pass marks the predecessors of a OneSuccess node that has fired, and looks at no other
successor of theirs. `fires` are the nodes whose predecessors one pass marks, in the order of the
pass, and `mem_walk_skipped_iff` the marks it writes, whatever the order. `skips_spared_iff` says in
which runs no mark takes a predecessor from a node that still needs it.
-/

namespace Hymenium

namespace WaveState

variable {dag : WorkflowDag}

/-- A OneSuccess node that has a successful predecessor. -/
def Satisfied (dag : WorkflowDag) (st : WaveState) (s : String) : Prop :=
  dag.rule s = some .oneSuccess ∧
    ∃ u ∈ dag.predecessors s, ∃ r, st.results u = some r ∧ r.status = .success

/-- Skipping the node takes nothing from its successors. -/
def Spared (dag : WorkflowDag) (st : WaveState) (id : String) : Prop :=
  ∀ s ∈ dag.outgoing id, Satisfied dag st s

/-- A satisfied node has its rule met. -/
theorem Satisfied.triggered {st : WaveState} {s : String} (h : Satisfied dag st s) :
    triggered st.results (dag.rule s) (dag.predecessors s) = true := by
  obtain ⟨hrule, u, hu, r, hr, hsuccess⟩ := h
  have hany : ((dag.predecessors s).filterMap st.results).any (·.status = .success) = true :=
    List.any_eq_true.mpr ⟨r, List.mem_filterMap.mpr ⟨u, hu, hr⟩, decide_eq_true hsuccess⟩
  rw [Hymenium.triggered, hrule]
  split_ifs
  · rfl
  · exact hany

/-- The nodes whose predecessors a pass marks: a OneSuccess node that is open before the pass and no
predecessor of one that has fired. -/
def fires (dag : WorkflowDag) (d : WaveState) :
    List (String × String) → (fired : List String) → List String
  | [], fired => fired
  | v :: rest, fired =>
    if dag.rule v.2 = some .oneSuccess ∧ d.Open v.2 ∧ ∀ s ∈ fired, v.2 ∉ dag.predecessors s then
      fires dag d rest (fired ++ [v.2])
    else fires dag d rest fired

/-- What a pass has marked when the nodes `fired` have fired. -/
structure MarkedBy (dag : WorkflowDag) (d : WaveState) (fired : List String)
    (st : WaveState) : Prop where
  completed : st.completed = d.completed
  skipped : ∀ id, id ∈ st.skipped ↔
    id ∈ d.skipped ∨ d.Open id ∧ ∃ s ∈ fired, id ∈ dag.predecessors s

variable {d st : WaveState} {fired : List String}

theorem MarkedBy.open_iff (h : MarkedBy dag d fired st) {id : String} :
    st.Open id ↔ d.Open id ∧ ∀ s ∈ fired, id ∉ dag.predecessors s := by
  unfold Open
  rw [h.completed, h.skipped]
  constructor
  · rintro ⟨hc, hs⟩
    rw [not_or] at hs
    exact ⟨⟨hc, hs.1⟩, fun s hmem hp => hs.2 ⟨⟨hc, hs.1⟩, s, hmem, hp⟩⟩
  · rintro ⟨⟨hc, hs⟩, hnone⟩
    refine ⟨hc, ?_⟩
    rintro (hs' | ⟨-, s, hmem, hp⟩)
    · exact hs hs'
    · exact hnone s hmem hp

/-- One visit of the pass. -/
theorem MarkedBy.visit (h : MarkedBy dag d fired st) {u s : String} (hu : u ∈ d.completed) :
    MarkedBy dag d
      (if dag.rule s = some .oneSuccess ∧ d.Open s ∧ ∀ s' ∈ fired, s ∉ dag.predecessors s' then
        fired ++ [s] else fired) (st.skipOthers dag u s) := by
  have hmem := mem_skipOthers dag (h.completed ▸ hu) s
  refine ⟨((marks_skipOthers dag u st s).completed).trans h.completed, fun id => ?_⟩
  rw [hmem id, h.skipped]
  simp only [h.open_iff]
  split_ifs with hfires
  · simp only [List.mem_append, List.mem_singleton]
    constructor
    · rintro ((hs | ⟨hopen, s', hs', hp⟩) | ⟨-, hp, hopen, -⟩)
      · exact .inl hs
      · exact .inr ⟨hopen, s', .inl hs', hp⟩
      · exact .inr ⟨hopen, s, .inr rfl, hp⟩
    · rintro (hs | ⟨hopen, s', hs', hp⟩)
      · exact .inl (.inl hs)
      by_cases hold : ∃ s' ∈ fired, id ∈ dag.predecessors s'
      · exact .inl (.inr ⟨hopen, hold⟩)
      · push Not at hold
        obtain rfl : s' = s := hs'.resolve_left fun hmem => hold s' hmem hp
        exact .inr ⟨hfires, hp, hopen, hold⟩
  · refine ⟨fun hmarked => hmarked.resolve_right fun hnew => hfires ?_, .inl⟩
    exact hnew.1

/-- A pass marks the open predecessors of the nodes that fire in it. -/
theorem MarkedBy.walk {visits : List (String × String)}
    (hvisits : ∀ v ∈ visits, v.1 ∈ d.completed) (h : MarkedBy dag d fired st) :
    MarkedBy dag d (fires dag d visits fired) (walk dag visits st) := by
  induction visits generalizing fired st with
  | nil => exact h
  | cons v rest ih =>
    have hvisit := h.visit (s := v.2) (hvisits v List.mem_cons_self)
    have hrest := ih (fun w hw => hvisits w (List.mem_cons_of_mem _ hw)) hvisit
    rw [fires, WaveState.walk, List.foldl_cons]
    split_ifs at hrest ⊢
    · exact hrest
    · exact hrest

theorem mem_walk_skipped_iff {visits : List (String × String)}
    (hvisits : ∀ v ∈ visits, v.1 ∈ d.completed) (id : String) :
    id ∈ (walk dag visits d).skipped ↔
      id ∈ d.skipped ∨ d.Open id ∧ ∃ s ∈ fires dag d visits [], id ∈ dag.predecessors s := by
  have hstart : MarkedBy dag d [] d := ⟨rfl, fun id => by simp⟩
  exact (hstart.walk hvisits).skipped id

/-- A node that fires is a OneSuccess node with a visit. -/
theorem of_mem_fires {visits : List (String × String)} {s : String}
    (h : s ∈ fires dag d visits fired) :
    s ∈ fired ∨ dag.rule s = some .oneSuccess ∧ ∃ u, (u, s) ∈ visits := by
  induction visits generalizing fired with
  | nil => exact .inl h
  | cons v rest ih =>
    rw [fires] at h
    split_ifs at h with hfires
    · rcases ih h with hmem | ⟨hrule, u, hu⟩
      · rcases List.mem_append.mp hmem with hmem | hmem
        · exact .inl hmem
        · rw [List.mem_singleton.mp hmem]
          exact .inr ⟨hfires.1, v.1, List.mem_cons_self⟩
      · exact .inr ⟨hrule, u, List.mem_cons_of_mem _ hu⟩
    · exact (ih h).imp_right fun ⟨hrule, u, hu⟩ => ⟨hrule, u, List.mem_cons_of_mem _ hu⟩

/-! ## Runs -/

section Runs

variable (dag) (exec : NodeExec) (env : Env) (arrivals : Arrivals)

/-- The state of wave `k` before its skip pass. -/
def arrivedAt (k : ℕ) : WaveState :=
  (waveAt dag exec env arrivals k).arrived dag exec env arrivals k

/-- The nodes that fire in the skip pass of wave `k`. -/
def firedAt (k : ℕ) : List String :=
  fires dag (arrivedAt dag exec env arrivals k)
    (visits dag (spawnedAt dag exec env arrivals k) (arrivedAt dag exec env arrivals k)) []

/-- Node `id` is marked as skipped in wave `k`. -/
def SkippedIn (k : ℕ) (id : String) : Prop :=
  id ∈ (waveAt dag exec env arrivals (k + 1)).skipped ∧
    id ∉ (waveAt dag exec env arrivals k).skipped

variable {dag exec env arrivals}

/-- A node that fires is satisfied. -/
theorem satisfied_of_mem_firedAt {k : ℕ} {s : String} (h : s ∈ firedAt dag exec env arrivals k) :
    Satisfied dag (arrivedAt dag exec env arrivals k) s := by
  rcases of_mem_fires h with hmem | ⟨hrule, u, hu⟩
  · cases hmem
  · obtain ⟨-, hsuccess, hout⟩ := mem_visits.mp hu
    refine ⟨hrule, u, ?_, hsuccess⟩
    rw [WorkflowDag.mem_predecessors]
    exact WorkflowDag.mem_outgoing.mp hout

theorem skippedIn_iff (h : dag.Valid) {k : ℕ} {id : String} :
    SkippedIn dag exec env arrivals k id ↔ (arrivedAt dag exec env arrivals k).Open id ∧
      ∃ s ∈ firedAt dag exec env arrivals k, id ∈ dag.predecessors s := by
  have hvisits : ∀ v ∈ visits dag (spawnedAt dag exec env arrivals k)
      (arrivedAt dag exec env arrivals k), v.1 ∈ (arrivedAt dag exec env arrivals k).completed :=
    fun v hv => ready_completed h exec env arrivals _ k v.1 (mem_visits.mp hv).1
  have hwave : waveAt dag exec env arrivals (k + 1) =
      walk dag (visits dag (spawnedAt dag exec env arrivals k) (arrivedAt dag exec env arrivals k))
        (arrivedAt dag exec env arrivals k) := wave_eq_walk h exec env arrivals _ k
  have hskipped : (arrivedAt dag exec env arrivals k).skipped =
      (waveAt dag exec env arrivals k).skipped := foldl_record_skipped _ _
  rw [SkippedIn, hwave, mem_walk_skipped_iff hvisits, ← hskipped]
  constructor
  · rintro ⟨hs | hmarked, hnot⟩
    · exact absurd hs hnot
    · exact hmarked
  · rintro ⟨hopen, hfired⟩
    exact ⟨.inr ⟨hopen, hfired⟩, hopen.2⟩

end Runs

end WaveState

open WaveState

/-- **Starvation.** In a run no skipped node is needed by a successor if and only if, in every wave,
the open predecessors of a OneSuccess node that fires are not needed by another one. -/
theorem skips_spared_iff {dag : WorkflowDag} (h : dag.Valid) (exec : NodeExec) (env : Env)
    (arrivals : Arrivals) :
    (∀ k id, SkippedIn dag exec env arrivals k id →
        Spared dag (arrivedAt dag exec env arrivals k) id) ↔
      ∀ k, ∀ s ∈ firedAt dag exec env arrivals k, ∀ o ∈ dag.predecessors s,
        (arrivedAt dag exec env arrivals k).Open o → ∀ t ∈ dag.outgoing o, t ≠ s →
          Satisfied dag (arrivedAt dag exec env arrivals k) t := by
  constructor
  · intro hall k s hs o ho hopen t ht _
    exact hall k o ((skippedIn_iff h).mpr ⟨hopen, s, hs, ho⟩) t ht
  · intro hall k id hid t ht
    obtain ⟨hopen, s, hs, hp⟩ := (skippedIn_iff h).mp hid
    by_cases hts : t = s
    · rw [hts]
      exact satisfied_of_mem_firedAt hs
    · exact hall k s hs id hp hopen t ht hts

/-- A OneSuccess node `s` after `a` and after `b`, which waits for `c`; `edges` are added. -/
def fanInDag (edges : List DagEdge) : WorkflowDag where
  workflowId := "fan-in"
  nodes := [.bash { id := "a", command := "true" }, .bash { id := "c", command := "true" },
    .bash { id := "b", command := "true" },
    .bash { id := "s", command := "true", triggerRule := .oneSuccess },
    .bash { id := "t", command := "true" }]
  edges := [⟨"c", "b"⟩, ⟨"a", "s"⟩, ⟨"b", "s"⟩] ++ edges

/-- Nothing else needs the node that is skipped. -/
theorem skips_spared_iff_fanIn : validateDag (fanInDag []) = .ok () ∧ ∀ k id,
    SkippedIn (fanInDag []) quietExec (fun _ => none) .inOrder k id →
      Spared (fanInDag []) (arrivedAt (fanInDag []) quietExec (fun _ => none) .inOrder k) id := by
  have hvalid : validateDag (fanInDag []) = .ok () := by decide
  refine ⟨hvalid, (skips_spared_iff ((validateDag_ok_iff _).mp hvalid) _ _ _).mpr ?_⟩
  intro k s hs o ho _ t ht hne
  have hrule := (satisfied_of_mem_firedAt hs).1
  rw [WorkflowDag.mem_predecessors] at ho
  rw [WorkflowDag.mem_outgoing] at ht
  simp only [fanInDag, List.append_nil, List.mem_cons, DagEdge.mk.injEq, List.not_mem_nil,
    or_false] at ho ht
  rcases ho with ⟨rfl, rfl⟩ | ⟨rfl, rfl⟩ | ⟨rfl, rfl⟩
  · exact absurd hrule (by decide)
  · exact absurd (by simpa using ht) hne
  · exact absurd (by simpa using ht) hne

/-- The node that is skipped is needed by a node that waits for all of its predecessors. -/
theorem needed_node_skipped : ¬ ∀ (dag : WorkflowDag) (exec : NodeExec) (env : Env)
    (arrivals : Arrivals), validateDag dag = .ok () → ¬ dag.HasCycle → dag.edges.Nodup →
    ∀ k id, SkippedIn dag exec env arrivals k id →
      Spared dag (arrivedAt dag exec env arrivals k) id := by
  intro hclaim
  have hvalid : validateDag (fanInDag [⟨"b", "t"⟩]) = .ok () := by decide
  have hacyclic : ¬ (fanInDag [⟨"b", "t"⟩]).HasCycle := by
    rw [WorkflowDag.hasCycle_iff_length ((validateDag_ok_iff _).mp hvalid)]
    decide
  have hskipped : SkippedIn (fanInDag [⟨"b", "t"⟩]) quietExec (fun _ => none) .inOrder 0 "b" := by
    constructor
    · decide +kernel
    · decide +kernel
  have hspared := hclaim _ _ _ _ hvalid hacyclic (by decide) 0 "b" hskipped "t" (by decide +kernel)
  exact absurd hspared.1 (by decide)

end Hymenium
