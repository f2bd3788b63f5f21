import Hymenium.Dag.Results

/-!
# Skip marks and the order of nodes and edges

After each wave the executor walks the nodes that just succeeded and their OneSuccess successors,
and marks the other predecessors of each such successor, unless the successor has itself been marked
by then. The walk follows the order of `nodes` and `edges`, and it reads the marks it writes: where
one triggered successor is a predecessor of another, the order decides whether it still marks.

`SkipsCommute` is the condition on the state before the walk under which the marks are the same for
every order. A run whose waves all meet it gives every node the same status however the DAG is
written down (`reordered_statuses`).
-/

namespace Hymenium

namespace WaveState

variable {dag : WorkflowDag}

/-! ## One visit of the walk -/

/-- One step of the inner loop of `skipOthers`. -/
theorem foldl_markSkipped (u : String) (l : List String) (st : WaveState) (id : String) :
    id ∈ (l.foldl (fun st other => if other ≠ u ∧ st.Open other then st.markSkipped other else st)
        st).skipped ↔
      id ∈ st.skipped ∨ id ∈ l ∧ id ≠ u ∧ st.Open id := by
  induction l generalizing st with
  | nil => simp
  | cons other l ih =>
    rw [List.foldl_cons, ih, List.mem_cons]
    by_cases ho : other ≠ u ∧ st.Open other
    · rw [if_pos ho]
      simp only [markSkipped, Open, Finset.mem_insert, not_or]
      constructor
      · rintro ((rfl | hs) | ⟨hl, hne, hc, -, hs⟩)
        · exact .inr ⟨.inl rfl, ho⟩
        · exact .inl hs
        · exact .inr ⟨.inr hl, hne, hc, hs⟩
      · rintro (hs | ⟨rfl | hl, hne, hc, hs⟩)
        · exact .inl (.inr hs)
        · exact .inl (.inl rfl)
        · by_cases he : id = other
          · exact .inl (.inl he)
          · exact .inr ⟨hl, hne, hc, he, hs⟩
    · rw [if_neg ho]
      constructor
      · rintro (hs | ⟨hl, h⟩)
        · exact .inl hs
        · exact .inr ⟨.inr hl, h⟩
      · rintro (hs | ⟨rfl | hl, h⟩)
        · exact .inl hs
        · exact absurd h ho
        · exact .inr ⟨hl, h⟩

/-- A visit of an open OneSuccess successor marks its open predecessors; other visits mark none. -/
theorem mem_skipOthers (dag : WorkflowDag) {st : WaveState} {u : String} (hu : u ∈ st.completed)
    (s id : String) :
    id ∈ (st.skipOthers dag u s).skipped ↔
      id ∈ st.skipped ∨ (dag.rule s = some .oneSuccess ∧ st.Open s) ∧
        id ∈ dag.predecessors s ∧ st.Open id := by
  unfold skipOthers
  split_ifs with hc
  · rw [foldl_markSkipped]
    refine or_congr_right ⟨fun h => ⟨hc, h.1, h.2.2⟩, fun h => ⟨h.2.1, ?_, h.2.2⟩⟩
    rintro rfl
    exact h.2.2.1 hu
  · simp [hc]

/-! ## The walk over pairs -/

/-- The visits of the walk: a succeeded node of the wave with each of its successors. -/
def visits (dag : WorkflowDag) (nodes : List String) (st : WaveState) : List (String × String) :=
  nodes.flatMap fun u =>
    if (st.results u).any (·.status = .success) then (dag.outgoing u).map (u, ·) else []

/-- The walk over a list of visits. -/
def walk (dag : WorkflowDag) (visits : List (String × String)) (st : WaveState) : WaveState :=
  visits.foldl (fun st v => st.skipOthers dag v.1 v.2) st

theorem Marks.open_mono {a b : WaveState} (h : Marks a b) {id : String} (ho : b.Open id) :
    a.Open id :=
  ⟨fun hc => ho.1 (by rw [h.completed]; exact hc), fun hs => ho.2 (h.skipped hs)⟩

theorem Marks.results_completed {a b : WaveState} (h : Marks a b) {u : String}
    (hu : u ∈ a.completed) : b.results u = a.results u := by
  by_cases hs : u ∈ a.skipped
  · exact h.kept u (.inl hs)
  · exact h.kept u (.inr fun hb => (h.marked u hb hs).1 hu)

theorem skipFrom_eq_walk {d st : WaveState} (h : Marks d st) {u : String}
    (hu : u ∈ d.completed) : st.skipFrom dag u = walk dag (visits dag [u] d) st := by
  unfold skipFrom walk visits
  rw [h.results_completed hu]
  cases hres : d.results u with
  | none => simp [hres]
  | some r =>
    by_cases hr : r.status = .success
    · simp [hres, hr, List.foldl_map]
    · simp [hres, hr]

/-- The skip pass of the source is the walk over the visits read off the state before it. -/
theorem foldl_skipFrom_eq_walk {d : WaveState} {nodes : List String}
    (hnodes : ∀ u ∈ nodes, u ∈ d.completed) {st : WaveState} (h : Marks d st) :
    nodes.foldl (skipFrom dag) st = walk dag (visits dag nodes d) st := by
  induction nodes generalizing st with
  | nil => rfl
  | cons u nodes ih =>
    have hsplit : visits dag (u :: nodes) d = visits dag [u] d ++ visits dag nodes d := by
      simp [visits]
    rw [List.foldl_cons, ih (fun v hv => hnodes v (by simp [hv]))
      (h.trans (marks_skipFrom dag st u)), skipFrom_eq_walk h (hnodes u (by simp)), hsplit, walk,
      walk, walk, List.foldl_append]

/-! ## Which marks a walk writes -/

section Walk

/-- `s` is an open OneSuccess node that a visit of the walk is about. -/
def Triggered (dag : WorkflowDag) (visits : List (String × String)) (d : WaveState)
    (s : String) : Prop :=
  dag.rule s = some .oneSuccess ∧ d.Open s ∧ ∃ u, (u, s) ∈ visits

/-- Every predecessor of `s` that was open before the walk is marked. -/
def Cleared (dag : WorkflowDag) (d st : WaveState) (s : String) : Prop :=
  ∀ o ∈ dag.predecessors s, d.Open o → o ∈ st.skipped

variable {d : WaveState}

theorem Cleared.mono {st st' : WaveState} {s : String} (h : Cleared dag d st s)
    (hs : st.skipped ⊆ st'.skipped) : Cleared dag d st' s := fun o hp ho => hs (h o hp ho)

theorem marks_walk (dag : WorkflowDag) (visits : List (String × String)) (st : WaveState) :
    Marks st (walk dag visits st) :=
  marks_foldl (f := fun st (v : String × String) => st.skipOthers dag v.1 v.2)
    (fun st v => marks_skipOthers dag v.1 st v.2) visits st

/-- What the walk has done so far: a new mark is owed to a triggered node all of whose open
predecessors are marked. -/
structure WalkInv (dag : WorkflowDag) (trig : String → Prop) (d st : WaveState) : Prop where
  marks : Marks d st
  owed : ∀ id ∈ st.skipped, id ∉ d.skipped →
    ∃ s, trig s ∧ id ∈ dag.predecessors s ∧ Cleared dag d st s

variable {trig : String → Prop}

theorem walkInv_refl (dag : WorkflowDag) (trig : String → Prop) (d : WaveState) :
    WalkInv dag trig d d :=
  ⟨Marks.refl d, fun _ h hn => absurd h hn⟩

/-- A visit of an open OneSuccess node clears it. -/
theorem cleared_visit {st : WaveState} (h : Marks d st) {u s : String} (hu : u ∈ d.completed)
    (hrule : dag.rule s = some .oneSuccess) (hopen : st.Open s) :
    Cleared dag d (st.skipOthers dag u s) s := by
  intro o hp ho
  rw [mem_skipOthers dag (by rw [h.completed]; exact hu)]
  by_cases hs : o ∈ st.skipped
  · exact .inl hs
  · exact .inr ⟨⟨hrule, hopen⟩, hp, by rw [h.completed]; exact ho.1, hs⟩

/-- A visit keeps the invariant, and leaves its successor cleared or marked. -/
theorem WalkInv.visit {st : WaveState} (h : WalkInv dag trig d st) {u s : String}
    (hu : u ∈ d.completed)
    (htrig : dag.rule s = some .oneSuccess → d.Open s → trig s) :
    WalkInv dag trig d (st.skipOthers dag u s) ∧
      (dag.rule s = some .oneSuccess → d.Open s →
        Cleared dag d (st.skipOthers dag u s) s ∨ s ∈ (st.skipOthers dag u s).skipped) := by
  have hmarks := h.marks.trans (marks_skipOthers dag u st s)
  have hust : u ∈ st.completed := by rw [h.marks.completed]; exact hu
  have hmem := mem_skipOthers dag hust s
  refine ⟨⟨hmarks, fun id hid hn => ?_⟩, fun hr hopen => ?_⟩
  · rcases (hmem id).mp hid with hs | ⟨⟨hr, hopen⟩, hp, -⟩
    · obtain ⟨s', ht, hp', hc⟩ := h.owed id hs hn
      exact ⟨s', ht, hp', hc.mono (marks_skipOthers dag u st s).skipped⟩
    · exact ⟨s, htrig hr (h.marks.open_mono hopen), hp, cleared_visit h.marks hu hr hopen⟩
  · by_cases hs : s ∈ st.skipped
    · exact .inr ((marks_skipOthers dag u st s).skipped hs)
    · have hst : st.Open s := ⟨by rw [h.marks.completed]; exact hopen.1, hs⟩
      exact .inl (cleared_visit h.marks hu hr hst)

theorem WalkInv.walk {visits : List (String × String)} (hvisits : ∀ v ∈ visits, v.1 ∈ d.completed)
    (htrig : ∀ v ∈ visits, dag.rule v.2 = some .oneSuccess → d.Open v.2 → trig v.2)
    {st : WaveState} (h : WalkInv dag trig d st) :
    WalkInv dag trig d (walk dag visits st) ∧
      ∀ v ∈ visits, dag.rule v.2 = some .oneSuccess → d.Open v.2 →
        Cleared dag d (WaveState.walk dag visits st) v.2 ∨
          v.2 ∈ (WaveState.walk dag visits st).skipped := by
  induction visits generalizing st with
  | nil => exact ⟨h, fun v hv => by cases hv⟩
  | cons v visits ih =>
    obtain ⟨hinv, hhead⟩ := h.visit (hvisits v (by simp)) (htrig v (by simp))
    obtain ⟨hinv', htail⟩ := ih (fun w hw => hvisits w (by simp [hw]))
      (fun w hw => htrig w (by simp [hw])) hinv
    refine ⟨hinv', fun w hw hr hopen => ?_⟩
    have hsub := (marks_walk dag visits (st.skipOthers dag v.1 v.2)).skipped
    rcases List.mem_cons.mp hw with rfl | hw'
    · exact (hhead hr hopen).imp (fun hc => hc.mono hsub) fun hs => hsub hs
    · exact htail w hw' hr hopen

end Walk

/-- The order of the visits does not matter: an open predecessor `o` of a triggered node has a
triggered successor all of whose own triggered successors have `o` as a predecessor too. -/
def VisitsCommute (dag : WorkflowDag) (visits : List (String × String)) (d : WaveState) : Prop :=
  ∀ o s, d.Open o → Triggered dag visits d s → o ∈ dag.predecessors s →
    ∃ s₁, Triggered dag visits d s₁ ∧ o ∈ dag.predecessors s₁ ∧
      ∀ s', Triggered dag visits d s' → s₁ ∈ dag.predecessors s' → o ∈ dag.predecessors s'

/-- **Marks.** Under the condition, a walk marks the open predecessors of the triggered nodes. -/
theorem mem_walk_skipped {d : WaveState} {visits : List (String × String)}
    (hvisits : ∀ v ∈ visits, v.1 ∈ d.completed) (h : VisitsCommute dag visits d) (id : String) :
    id ∈ (walk dag visits d).skipped ↔
      id ∈ d.skipped ∨ d.Open id ∧ ∃ s, Triggered dag visits d s ∧ id ∈ dag.predecessors s := by
  obtain ⟨hinv, hdone⟩ := (walkInv_refl dag (Triggered dag visits d) d).walk hvisits
    fun v hv hr ho => ⟨hr, ho, v.1, hv⟩
  constructor
  · intro hid
    by_cases hs : id ∈ d.skipped
    · exact .inl hs
    · obtain ⟨s, ht, hp, -⟩ := hinv.owed id hid hs
      exact .inr ⟨⟨(hinv.marks.marked id hid hs).1, hs⟩, s, ht, hp⟩
  · rintro (hs | ⟨hopen, s, ht, hp⟩)
    · exact hinv.marks.skipped hs
    · obtain ⟨s₁, ht₁, hp₁, hall⟩ := h id s hopen ht hp
      obtain ⟨u, hu⟩ := ht₁.2.2
      rcases hdone _ hu ht₁.1 ht₁.2.1 with hc | hs₁
      · exact hc id hp₁ hopen
      · -- `s₁` was marked, by a node that `id` precedes as well
        obtain ⟨s', ht', hp', hc⟩ := hinv.owed s₁ hs₁ ht₁.2.1.2
        exact hc id (hall s' ht' hp') hopen

end WaveState

/-! ## Two ways to write a DAG down -/

/-- `dag'` lists the nodes and the edges of `dag` in another order. -/
structure Reorders (dag dag' : WorkflowDag) : Prop where
  nodes : dag'.nodes.Perm dag.nodes
  edges : dag'.edges.Perm dag.edges

namespace Reorders

variable {dag dag' : WorkflowDag}

theorem mem_ids (hr : Reorders dag dag') {id : String} : id ∈ dag'.ids ↔ id ∈ dag.ids :=
  (hr.nodes.map DagNode.id).mem_iff

theorem edge_eq (hr : Reorders dag dag') : dag'.Edge = dag.Edge := by
  funext u v
  exact propext hr.edges.mem_iff

theorem valid (hr : Reorders dag dag') (h : dag.Valid) : dag'.Valid where
  nodup := (hr.nodes.map DagNode.id).nodup_iff.mpr h.nodup
  closed e he := by
    rw [hr.mem_ids, hr.mem_ids]
    exact h.closed e (hr.edges.mem_iff.mp he)

theorem mem_predecessors (hr : Reorders dag dag') {u v : String} :
    u ∈ dag'.predecessors v ↔ u ∈ dag.predecessors v := by
  rw [WorkflowDag.mem_predecessors, WorkflowDag.mem_predecessors]
  exact hr.edges.mem_iff

theorem mem_outgoing (hr : Reorders dag dag') {u v : String} :
    v ∈ dag'.outgoing u ↔ v ∈ dag.outgoing u := by
  rw [WorkflowDag.mem_outgoing, WorkflowDag.mem_outgoing]
  exact hr.edges.mem_iff

theorem nodeMap_eq (hr : Reorders dag dag') (h : dag.Valid) : dag'.nodeMap = dag.nodeMap := by
  funext id
  refine Option.ext fun node => ?_
  rw [WorkflowDag.nodeMap_eq_some_iff (hr.valid h), WorkflowDag.nodeMap_eq_some_iff h,
    hr.nodes.mem_iff]

theorem rule_eq (hr : Reorders dag dag') (h : dag.Valid) (id : String) :
    dag'.rule id = dag.rule id := by
  rw [WorkflowDag.rule, WorkflowDag.rule, hr.nodeMap_eq h]

theorem mem_topoSort (hr : Reorders dag dag') (h : dag.Valid) {id : String} :
    id ∈ dag'.topoSort ↔ id ∈ dag.topoSort := by
  rw [WorkflowDag.mem_topoSort_iff (hr.valid h), WorkflowDag.mem_topoSort_iff h, hr.mem_ids,
    hr.edge_eq]

theorem hasCycle_iff (hr : Reorders dag dag') : dag'.HasCycle ↔ dag.HasCycle := by
  rw [WorkflowDag.HasCycle, hr.edge_eq, WorkflowDag.HasCycle]

theorem ruleMet_iff (hr : Reorders dag dag') {ok ok' : String → Prop}
    (hok : ∀ p, ok' p ↔ ok p) (node : DagNode) :
    RuleMet dag' ok' node ↔ RuleMet dag ok node := by
  have hnil : dag'.predecessors node.id = [] ↔ dag.predecessors node.id = [] := by
    simp only [List.eq_nil_iff_forall_not_mem, hr.mem_predecessors]
  unfold RuleMet
  rw [hnil]
  simp only [hr.mem_predecessors, hok]

end Reorders

namespace WaveState

/-- Two states agree on what is completed, what is marked, and on all statuses. -/
structure Agree (st st' : WaveState) : Prop where
  completed : st'.completed = st.completed
  skipped : st'.skipped = st.skipped
  status : ∀ id, (st'.results id).map NodeResult.status = (st.results id).map NodeResult.status

section Agree

variable {dag dag' : WorkflowDag} {st st' : WaveState}

theorem map_status_eq_iff {o : Option NodeResult} {s : NodeStatus} :
    o.map NodeResult.status = some s ↔ ∃ r, o = some r ∧ r.status = s := by
  cases o <;> simp

theorem Agree.open_iff (ha : Agree st st') {id : String} : st'.Open id ↔ st.Open id := by
  rw [Open, ha.completed, ha.skipped, Open]

theorem Agree.success_iff (ha : Agree st st') (id : String) :
    (∃ r, st'.results id = some r ∧ r.status = .success) ↔
      ∃ r, st.results id = some r ∧ r.status = .success := by
  rw [← map_status_eq_iff, ← map_status_eq_iff, ha.status]

theorem Agree.mem_ready (ha : Agree st st') (hr : Reorders dag dag') (h : dag.Valid)
    {id : String} : id ∈ st'.ready dag' ↔ id ∈ st.ready dag := by
  rw [WaveState.mem_ready, WaveState.mem_ready, hr.mem_topoSort h, ha.open_iff, hr.rule_eq h]
  refine and_congr_right fun hmem => and_congr_right fun _ => ?_
  obtain ⟨node, hnode, rfl⟩ :=
    List.mem_map.mp ((WorkflowDag.mem_topoSort_iff h).mp hmem).1
  rw [WorkflowDag.rule_id h hnode, triggered_iff, triggered_iff]
  exact hr.ruleMet_iff ha.success_iff node

theorem mem_visits {nodes : List String} {u s : String} :
    (u, s) ∈ visits dag nodes st ↔
      u ∈ nodes ∧ (∃ r, st.results u = some r ∧ r.status = .success) ∧ s ∈ dag.outgoing u := by
  simp only [visits, List.mem_flatMap]
  constructor
  · rintro ⟨v, hv, hm⟩
    split_ifs at hm with hs
    · obtain ⟨t, ht, heq⟩ := List.mem_map.mp hm
      cases heq
      refine ⟨hv, ?_, ht⟩
      simpa [Option.any_eq_true] using hs
    · cases hm
  · rintro ⟨hu, hs, hout⟩
    refine ⟨u, hu, ?_⟩
    rw [if_pos (by simpa [Option.any_eq_true] using hs)]
    exact List.mem_map_of_mem hout

/-- The state before the skip pass of a wave. -/
theorem Agree.arrived (ha : Agree st st') (hr : Reorders dag dag') (h : dag.Valid)
    {exec : NodeExec} {own : String → NodeStatus}
    (hown : ∀ node env results, (exec.run node env results).status = own node.id)
    (env env' : Env) (arrivals arrivals' : Arrivals) (k : ℕ) :
    Agree (st.arrived dag exec env arrivals k) (st'.arrived dag' exec env' arrivals' k) where
  completed := by
    refine Finset.ext fun id => ?_
    rw [mem_arrived_completed (hr.valid h), mem_arrived_completed h, ha.completed,
      ha.mem_ready hr h]
  skipped := by
    rw [WaveState.arrived, WaveState.arrived, foldl_record_skipped, foldl_record_skipped,
      ha.skipped]
  status id := by
    by_cases hid : id ∈ st.ready dag
    · have hmem := ((WorkflowDag.mem_topoSort_iff h).mp (WaveState.mem_ready.mp hid).1).1
      obtain ⟨node, hnode⟩ := WorkflowDag.exists_nodeMap h hmem
      have hnode' : dag'.nodeMap id = some node := by rw [hr.nodeMap_eq h]; exact hnode
      rw [arrived_results_of_ready h k hid hnode,
        arrived_results_of_ready (hr.valid h) k ((ha.mem_ready hr h).mpr hid) hnode',
        Option.map_some, Option.map_some, hown, hown]
    · rw [arrived_results_of_not_ready h k hid,
        arrived_results_of_not_ready (hr.valid h) k fun hid' => hid ((ha.mem_ready hr h).mp hid')]
      exact ha.status id

theorem Agree.triggered_iff {d d' : WaveState} (ha : Agree d d') (hr : Reorders dag dag')
    (h : dag.Valid) {nodes nodes' : List String} (hnodes : ∀ u, u ∈ nodes' ↔ u ∈ nodes)
    (s : String) :
    Triggered dag' (visits dag' nodes' d') d' s ↔ Triggered dag (visits dag nodes d) d s := by
  unfold Triggered
  simp only [mem_visits, hr.rule_eq h, ha.open_iff, hnodes, ha.success_iff, hr.mem_outgoing]

/-- Agreeing states give every node the same final status. -/
theorem Agree.collect_status (ha : Agree st st') (id : String) :
    (st'.collect id).status = (st.collect id).status := by
  have hst := ha.status id
  unfold collect
  cases hres : st.results id with
  | none =>
    cases hres' : st'.results id with
    | none => rfl
    | some r' => simp [hres, hres'] at hst
  | some r =>
    cases hres' : st'.results id with
    | none => simp [hres, hres'] at hst
    | some r' =>
      simp only [hres, hres', Option.map_some, Option.some.injEq] at hst
      exact hst

theorem Agree.visitsCommute {d d' : WaveState} (ha : Agree d d') (hr : Reorders dag dag')
    (h : dag.Valid) {nodes nodes' : List String} (hnodes : ∀ u, u ∈ nodes' ↔ u ∈ nodes)
    (hc : VisitsCommute dag (visits dag nodes d) d) :
    VisitsCommute dag' (visits dag' nodes' d') d' := by
  unfold VisitsCommute at hc ⊢
  simpa only [ha.triggered_iff hr h hnodes, ha.open_iff, hr.mem_predecessors] using hc

/-- The nodes that run in a wave are completed in the state its skip pass starts from. -/
theorem ready_completed (h : dag.Valid) (exec : NodeExec) (env : Env) (arrivals : Arrivals)
    (st : WaveState) (k : ℕ) :
    ∀ u ∈ st.ready dag, u ∈ (st.arrived dag exec env arrivals k).completed :=
  fun u hu => (mem_arrived_completed h exec env arrivals st k u).mpr (.inr hu)

/-- A wave is the walk over the visits of its ready nodes. -/
theorem wave_eq_walk (h : dag.Valid) (exec : NodeExec) (env : Env) (arrivals : Arrivals)
    (st : WaveState) (k : ℕ) :
    st.wave dag exec env arrivals k =
      walk dag (visits dag (st.ready dag) (st.arrived dag exec env arrivals k))
        (st.arrived dag exec env arrivals k) :=
  foldl_skipFrom_eq_walk (ready_completed h exec env arrivals st k) (Marks.refl _)

/-- A wave keeps the agreement when its marks do not depend on the order. -/
theorem Agree.wave (ha : Agree st st') (hr : Reorders dag dag') (h : dag.Valid)
    {exec : NodeExec} {own : String → NodeStatus}
    (hown : ∀ node env results, (exec.run node env results).status = own node.id)
    (env env' : Env) (arrivals arrivals' : Arrivals) (k : ℕ)
    (hc : VisitsCommute dag (visits dag (st.ready dag) (st.arrived dag exec env arrivals k))
      (st.arrived dag exec env arrivals k)) :
    Agree (st.wave dag exec env arrivals k) (st'.wave dag' exec env' arrivals' k) := by
  have hd := ha.arrived hr h hown env env' arrivals arrivals' k
  have hnodes : ∀ u, u ∈ st'.ready dag' ↔ u ∈ st.ready dag := fun u => ha.mem_ready hr h
  have hc' := hd.visitsCommute hr h hnodes hc
  have hdone := ready_completed h exec env arrivals st k
  have hdone' := ready_completed (hr.valid h) exec env' arrivals' st' k
  rw [wave_eq_walk h, wave_eq_walk (hr.valid h)]
  generalize st.arrived dag exec env arrivals k = d at hd hc hdone ⊢
  generalize st'.arrived dag' exec env' arrivals' k = d' at hd hc' hdone' ⊢
  have hm := marks_walk dag (visits dag (st.ready dag) d) d
  have hm' := marks_walk dag' (visits dag' (st'.ready dag') d') d'
  have hskip : (walk dag' (visits dag' (st'.ready dag') d') d').skipped =
      (walk dag (visits dag (st.ready dag) d) d).skipped := by
    refine Finset.ext fun id => ?_
    rw [mem_walk_skipped (fun v hv => hdone' v.1 (mem_visits.mp hv).1) hc',
      mem_walk_skipped (fun v hv => hdone v.1 (mem_visits.mp hv).1) hc, hd.skipped, hd.open_iff]
    simp only [hd.triggered_iff hr h hnodes, hr.mem_predecessors]
  refine ⟨by rw [hm.completed, hm'.completed, hd.completed], hskip, fun id => ?_⟩
  by_cases hnew : id ∈ (walk dag (visits dag (st.ready dag) d) d).skipped ∧ id ∉ d.skipped
  · rw [(hm.marked id hnew.1 hnew.2).2,
      (hm'.marked id (by rw [hskip]; exact hnew.1) (by rw [hd.skipped]; exact hnew.2)).2]
  · have hold : id ∈ d.skipped ∨ id ∉ (walk dag (visits dag (st.ready dag) d) d).skipped := by
      by_cases hs : id ∈ d.skipped
      · exact .inl hs
      · exact .inr fun hn => hnew ⟨hn, hs⟩
    rw [hm.kept id hold, hm'.kept id (by rw [hskip, hd.skipped]; exact hold)]
    exact hd.status id

end Agree

/-- In every wave of the run the skip marks are the same for every order of nodes and edges. -/
def SkipsCommute (dag : WorkflowDag) (exec : NodeExec) (env : Env) (arrivals : Arrivals) : Prop :=
  ∀ k, let d := (waveAt dag exec env arrivals k).arrived dag exec env arrivals k
    VisitsCommute dag (visits dag (spawnedAt dag exec env arrivals k) d) d

/-- Skips commute when no OneSuccess node is a predecessor of another one. -/
theorem skipsCommute_of_separate (dag : WorkflowDag) (exec : NodeExec) (env : Env)
    (arrivals : Arrivals)
    (h : ∀ e ∈ dag.edges, dag.rule e.fromId = some .oneSuccess →
      dag.rule e.toId ≠ some .oneSuccess) : SkipsCommute dag exec env arrivals := by
  intro k d o s _ ht hp
  refine ⟨s, ht, hp, fun s' ht' hs => ?_⟩
  exact absurd ht'.1 (h ⟨s, s'⟩ (WorkflowDag.mem_predecessors.mp hs) ht.1)

theorem agree_waveAt {dag dag' : WorkflowDag} (hr : Reorders dag dag') (h : dag.Valid)
    {exec : NodeExec} {own : String → NodeStatus}
    (hown : ∀ node env results, (exec.run node env results).status = own node.id)
    {env : Env} (env' : Env) {arrivals : Arrivals} (arrivals' : Arrivals)
    (hc : SkipsCommute dag exec env arrivals) (k : ℕ) :
    Agree (waveAt dag exec env arrivals k) (waveAt dag' exec env' arrivals' k) := by
  induction k with
  | zero => exact ⟨rfl, rfl, fun _ => rfl⟩
  | succ k ih => exact ih.wave hr h hown env env' arrivals arrivals' k (hc k)

end WaveState

open WaveState

/-- The two runs end after the same number of waves, in states that agree. -/
theorem agree_finalState {dag dag' : WorkflowDag} (hr : Reorders dag dag') (h : dag.Valid)
    {exec : NodeExec} {own : String → NodeStatus}
    (hown : ∀ node env results, (exec.run node env results).status = own node.id)
    {env : Env} {arrivals : Arrivals} (arrivals' : Arrivals)
    (hc : SkipsCommute dag exec (mergeEnv env dag.env) arrivals) :
    Agree (finalState env exec arrivals dag) (finalState env exec arrivals' dag') := by
  obtain ⟨w, -, hw, hend, hne⟩ := waveLoop_ends h exec (mergeEnv env dag.env) arrivals
  obtain ⟨w', -, hw', hend', hne'⟩ :=
    waveLoop_ends (hr.valid h) exec (mergeEnv env dag'.env) arrivals'
  have hagree := agree_waveAt hr h hown (mergeEnv env dag'.env) arrivals' hc
  have hnil : ∀ j, spawnedAt dag' exec (mergeEnv env dag'.env) arrivals' j = [] ↔
      spawnedAt dag exec (mergeEnv env dag.env) arrivals j = [] := by
    intro j
    unfold spawnedAt
    simp only [List.eq_nil_iff_forall_not_mem, (hagree j).mem_ready hr h]
  obtain rfl : w = w' := by
    rcases Nat.lt_trichotomy w w' with hlt | heq | hlt
    · exact absurd ((hnil w).mpr hend) (hne' w hlt)
    · exact heq
    · exact absurd ((hnil w').mp hend') (hne w' hlt)
  rw [finalState, finalState, hw, hw']
  exact hagree w

/-- **Order of writing.** When skips commute along the run, a validated acyclic DAG without repeated
edges gives every node the same status in whatever order its nodes and edges are written. -/
theorem reordered_statuses (env : Env) (exec : NodeExec) (arrivals arrivals' : Arrivals)
    (own : String → NodeStatus) (dag dag' : WorkflowDag) (hreorders : Reorders dag dag')
    (hvalid : validateDag dag = .ok ()) (hacyclic : ¬ dag.HasCycle) (hedges : dag.edges.Nodup)
    (hown : ∀ node env results, (exec.run node env results).status = own node.id)
    (hcommute : SkipsCommute dag exec (mergeEnv env dag.env) arrivals) :
    ∃ rs rs', runInner env exec arrivals dag = .ok rs ∧
      runInner env exec arrivals' dag' = .ok rs' ∧
      (rs'.map NodeResult.nodeId).Perm (rs.map NodeResult.nodeId) ∧
      ∀ r ∈ rs, ∀ r' ∈ rs', r'.nodeId = r.nodeId → r'.status = r.status := by
  have h := (validateDag_ok_iff dag).mp hvalid
  have h' := hreorders.valid h
  obtain ⟨hrun, hperm⟩ := runInner_of_acyclic h hacyclic hedges env exec arrivals
  obtain ⟨hrun', hperm'⟩ := runInner_of_acyclic h' (hreorders.hasCycle_iff.not.mpr hacyclic)
    (hreorders.edges.nodup_iff.mpr hedges) env exec arrivals'
  refine ⟨_, _, hrun, hrun', ?_, fun r hr r' hr' heq => ?_⟩
  · exact (hperm'.trans (hreorders.nodes.map DagNode.id)).trans hperm.symm
  · obtain ⟨id, -, rfl⟩ := List.mem_map.mp hr
    obtain ⟨id', -, rfl⟩ := List.mem_map.mp hr'
    rw [collect_nodeId h, collect_nodeId h'] at heq
    subst heq
    exact (agree_finalState hreorders h hown arrivals' hcommute).collect_status id'

/-- The OneSuccess node `s` takes the first of `a` and `x`. In the first wave `a` succeeds, and so
does `y`, which `x` waits for: `x` is skipped. -/
def pickDag (edges : List DagEdge) : WorkflowDag where
  workflowId := "pick"
  nodes := [.command { id := "a", skill := "plan" }, .command { id := "y", skill := "fetch" },
    .command { id := "x", skill := "build" },
    .command { id := "s", skill := "test", triggerRule := .oneSuccess }]
  edges := edges

def pickEdges : List DagEdge := [⟨"a", "s"⟩, ⟨"y", "x"⟩, ⟨"x", "s"⟩]

theorem pickDag_acyclic : ¬ (pickDag pickEdges).HasCycle := by
  rw [WorkflowDag.hasCycle_iff_length ((validateDag_ok_iff _).mp (by decide))]
  decide

theorem reordered_statuses_pick :
    ∃ rs rs', runInner (fun _ => none) ⟨fun node _ _ => ⟨node.id, .success, ""⟩, fun _ _ _ => rfl⟩
        Arrivals.inOrder (pickDag pickEdges) = .ok rs ∧
      runInner (fun _ => none) ⟨fun node _ _ => ⟨node.id, .success, ""⟩, fun _ _ _ => rfl⟩
        Arrivals.inOrder (pickDag pickEdges.reverse) = .ok rs' ∧
      (rs'.map NodeResult.nodeId).Perm (rs.map NodeResult.nodeId) ∧
      ∀ r ∈ rs, ∀ r' ∈ rs', r'.nodeId = r.nodeId → r'.status = r.status :=
  reordered_statuses _ _ _ _ (fun _ => .success) (pickDag pickEdges) _
    ⟨List.Perm.refl _, List.reverse_perm _⟩ (by decide) pickDag_acyclic (by decide)
    (fun _ _ _ => rfl) (skipsCommute_of_separate _ _ _ _ (by decide))

/-- The other predecessor of `s` is skipped in both orders. -/
example : (runInner (fun _ => none)
    ⟨fun node _ _ => ⟨node.id, .success, ""⟩, fun _ _ _ => rfl⟩ Arrivals.inOrder
    (pickDag pickEdges.reverse)).map (·.map fun r => (r.nodeId, r.status)) =
      .ok [("a", .success), ("y", .success), ("x", .skipped), ("s", .success)] := rfl

/-- A OneSuccess node `s1` that precedes the OneSuccess node `s2`. In the first wave `a` succeeds,
and so does `y`, which `x` waits for. -/
def chainDag (edges : List DagEdge) : WorkflowDag where
  workflowId := "chain"
  nodes := [.command { id := "a", skill := "plan" }, .command { id := "y", skill := "fetch" },
    .command { id := "x", skill := "build" },
    .command { id := "s1", skill := "test", triggerRule := .oneSuccess },
    .command { id := "s2", skill := "report", triggerRule := .oneSuccess }]
  edges := edges

/-- The edge to `s1` is written first: `s1` marks `x`, then `s2` marks `s1`. -/
def chainEdges : List DagEdge :=
  [⟨"a", "s1"⟩, ⟨"a", "s2"⟩, ⟨"y", "x"⟩, ⟨"x", "s1"⟩, ⟨"s1", "s2"⟩]

/-- The edge to `s2` is written first: `s2` marks `s1`, which then marks nothing. -/
def chainEdges' : List DagEdge :=
  [⟨"a", "s2"⟩, ⟨"a", "s1"⟩, ⟨"y", "x"⟩, ⟨"x", "s1"⟩, ⟨"s1", "s2"⟩]

theorem chainDag_acyclic : ¬ (chainDag chainEdges).HasCycle := by
  rw [WorkflowDag.hasCycle_iff_length ((validateDag_ok_iff _).mp (by decide))]
  decide

/-- **Order of writing, failing.** Two edges swapped, and `x` is executed instead of skipped. -/
theorem reordered_statuses_differ :
    validateDag (chainDag chainEdges) = .ok () ∧ ¬ (chainDag chainEdges).HasCycle ∧
      chainEdges.Nodup ∧ Reorders (chainDag chainEdges) (chainDag chainEdges') ∧
      (runInner (fun _ => none) ⟨fun node _ _ => ⟨node.id, .success, ""⟩, fun _ _ _ => rfl⟩
          Arrivals.inOrder (chainDag chainEdges)).map (·.map fun r => (r.nodeId, r.status)) =
        .ok [("a", .success), ("y", .success), ("x", .skipped), ("s1", .skipped),
          ("s2", .success)] ∧
      (runInner (fun _ => none) ⟨fun node _ _ => ⟨node.id, .success, ""⟩, fun _ _ _ => rfl⟩
          Arrivals.inOrder (chainDag chainEdges')).map (·.map fun r => (r.nodeId, r.status)) =
        .ok [("a", .success), ("y", .success), ("x", .success), ("s1", .skipped),
          ("s2", .success)] :=
  ⟨by decide, chainDag_acyclic, by decide, ⟨List.Perm.refl _, by decide⟩, rfl, rfl⟩

end Hymenium
