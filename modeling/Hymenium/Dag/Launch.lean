import Hymenium.Dag.Executor
import Hymenium.Foundations.Substitution
import Hymenium.Foundations.Text
import Mathlib.Data.List.MinMax
import Mathlib.Data.List.Sort

/-!
# What a node is started with

The environment and the command text of the nodes that the executor starts.

1. Environment: `Run::execute` (`src/commands/run.rs`) overrides the environment of the workflow by
   the pairs of the command line, and the executor overrides the outcome by the environment of the
   workflow. `env_passed_iff` says when the command line is kept.
2. Output references: `expand_variables` (`src/workflow/dag/executor.rs`) replaces the references
   `$id.output` of a command by the outputs of the nodes, one node after the other, longer ids first.
   An iteration over the map of results has an order of its own, which the code keeps among ids of
   the same length. `expandOnce` reads the text once; the two agree when every reference that is
   replaced is one of the text (`expandVariables_eq`).
-/

namespace Hymenium

open Text Substitution

/-! ## Environment -/

/-- The environment of the run command: that of the workflow, overridden by the pairs of the command
line. -/
def runEnv (dagEnv : Env) (pairs : List (String × String)) : Env :=
  pairs.foldl (fun env pair => Function.update env pair.1 (some pair.2)) dagEnv

/-- What a task of the executor is started with. -/
structure Launch where
  node : DagNode
  env : Env
  results : Results

namespace WaveState

variable (dag : WorkflowDag) (exec : NodeExec) (env : Env)

/-- The tasks of a wave. -/
def launches (st : WaveState) : List Launch :=
  ((st.ready dag).filterMap dag.nodeMap).map fun node => ⟨node, env, st.results⟩

theorem spawn_eq (st : WaveState) : st.spawn dag exec env =
    (st.launches dag env).map fun task => exec.run task.node task.env task.results := by
  rw [spawn, launches, List.map_map]
  rfl

/-- The tasks of the wave loop from wave `k` on. -/
def loopLaunches (arrivals : Arrivals) : ℕ → ℕ → WaveState → List Launch
  | 0, _, _ => []
  | fuel + 1, k, st =>
    if st.ready dag = [] then []
    else st.launches dag env ++
      loopLaunches arrivals fuel (k + 1) (st.wave dag exec env arrivals k)

end WaveState

/-- The tasks that the run command starts. -/
def runLaunches (pairs : List (String × String)) (exec : NodeExec) (arrivals : Arrivals)
    (dag : WorkflowDag) : List Launch :=
  if dag.sortEnd.queue ≠ [] ∨ dag.topoSort.length ≠ dag.nodes.length then []
  else
    WaveState.init.loopLaunches dag exec (mergeEnv (runEnv dag.env pairs) dag.env) arrivals
      (dag.nodes.length + 1) 0

/-- The last value that the command line gives a name. -/
def lastValue (pairs : List (String × String)) (name : String) : Option String :=
  pairs.reverse.lookup name

/-- The names of the command line have their last values, and the other names of the workflow the
values it gives them. -/
structure OverridesWin (pairs : List (String × String)) (dagEnv env : Env) : Prop where
  commandLine : ∀ name value, lastValue pairs name = some value → env name = some value
  workflow : ∀ name value, lastValue pairs name = none → dagEnv name = some value →
    env name = some value

theorem runEnv_apply (dagEnv : Env) (pairs : List (String × String)) (name : String) :
    runEnv dagEnv pairs name = (lastValue pairs name).or (dagEnv name) := by
  unfold runEnv lastValue
  induction pairs using List.reverseRecOn with
  | nil => rfl
  | append_singleton pairs pair ih =>
    rw [List.foldl_concat, List.reverse_concat, List.lookup_cons]
    by_cases hname : name = pair.1
    · rw [hname, Function.update_self, beq_self_eq_true]
      rfl
    · rw [Function.update_of_ne hname, ih, beq_eq_false_iff_ne.mpr hname]

theorem env_of_mem_loopLaunches {dag : WorkflowDag} {exec : NodeExec} {env : Env}
    {arrivals : Arrivals} {fuel k : ℕ} {st : WaveState} {task : Launch}
    (h : task ∈ st.loopLaunches dag exec env arrivals fuel k) : task.env = env := by
  induction fuel generalizing k st with
  | zero => cases h
  | succ fuel ih =>
    rw [WaveState.loopLaunches] at h
    split_ifs at h
    · cases h
    · rcases List.mem_append.mp h with h | h
      · obtain ⟨node, -, rfl⟩ := List.mem_map.mp h
        rfl
      · exact ih h

/-- The environment of the workflow comes first. -/
theorem env_of_mem_runLaunches {pairs : List (String × String)} {exec : NodeExec}
    {arrivals : Arrivals} {dag : WorkflowDag} {task : Launch}
    (h : task ∈ runLaunches pairs exec arrivals dag) (name : String) :
    task.env name = (dag.env name).or ((lastValue pairs name).or (dag.env name)) := by
  have henv : task.env = mergeEnv (runEnv dag.env pairs) dag.env := by
    rw [runLaunches] at h
    split_ifs at h
    · cases h
    · exact env_of_mem_loopLaunches h
  rw [henv, mergeEnv, runEnv_apply]

/-- **Environment.** A node is started with the overrides of the command line if and only if no name
has one value on the command line and another one in the workflow. -/
theorem env_passed_iff {pairs : List (String × String)} {exec : NodeExec} {arrivals : Arrivals}
    {dag : WorkflowDag} {task : Launch} (h : task ∈ runLaunches pairs exec arrivals dag) :
    OverridesWin pairs dag.env task.env ↔ ∀ name value override,
      dag.env name = some value → lastValue pairs name = some override → override = value := by
  have happly := env_of_mem_runLaunches h
  constructor
  · intro hwin name value override hvalue hoverride
    have hkept := hwin.commandLine name override hoverride
    rw [happly, hvalue] at hkept
    exact (Option.some.inj hkept).symm
  · intro hsame
    refine ⟨fun name override hoverride => ?_, fun name value _ hvalue => ?_⟩
    · rw [happly, hoverride]
      cases hvalue : dag.env name with
      | none => rfl
      | some value => exact congrArg some (hsame name value override hvalue hoverride).symm
    · rw [happly, hvalue]
      rfl

/-- A workflow of one bash node that sets one variable. -/
def variableDag : WorkflowDag where
  workflowId := "w"
  nodes := [.bash { id := "a", command := "env" }]
  edges := []
  env := Function.update (fun _ => none) "MODE" (some "slow")

/-- Every node succeeds without output. -/
def quietExec : NodeExec where
  run node _ _ := ⟨node.id, .success, ""⟩
  nodeId_run _ _ _ := rfl

/-- An override of another variable is passed on. -/
theorem env_passed_iff_other :
    ∃ task ∈ runLaunches [("LEVEL", "1"), ("LEVEL", "2")] quietExec .inOrder variableDag,
      OverridesWin [("LEVEL", "1"), ("LEVEL", "2")] variableDag.env task.env := by
  obtain ⟨task, htask⟩ : ∃ task, task ∈ runLaunches [("LEVEL", "1"), ("LEVEL", "2")] quietExec
    .inOrder variableDag := List.exists_mem_of_length_pos (by decide +kernel)
  refine ⟨task, htask, (env_passed_iff htask).mpr fun name value override hvalue hlast => ?_⟩
  by_cases hname : name = "LEVEL"
  · have hunset : variableDag.env "LEVEL" = none := by decide
    rw [hname, hunset] at hvalue
    cases hvalue
  · have hnone : lastValue [("LEVEL", "1"), ("LEVEL", "2")] name = none := by
      simp [lastValue, List.lookup_cons, beq_eq_false_iff_ne.mpr hname]
    rw [hnone] at hlast
    cases hlast

/-- The workflow hides an override of its own variable. -/
theorem override_lost : ¬ ∀ (pairs : List (String × String)) (exec : NodeExec)
    (arrivals : Arrivals) (dag : WorkflowDag), ∀ task ∈ runLaunches pairs exec arrivals dag,
    OverridesWin pairs dag.env task.env := by
  intro hclaim
  obtain ⟨task, htask⟩ : ∃ task, task ∈ runLaunches [("MODE", "fast")] quietExec
    .inOrder variableDag := List.exists_mem_of_length_pos (by decide +kernel)
  have hkept := (hclaim _ _ _ _ task htask).commandLine "MODE" "fast" (by decide)
  rw [env_of_mem_runLaunches htask] at hkept
  exact absurd hkept (by decide)

/-! ## Output references -/

/-- An iteration over the map of results. -/
structure Iteration where
  entries : List (String × NodeResult)
  nodup : (entries.map Prod.fst).Nodup

/-- The reference to the output of a node. -/
def outputReference (nodeId : String) : Text := '$' :: nodeId.toList ++ ".output".toList

/-- Expand `$node_id.output` references in a text, longest ids first. -/
def expandVariables (text : Text) (results : Iteration) : Text :=
  let vars := results.entries.insertionSort fun a b => byteLen b.1.toList ≤ byteLen a.1.toList
  vars.foldl (fun result v => replace (outputReference v.1) v.2.output.toList result) text

/-! ## Reading the text once -/

/-- The node with the longest id whose reference stands at the start of a text. -/
def longestMatch (results : Iteration) (text : Text) : Option (String × NodeResult) :=
  (results.entries.filter fun e => decide (outputReference e.1 <+: text)).argmax
    fun e => byteLen e.1.toList

/-- The text as letters and references. -/
def readReferences (text : Text) (results : Iteration) : List (Piece Char (String × NodeResult)) :=
  readFrom (longestMatch results) (fun e => outputReference e.1) text 0

/-- The text with the outputs of the nodes at its references. -/
def expandOnce (text : Text) (results : Iteration) : Text :=
  render (fun e => e.2.output.toList) (readReferences text results)

/-- Whenever a node is replaced, its reference occurs in the text so far only where the text refers
to the node, or the output of the node is its own reference. -/
def ReferencesSeparate (text : Text) (results : Iteration) : Prop :=
  Separate (fun e => outputReference e.1) (fun e => e.2.output.toList)
    (results.entries.insertionSort fun a b => byteLen b.1.toList ≤ byteLen a.1.toList)
    (readReferences text results)

theorem outputReference_ne_nil (nodeId : String) : outputReference nodeId ≠ [] :=
  List.cons_ne_nil _ _

theorem outputReference_injective {a b : String}
    (h : outputReference a = outputReference b) : a = b := by
  have htail := (List.cons.inj h).2
  exact String.toList_injective (List.append_cancel_right htail)

theorem byteLen_outputReference (nodeId : String) :
    byteLen (outputReference nodeId) = byteLen nodeId.toList + 8 := by
  have hdollar : byteLen ['$'] = 1 := by decide
  have houtput : byteLen ".output".toList = 7 := by decide
  have hcons : outputReference nodeId = ['$'] ++ (nodeId.toList ++ ".output".toList) := rfl
  rw [hcons, byteLen_append, byteLen_append, hdollar, houtput]
  omega

/-- References of the same length that stand at the start of a text are the same. -/
theorem eq_of_prefix {a b : String} {text : Text} (ha : outputReference a <+: text)
    (hb : outputReference b <+: text) (h : byteLen a.toList = byteLen b.toList) : a = b := by
  have hextend {a b : String} (hab : outputReference a <+: outputReference b)
      (h : byteLen a.toList = byteLen b.toList) : outputReference a = outputReference b := by
    obtain ⟨u, hu⟩ := hab
    have hlength := congrArg byteLen hu
    rw [byteLen_append, byteLen_outputReference, byteLen_outputReference] at hlength
    have hnil : u = [] := by
      cases u with
      | nil => rfl
      | cons c u =>
        have := c.utf8Size_pos
        rw [byteLen] at hlength
        omega
    rw [← hu, hnil, List.append_nil]
  rcases List.prefix_or_prefix_of_prefix ha hb with hab | hba
  · exact outputReference_injective (hextend hab h)
  · exact (outputReference_injective (hextend hba h.symm)).symm

theorem longestMatch_eq_some_iff {results : Iteration} {text : Text} {e : String × NodeResult} :
    longestMatch results text = some e ↔
      (e ∈ results.entries ∧ outputReference e.1 <+: text) ∧ ∀ e' ∈ results.entries,
        outputReference e'.1 <+: text → byteLen e'.1.toList ≤ byteLen e.1.toList := by
  have hmax {m : String × NodeResult} (hm : longestMatch results text = some m) :
      (m ∈ results.entries ∧ outputReference m.1 <+: text) ∧ ∀ e' ∈ results.entries,
        outputReference e'.1 <+: text → byteLen e'.1.toList ≤ byteLen m.1.toList := by
    have hmem := List.mem_filter.mp (List.argmax_mem hm)
    refine ⟨⟨hmem.1, of_decide_eq_true hmem.2⟩, fun e' he' hstart => ?_⟩
    have hin : e' ∈ results.entries.filter fun e => decide (outputReference e.1 <+: text) :=
      List.mem_filter.mpr ⟨he', decide_eq_true hstart⟩
    have hle : ¬ byteLen m.1.toList < byteLen e'.1.toList :=
      List.not_lt_of_mem_argmax (f := fun e => byteLen e.1.toList) hin hm
    exact not_lt.mp hle
  refine ⟨hmax, fun ⟨⟨hmem, hstart⟩, hlongest⟩ => ?_⟩
  cases hm : longestMatch results text with
  | none =>
    have hnil := List.argmax_eq_none.mp hm
    have hin : e ∈ results.entries.filter fun e => decide (outputReference e.1 <+: text) :=
      List.mem_filter.mpr ⟨hmem, decide_eq_true hstart⟩
    rw [hnil] at hin
    cases hin
  | some m =>
    obtain ⟨⟨hmem', hstart'⟩, hlongest'⟩ := hmax hm
    have hid : m.1 = e.1 := eq_of_prefix hstart' hstart
      (Nat.le_antisymm (hlongest m hmem' hstart') (hlongest' e hmem hstart))
    exact congrArg some (List.inj_on_of_nodup_map results.nodup hmem' hmem hid)

/-- The text is read the same way in every iteration. -/
theorem expandOnce_perm {results results' : Iteration}
    (h : results.entries.Perm results'.entries) (text : Text) :
    expandOnce text results' = expandOnce text results := by
  have hmatch : longestMatch results' = longestMatch results := by
    funext t
    refine Option.ext fun e => ?_
    rw [longestMatch_eq_some_iff, longestMatch_eq_some_iff, h.mem_iff]
    simp only [h.mem_iff]
  rw [expandOnce, expandOnce, readReferences, readReferences, hmatch]

theorem expandVariables_eq_replaceAll (text : Text) (results : Iteration) :
    expandVariables text results =
      replaceAll (fun e => outputReference e.1) (fun e => e.2.output.toList)
        (results.entries.insertionSort fun a b => byteLen b.1.toList ≤ byteLen a.1.toList) text :=
  rfl

/-- **Output references.** Where references are separate, they are expanded at once, whatever the
order of the iteration. -/
theorem expandVariables_eq {results results' : Iteration} {text : Text}
    (horder : results.entries.Perm results'.entries) (h : ReferencesSeparate text results') :
    expandVariables text results' = expandOnce text results := by
  have hperm := List.perm_insertionSort
    (fun a b : String × NodeResult => byteLen b.1.toList ≤ byteLen a.1.toList) results'.entries
  have hprefix (t : Text) (e : String × NodeResult) (he : longestMatch results' t = some e) :
      outputReference e.1 <+: t := (longestMatch_eq_some_iff.mp he).1.2
  have hpat (e : String × NodeResult) : outputReference e.1 ≠ [] := outputReference_ne_nil e.1
  have hread := render_readFrom hprefix hpat text 0
  have hall := replaceAll_render hpat (hperm.nodup_iff.mpr (results'.nodup.of_map _)) h
  rw [readReferences, hread, List.drop_zero] at hall
  rw [expandVariables_eq_replaceAll, hall, ← expandOnce_perm horder]
  refine render_congr fun e he => if_pos ?_
  obtain ⟨t, ht⟩ := ref_mem_readFrom he
  exact hperm.mem_iff.mpr (longestMatch_eq_some_iff.mp ht).1.1

/-! ## Plain references -/

/-- No id holds a dollar sign, no reference starts another one, and the expanded text has no dollar
sign left. -/
structure PlainReferences (text : Text) (results : Iteration) : Prop where
  ids : ∀ e ∈ results.entries, '$' ∉ e.1.toList
  apart : ∀ e ∈ results.entries, ∀ e' ∈ results.entries,
    outputReference e.1 <+: outputReference e'.1 → e = e'
  expanded : '$' ∉ expandOnce text results

theorem eq_nil_of_dollar {nodeId : String} (h : '$' ∉ nodeId.toList) {x y : Text}
    (hxy : outputReference nodeId = x ++ '$' :: y) : x = [] := by
  cases x with
  | nil => rfl
  | cons c x =>
    obtain ⟨-, htail⟩ := List.cons.inj hxy
    have hmem : '$' ∈ nodeId.toList ++ ".output".toList := by
      rw [show nodeId.toList ++ ".output".toList = x ++ '$' :: y from htail]
      simp
    rcases List.mem_append.mp hmem with hmem | hmem
    · exact absurd hmem h
    · exact absurd hmem (by decide)

/-- Plain references are separate. -/
theorem PlainReferences.separate {text : Text} {results : Iteration}
    (h : PlainReferences text results) : ReferencesSeparate text results := by
  intro done k rest hkeys
  right
  rintro ⟨before, p, after, x, y, hps, hne, htext, hy, hocc⟩
  have hperm := List.perm_insertionSort
    (fun a b : String × NodeResult => byteLen b.1.toList ≤ byteLen a.1.toList) results.entries
  have hnodup := hperm.nodup_iff.mpr (results.nodup.of_map _)
  rw [hkeys] at hperm hnodup
  have hk : k ∈ results.entries := hperm.mem_iff.mp (by simp)
  have hkdone : k ∉ done := fun hmem =>
    (List.nodup_append.mp hnodup).2.2 k hmem k List.mem_cons_self rfl
  have hp : p ∈ readReferences text results := by
    rw [hps]
    simp
  have hdollar : '$' ∉ p.text fun e => e.2.output.toList := fun hc =>
    h.expanded (List.mem_flatMap.mpr ⟨p, hp, hc⟩)
  -- an occurrence starts with a dollar sign
  obtain ⟨c, y, rfl⟩ := List.exists_cons_of_ne_nil hy
  rw [partly, if_neg hkdone] at hocc
  obtain rfl : '$' = c := (List.cons_prefix_cons.mp hocc).1
  cases p with
  | letter a =>
    refine hdollar ?_
    rw [show (Piece.letter a).text (fun e : String × NodeResult => e.2.output.toList) =
      x ++ '$' :: y from htext]
    simp
  | ref e =>
    obtain ⟨t, ht⟩ := ref_mem_readFrom hp
    have he := (longestMatch_eq_some_iff.mp ht).1.1
    rw [Piece.text, partly] at htext
    by_cases hdone : e ∈ done
    · rw [if_pos hdone] at htext
      refine hdollar ?_
      rw [Piece.text, htext]
      simp
    · rw [if_neg hdone] at htext
      rw [eq_nil_of_dollar (h.ids e he) htext, List.nil_append] at htext
      rw [← htext] at hocc
      rcases List.prefix_or_prefix_of_prefix hocc (List.prefix_append _ _) with hke | hek
      · exact hne (congrArg Piece.ref (h.apart k hk e he hke).symm)
      · exact hne (congrArg Piece.ref (h.apart e he k hk hek))

/-- Two results, in either order. -/
def outputsOf (a b : String × String) (h : a.1 ≠ b.1) : Iteration where
  entries := [(a.1, ⟨a.1, .success, a.2⟩), (b.1, ⟨b.1, .success, b.2⟩)]
  nodup := by simpa using h

/-- Plain outputs are expanded at once. -/
theorem expandVariables_eq_plain :
    expandVariables "$build.output $b.output".toList
        (outputsOf ("b", "1") ("build", "ok") (by decide)) = "ok 1".toList := by
  have hplain : PlainReferences "$build.output $b.output".toList
      (outputsOf ("b", "1") ("build", "ok") (by decide)) :=
    ⟨by decide +kernel, by decide +kernel, by decide +kernel⟩
  have hperm : (outputsOf ("build", "ok") ("b", "1") (by decide)).entries.Perm
      (outputsOf ("b", "1") ("build", "ok") (by decide)).entries := List.Perm.swap _ _ _
  rw [expandVariables_eq hperm hplain.separate]
  decide +kernel

/-- An output that holds a reference is expanded again, in one order of the iteration. -/
theorem output_expanded_again : ¬ ∀ (text : Text) (results results' : Iteration),
    results.entries.Perm results'.entries →
    expandVariables text results' = expandOnce text results := by
  intro hclaim
  have heq := hclaim "$a.output".toList (outputsOf ("a", "$b.output") ("b", "x") (by decide))
    (outputsOf ("a", "$b.output") ("b", "x") (by decide)) (List.Perm.refl _)
  exact absurd heq (by decide +kernel)

end Hymenium
