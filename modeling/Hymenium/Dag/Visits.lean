import Hymenium.Dag.Skips
import Mathlib.Data.List.Sort

/-!
# The condition on skip marks is exact for the order of visits

`VisitsCommute` is enough for a walk to mark the same nodes in every order of its visits
(`mem_walk_skipped`). On an acyclic DAG it is also necessary: where it fails for an open node `o`,
one order marks `o` and another leaves it open.

The order that leaves `o` open visits the triggered nodes that `o` does not precede first, along the
topological order. No mark then comes before its visit, so each of them marks all its predecessors,
among them every triggered successor of `o`.
-/

namespace Hymenium

namespace WaveState

variable {dag : WorkflowDag} {d : WaveState}

/-! ## Visits along the topological order -/

/-- The position of a node in the topological order. -/
def rank (dag : WorkflowDag) (id : String) : ℕ := dag.topoSort.idxOf id

theorem rank_lt (h : dag.Valid) (hacyclic : ¬ dag.HasCycle) {p s : String}
    (hp : p ∈ dag.predecessors s) : rank dag p < rank dag s := by
  have hs : s ∈ dag.topoSort :=
    WorkflowDag.mem_topoSort_of_acyclic h hacyclic
      (h.closed _ (WorkflowDag.mem_predecessors.mp hp)).2
  obtain ⟨l₁, l₂, heq, hnot⟩ := List.eq_append_cons_of_mem hs
  have hmem : p ∈ l₁ := WorkflowDag.topoSort_sorted h heq p hp
  have hrank : rank dag s = l₁.length := by
    unfold rank
    rw [heq, List.idxOf_append_of_notMem hnot, List.idxOf_cons_self, Nat.add_zero]
  have hlt : rank dag p < l₁.length := by
    unfold rank
    rw [heq, List.idxOf_append_of_mem hmem]
    exact List.idxOf_lt_length_of_mem hmem
  omega

/-- Visits in the order of their ranks clear every open OneSuccess node they are about. -/
theorem cleared_of_ranked (h : dag.Valid) (hacyclic : ¬ dag.HasCycle)
    {visits : List (String × String)} (hvisits : ∀ v ∈ visits, v.1 ∈ d.completed)
    (hranked : visits.Pairwise fun v w => rank dag v.2 ≤ rank dag w.2) {st : WaveState}
    (hm : Marks d st) (hopen : ∀ v ∈ visits, d.Open v.2 → st.Open v.2) :
    ∀ v ∈ visits, dag.rule v.2 = some .oneSuccess → d.Open v.2 →
      Cleared dag d (walk dag visits st) v.2 := by
  induction visits generalizing st with
  | nil =>
    intro v hv
    cases hv
  | cons v visits ih =>
    obtain ⟨hle, hrest⟩ := List.pairwise_cons.mp hranked
    have hv : v.1 ∈ d.completed := hvisits v List.mem_cons_self
    have hm' := hm.trans (marks_skipOthers dag v.1 st v.2)
    have hopen' : ∀ w ∈ visits, d.Open w.2 → (st.skipOthers dag v.1 v.2).Open w.2 := by
      intro w hw ho
      have hst : v.1 ∈ st.completed := by rw [hm.completed]; exact hv
      refine ⟨by rw [hm'.completed]; exact ho.1, fun hs => ?_⟩
      rcases (mem_skipOthers dag hst v.2 w.2).mp hs with hs | ⟨-, hp, -⟩
      · exact (hopen w (List.mem_cons_of_mem _ hw) ho).2 hs
      · -- only predecessors of `v.2` are marked, and their rank is smaller
        have hlt := rank_lt h hacyclic hp
        have := hle w hw
        omega
    intro w hw hrule ho
    rcases List.mem_cons.mp hw with rfl | hw
    · exact (cleared_visit hm hv hrule (hopen w List.mem_cons_self ho)).mono
        (marks_walk dag visits _).skipped
    · exact ih (fun w hw => hvisits w (List.mem_cons_of_mem _ hw)) hrest hm' hopen' w hw hrule ho

/-! ## Two orders -/

/-- Visits of nodes that are no OneSuccess nodes, or not open, mark nothing. -/
theorem walk_eq_self {visits : List (String × String)} {st : WaveState}
    (h : ∀ v ∈ visits, ¬ (dag.rule v.2 = some .oneSuccess ∧ st.Open v.2)) :
    walk dag visits st = st := by
  induction visits with
  | nil => rfl
  | cons v visits ih =>
    have hv : st.skipOthers dag v.1 v.2 = st := by
      unfold skipOthers
      exact if_neg (h v List.mem_cons_self)
    show walk dag visits (st.skipOthers dag v.1 v.2) = st
    rw [hv]
    exact ih fun w hw => h w (List.mem_cons_of_mem _ hw)

/-- A visit that comes first marks the open predecessors of its node. -/
theorem exists_order_marked {visits : List (String × String)}
    (hvisits : ∀ v ∈ visits, v.1 ∈ d.completed) {o s : String} (ho : d.Open o)
    (ht : Triggered dag visits d s) (hp : o ∈ dag.predecessors s) :
    ∃ visits', visits'.Perm visits ∧ o ∈ (walk dag visits' d).skipped := by
  obtain ⟨hrule, hopen, u, hu⟩ := ht
  refine ⟨(u, s) :: visits.erase (u, s), (List.perm_cons_erase hu).symm, ?_⟩
  have hfirst : o ∈ (d.skipOthers dag u s).skipped :=
    cleared_visit (Marks.refl d) (hvisits _ hu) hrule hopen o hp ho
  exact (marks_walk dag (visits.erase (u, s)) (d.skipOthers dag u s)).skipped hfirst

/-- Where every triggered successor of `o` is marked by a triggered node that `o` does not precede,
an order of the visits leaves `o` open. -/
theorem exists_order_open (h : dag.Valid) (hacyclic : ¬ dag.HasCycle)
    {visits : List (String × String)} (hvisits : ∀ v ∈ visits, v.1 ∈ d.completed) {o : String}
    (ho : d.Open o)
    (hescape : ∀ s, Triggered dag visits d s → o ∈ dag.predecessors s →
      ∃ s', Triggered dag visits d s' ∧ s ∈ dag.predecessors s' ∧ o ∉ dag.predecessors s') :
    ∃ visits', visits'.Perm visits ∧ o ∉ (walk dag visits' d).skipped := by
  -- the visits of nodes that `o` does not precede, along the topological order
  let away := (visits.filter fun v => o ∉ dag.predecessors v.2).insertionSort
    fun v w => rank dag v.2 ≤ rank dag w.2
  -- the visits of nodes that `o` precedes
  let held := visits.filter fun v => !decide (o ∉ dag.predecessors v.2)
  have haway : ∀ v, v ∈ away ↔ v ∈ visits ∧ o ∉ dag.predecessors v.2 := by
    intro v
    simp [away]
  have hheld : ∀ v, v ∈ held ↔ v ∈ visits ∧ o ∈ dag.predecessors v.2 := by
    intro v
    simp [held]
  have hdone : ∀ v ∈ away, v.1 ∈ d.completed := fun v hv => hvisits v ((haway v).mp hv).1
  have hranked : away.Pairwise fun v w => rank dag v.2 ≤ rank dag w.2 :=
    List.pairwise_insertionSort _ _
  have hcleared := cleared_of_ranked h hacyclic hdone hranked (Marks.refl d) fun _ _ hopen => hopen
  have hmarks := marks_walk dag away d
  have hmarked : ∀ v ∈ held, ¬ (dag.rule v.2 = some .oneSuccess ∧ (walk dag away d).Open v.2) := by
    rintro v hv ⟨hrule, hopen⟩
    obtain ⟨hmem, hp⟩ := (hheld v).mp hv
    obtain ⟨s', ⟨hrule', hopen', u', hu'⟩, hp', hnot⟩ :=
      hescape v.2 ⟨hrule, hmarks.open_mono hopen, v.1, hmem⟩ hp
    have hcl := hcleared (u', s') ((haway _).mpr ⟨hu', hnot⟩) hrule' hopen'
    exact hopen.2 (hcl v.2 hp' (hmarks.open_mono hopen))
  refine ⟨away ++ held, ?_, ?_⟩
  · exact ((List.perm_insertionSort _ _).append_right _).trans (List.filter_append_perm _ _)
  · have hsplit : walk dag (away ++ held) d = walk dag held (walk dag away d) :=
      List.foldl_append
    rw [hsplit, walk_eq_self hmarked]
    intro hmem
    obtain ⟨hinv, -⟩ := (walkInv_refl dag (fun s => o ∉ dag.predecessors s) d).walk hdone
      fun v hv _ _ => ((haway v).mp hv).2
    obtain ⟨s, hs, hp, -⟩ := hinv.owed o hmem ho.2
    exact hs hp

/-- **Order of visits.** On an acyclic DAG every order of the visits marks the same nodes exactly
when the visits commute. -/
theorem visitsCommute_iff (h : dag.Valid) (hacyclic : ¬ dag.HasCycle)
    {visits : List (String × String)} (hvisits : ∀ v ∈ visits, v.1 ∈ d.completed) :
    VisitsCommute dag visits d ↔ ∀ visits', visits'.Perm visits →
      (walk dag visits' d).skipped = (walk dag visits d).skipped := by
  constructor
  · intro hc visits' hperm
    have htrig : ∀ s, Triggered dag visits' d s ↔ Triggered dag visits d s := by
      intro s
      unfold Triggered
      simp only [hperm.mem_iff]
    have hc' : VisitsCommute dag visits' d := by
      unfold VisitsCommute at hc ⊢
      simpa only [htrig] using hc
    apply Finset.ext
    intro id
    rw [mem_walk_skipped (fun v hv => hvisits v (hperm.mem_iff.mp hv)) hc',
      mem_walk_skipped hvisits hc]
    simp only [htrig]
  · intro hsame
    by_contra hc
    unfold VisitsCommute at hc
    push Not at hc
    obtain ⟨o, s, ho, ht, hp, hescape⟩ := hc
    obtain ⟨first, hfirst, hmarked⟩ := exists_order_marked hvisits ho ht hp
    obtain ⟨last, hlast, hopen⟩ := exists_order_open h hacyclic hvisits ho hescape
    rw [hsame first hfirst, ← hsame last hlast] at hmarked
    exact hopen hmarked

end WaveState

end Hymenium
