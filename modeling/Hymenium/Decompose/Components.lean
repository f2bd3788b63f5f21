import Hymenium.Decompose.Order
import Hymenium.Foundations.Classes

/-!
# Merged groups are connected components

`merge_dependency_groups` reads a hash set and a hash map in an order of their own, and the roots of
its union-find depend on that order. Its result does not: with different step numbers the groups are
the classes of the steps that depend on each other (`Connected`), sorted, and there is only one such
list of groups.
-/

namespace Hymenium

open Relation

variable (U : Unicode)

/-- Parent pointers as they are filled from the hash set, in the order of `nodes`. -/
def selfParents (nodes : List UInt32) : UnionFind.Parents UInt32 :=
  nodes.foldl (fun parent n => Function.update parent n (some n)) fun _ => none

/-- Merging, where `nodes` is the order of the hash set. -/
def mergeInOrder (nodes : List UInt32) (order : HashOrder) (steps : List ParsedStep) :
    Option (List (List ParsedStep)) :=
  if steps = [] then some []
  else do
    let numbers := (steps.map (·.number)).dedup
    let deps := buildStepDeps U steps
    let parent := selfParents nodes
    let fuel := numbers.length
    let parent ← UnionFind.unionAll fuel (dependencyEdges numbers (order.arrange deps)) parent
    let groups ← groupByRoot fuel steps parent []
    let result := groups.map fun g => g.2.insertionSort fun s t => s.number.toNat ≤ t.number.toNat
    return result.insertionSort fun g h => firstNumber g ≤ firstNumber h

theorem selfParents_eq (nodes : List UInt32) :
    selfParents nodes = fun n => if n ∈ nodes then some n else none := by
  unfold selfParents
  suffices h : ∀ (nodes : List UInt32) (parent : UnionFind.Parents UInt32),
      nodes.foldl (fun parent n => Function.update parent n (some n)) parent =
        fun n => if n ∈ nodes then some n else parent n from h nodes _
  intro nodes
  induction nodes with
  | nil =>
    intro parent
    funext n
    rw [List.foldl_nil, if_neg List.not_mem_nil]
  | cons m nodes ih =>
    intro parent
    funext n
    rw [List.foldl_cons, ih]
    by_cases hn : n = m
    · subst hn
      simp
    · simp [hn]

/-- The order of the hash set does not matter. -/
theorem mergeInOrder_eq {nodes : List UInt32} {steps : List ParsedStep}
    (hnodes : nodes.Perm (steps.map (·.number)).dedup) (order : HashOrder) :
    mergeInOrder U nodes order steps = mergeDependencyGroups U order steps := by
  have hparents : selfParents nodes =
      fun n => if n ∈ (steps.map (·.number)).dedup then some n else none := by
    rw [selfParents_eq]
    funext n
    simp only [hnodes.mem_iff]
  unfold mergeInOrder mergeDependencyGroups
  rw [hparents]

/-! ## Components -/

/-- Two steps of a list are connected by dependencies on steps of the list. -/
def Connected (steps : List ParsedStep) : ParsedStep → ParsedStep → Prop :=
  EqvGen fun a b => a ∈ steps ∧ b ∈ steps ∧ DependsOn U a b

section Components

variable {steps : List ParsedStep} {order : HashOrder} {rep : UInt32 → UInt32}

/-- With different numbers a number belongs to one step. -/
theorem eq_of_number_eq (hnum : (steps.map (·.number)).Nodup) {a b : ParsedStep} (ha : a ∈ steps)
    (hb : b ∈ steps) (h : a.number = b.number) : a = b :=
  List.inj_on_of_nodup_map hnum ha hb h

/-- Numbers that the united pairs join are those of connected steps. -/
theorem connected_of_joined (hnum : (steps.map (·.number)).Nodup) {x y : UInt32}
    (h : UnionFind.Joined id
      (dependencyEdges (steps.map (·.number)).dedup (order.arrange (buildStepDeps U steps))) x y) :
    x = y ∨ ∃ a ∈ steps, ∃ b ∈ steps, a.number = x ∧ b.number = y ∧ Connected U steps a b := by
  induction h with
  | rel x y h =>
    rcases h with h | h
    · exact .inl h
    · obtain ⟨⟨a, ha, hx, hdep⟩, hy⟩ := mem_dependencyEdges U h
      obtain ⟨b, hb, rfl⟩ := mem_numbers.mp hy
      exact .inr ⟨a, ha, b, hb, hx.symm, rfl, .rel _ _ ⟨ha, hb, hdep⟩⟩
  | refl x => exact .inl rfl
  | symm x y _ ih =>
    rcases ih with rfl | ⟨a, ha, b, hb, hx, hy, hab⟩
    · exact .inl rfl
    · exact .inr ⟨b, hb, a, ha, hy, hx, .symm _ _ hab⟩
  | trans x y z _ _ ih₁ ih₂ =>
    rcases ih₁ with rfl | ⟨a, ha, b, hb, hx, hy, hab⟩
    · exact ih₂
    · rcases ih₂ with rfl | ⟨b', hb', c, hc, hy', hz, hbc⟩
      · exact .inr ⟨a, ha, b, hb, hx, hy, hab⟩
      · obtain rfl := eq_of_number_eq hnum hb hb' (hy.trans hy'.symm)
        exact .inr ⟨a, ha, c, hc, hx, hz, .trans _ _ _ hab hbc⟩

/-- Steps have the same root exactly when they are connected. -/
theorem rep_eq_iff_connected (hnum : (steps.map (·.number)).Nodup)
    (hrep : ∀ x y, rep x = rep y ↔ UnionFind.Joined id
      (dependencyEdges (steps.map (·.number)).dedup (order.arrange (buildStepDeps U steps))) x y)
    {a b : ParsedStep} (ha : a ∈ steps) (hb : b ∈ steps) :
    rep a.number = rep b.number ↔ Connected U steps a b := by
  constructor
  · intro h
    rcases connected_of_joined U hnum ((hrep _ _).mp h) with h | ⟨a', ha', b', hb', hx, hy, hab⟩
    · rw [eq_of_number_eq hnum ha hb h]
      exact .refl b
    · rw [eq_of_number_eq hnum ha ha' hx.symm, eq_of_number_eq hnum hb hb' hy.symm]
      exact hab
  · intro h
    clear ha hb
    induction h with
    | rel a b h => exact rep_eq_of_dependsOn U hnum hrep h.1 h.2.1 h.2.2
    | refl a => rfl
    | symm a b _ ih => exact ih.symm
    | trans a b c _ _ ih₁ ih₂ => exact ih₁.trans ih₂

/-- A merged group is a sorted part of the steps with one root. -/
theorem mem_mergedGroups {g : List ParsedStep} (hg : g ∈ mergedGroups rep steps) : g ≠ [] ∧
    ∃ k : ℕ, g.Perm (steps.filter fun s => decide ((rep s.number).toNat = k)) ∧
      g.Pairwise fun s t => s.number.toNat ≤ t.number.toNat := by
  have hgrouping := Grouped.isGrouping_group (fun s : ParsedStep => (rep s.number).toNat) steps
  unfold mergedGroups at hg
  rw [List.mem_insertionSort] at hg
  obtain ⟨e, he, rfl⟩ := List.mem_map.mp hg
  have hperm := List.perm_insertionSort (fun s t : ParsedStep => s.number.toNat ≤ t.number.toNat) e.2
  refine ⟨fun hnil => ?_, e.1, ?_, ?_⟩
  · rw [hnil] at hperm
    exact Grouped.ne_nil_of_mem_group _ steps e he hperm.nil_eq.symm
  · rw [← hgrouping.part e he]
    exact hperm
  · exact List.pairwise_insertionSort _ _

/-- A merged group holds the steps with the root of any of its members. -/
theorem mem_mergedGroup_iff {g : List ParsedStep} (hg : g ∈ mergedGroups rep steps)
    {a : ParsedStep} (ha : a ∈ g) (b : ParsedStep) :
    b ∈ g ↔ b ∈ steps ∧ rep a.number = rep b.number := by
  obtain ⟨-, k, hperm, -⟩ := mem_mergedGroups hg
  have hroot : (rep a.number).toNat = k := by
    have hfilter := hperm.mem_iff.mp ha
    rw [List.mem_filter, decide_eq_true_eq] at hfilter
    exact hfilter.2
  rw [hperm.mem_iff, List.mem_filter, decide_eq_true_eq, ← hroot, UInt32.toNat_inj, eq_comm]

/-- The merged groups are in the order of their first numbers, which differ. -/
theorem mergedGroups_ordered (rep : UInt32 → UInt32) (steps : List ParsedStep) :
    (mergedGroups rep steps).Pairwise (Classes.HeadBefore fun s : ParsedStep => s.number.toNat) := by
  have hfirst : (mergedGroups rep steps).Pairwise fun g h => firstNumber g ≤ firstNumber h := by
    unfold mergedGroups
    exact List.pairwise_insertionSort _ _
  refine (hfirst.and (pairwise_mergedGroups rep steps)).imp_of_mem fun {g h} hg hh hgh => ?_
  obtain ⟨a, g, rfl⟩ := List.exists_cons_of_ne_nil (mem_mergedGroups hg).1
  obtain ⟨b, h, rfl⟩ := List.exists_cons_of_ne_nil (mem_mergedGroups hh).1
  refine ⟨a, rfl, b, rfl, lt_of_le_of_ne hgh.1 fun heq => ?_⟩
  exact hgh.2 a List.mem_cons_self b List.mem_cons_self (congrArg rep (UInt32.toNat_inj.mp heq))

/-- The merged groups are the components of the steps. -/
theorem sortedClasses_mergedGroups (hnum : (steps.map (·.number)).Nodup)
    (hrep : ∀ x y, rep x = rep y ↔ UnionFind.Joined id
      (dependencyEdges (steps.map (·.number)).dedup (order.arrange (buildStepDeps U steps))) x y) :
    Classes.SortedClasses (Connected U steps) (fun s => s.number.toNat) steps
      (mergedGroups rep steps) where
  flatten := flatten_mergedGroups rep steps
  ne_nil g hg := (mem_mergedGroups hg).1
  mem_iff g hg a ha b := by
    rw [mem_mergedGroup_iff hg ha]
    have hmem := ((mem_mergedGroup_iff hg ha a).mp ha).1
    exact and_congr_right fun hb => rep_eq_iff_connected U hnum hrep hmem hb
  sorted g hg := by
    obtain ⟨-, k, hperm, hsorted⟩ := mem_mergedGroups hg
    have hnodup : (g.map (·.number)).Nodup :=
      ((hperm.map _).nodup_iff).mpr (hnum.sublist (List.filter_sublist.map _))
    refine (hsorted.and (List.pairwise_map.mp hnodup)).imp fun h => ?_
    exact lt_of_le_of_ne h.1 fun heq => h.2 (UInt32.toNat_inj.mp heq)
  ordered := mergedGroups_ordered rep steps

end Components

/-- **Dependency merging.** For steps with different numbers there is one list of groups that
`mergeDependencyGroups` returns, in every order of its hash map, and in every order in which the hash
set fills its parents: the connected components of the steps, sorted by number. -/
theorem mergeDependencyGroups_components (steps : List ParsedStep)
    (hnum : (steps.map (·.number)).Nodup) : ∃ groups,
      Classes.SortedClasses (Connected U steps) (fun s => s.number.toNat) steps groups ∧
      (∀ order : HashOrder, mergeDependencyGroups U order steps = some groups) ∧
      ∀ (order : HashOrder) (nodes : List UInt32), nodes.Perm (steps.map (·.number)).dedup →
        mergeInOrder U nodes order steps = some groups := by
  obtain ⟨rep, -, hrep⟩ := mergeDependencyGroups_eq U .inOrder steps
  have hclasses := sortedClasses_mergedGroups U hnum hrep
  have hmerged : ∀ order : HashOrder,
      mergeDependencyGroups U order steps = some (mergedGroups rep steps) := by
    intro order
    obtain ⟨rep', hmerge, hrep'⟩ := mergeDependencyGroups_eq U order steps
    rw [hmerge]
    exact congrArg some ((sortedClasses_mergedGroups U hnum hrep').unique hclasses)
  exact ⟨_, hclasses, hmerged, fun order nodes hnodes =>
    (mergeInOrder_eq U hnodes order).trans (hmerged order)⟩

/-- Three steps in two components. -/
def chainedSteps : List ParsedStep := [
  { number := 3, title := "c".toList },
  { number := 2, title := "b".toList, dependsOn := ["Step 1".toList] },
  { number := 1, title := "a".toList }]

theorem mergeDependencyGroups_components_chained : ∃ groups,
    Classes.SortedClasses (Connected .asciiTables chainedSteps) (fun s => s.number.toNat)
      chainedSteps groups ∧
    mergeDependencyGroups .asciiTables .inOrder chainedSteps = some groups ∧
    mergeInOrder .asciiTables [1, 3, 2] .inOrder chainedSteps = some groups ∧
    groups.map (·.map (·.number)) = [[1, 2], [3]] := by
  obtain ⟨groups, hclasses, hmerge, hmerges⟩ :=
    mergeDependencyGroups_components .asciiTables chainedSteps (by decide)
  have hrun := hmerges .inOrder [1, 3, 2] (by decide)
  have hnumbers : (mergeInOrder .asciiTables [1, 3, 2] .inOrder chainedSteps).map
      (fun groups => groups.map (·.map (·.number))) = some [[1, 2], [3]] := by decide +kernel
  rw [hrun] at hnumbers
  exact ⟨groups, hclasses, hmerge .inOrder, hrun, Option.some.inj hnumbers⟩

end Hymenium
