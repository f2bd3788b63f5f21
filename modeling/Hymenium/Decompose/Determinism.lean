import Hymenium.Decompose.Components

/-!
# Decomposition is deterministic

`merge_dependency_groups` iterates a hash map, whose order changes from run to run. The classes it
unites do not depend on that order (`joined_order`), and the merged groups depend on the classes
only, also when step numbers repeat (`mergedGroups_congr`). So two runs of `decompose` on the same
handoff cut the same pieces.
-/

namespace Hymenium

open Text

variable (U : Unicode)

/-! ## Merged groups -/

section MergedGroups

variable {rep rep' : UInt32 → UInt32} {steps : List ParsedStep}

/-- The steps of one class, sorted by number. -/
def sortedClass (rep : UInt32 → UInt32) (steps : List ParsedStep) (a : ParsedStep) :
    List ParsedStep :=
  (steps.filter fun s => decide (rep s.number = rep a.number)).insertionSort fun s t =>
    s.number.toNat ≤ t.number.toNat

theorem mem_mergedGroups_iff {g : List ParsedStep} :
    g ∈ mergedGroups rep steps ↔ ∃ a ∈ steps, g = sortedClass rep steps a := by
  have hgrouping := Grouped.isGrouping_group (fun s : ParsedStep => (rep s.number).toNat) steps
  have hpart {e : ℕ × List ParsedStep} {a : ParsedStep}
      (he : e ∈ Grouped.group (fun s : ParsedStep => (rep s.number).toNat) steps)
      (hkey : (rep a.number).toNat = e.1) :
      (e.2.insertionSort fun s t => s.number.toNat ≤ t.number.toNat) = sortedClass rep steps a := by
    rw [hgrouping.part e he, ← hkey]
    simp only [UInt32.toNat_inj, sortedClass]
  unfold mergedGroups
  rw [List.mem_insertionSort, List.mem_map]
  constructor
  · rintro ⟨e, he, rfl⟩
    obtain ⟨a, ha⟩ := List.exists_mem_of_ne_nil _ (Grouped.ne_nil_of_mem_group _ steps e he)
    rw [hgrouping.part e he, List.mem_filter, decide_eq_true_eq] at ha
    exact ⟨a, ha.1, hpart he ha.2⟩
  · rintro ⟨a, ha, rfl⟩
    obtain ⟨e, he, hkey⟩ := List.mem_map.mp (hgrouping.complete a ha)
    exact ⟨e, he, hpart he hkey.symm⟩

/-- The merged groups depend on the classes, not on their representatives. -/
theorem mergedGroups_congr (h : ∀ x y, rep x = rep y ↔ rep' x = rep' y) :
    mergedGroups rep steps = mergedGroups rep' steps := by
  have hclass (a : ParsedStep) : sortedClass rep steps a = sortedClass rep' steps a := by
    simp only [sortedClass, h]
  refine Classes.eq_of_strict (fun _ _ hgh => hgh.asymm) (mergedGroups_ordered rep steps)
    (mergedGroups_ordered rep' steps) fun g => ?_
  simp only [mem_mergedGroups_iff, hclass]

end MergedGroups

/-! ## The order of the hash map -/

/-- The united pairs are the same in every order. -/
theorem mem_dependencyEdges_order {numbers : List UInt32} {deps : List (UInt32 × List UInt32)}
    (order order' : HashOrder) (e : UInt32 × UInt32) :
    e ∈ dependencyEdges numbers (order.arrange deps) ↔
      e ∈ dependencyEdges numbers (order'.arrange deps) := by
  have hperm := (order.perm deps).trans (order'.perm deps).symm
  exact (hperm.flatMap_right _).mem_iff

theorem joined_order {numbers : List UInt32} {deps : List (UInt32 × List UInt32)}
    (order order' : HashOrder) (x y : UInt32) :
    UnionFind.Joined id (dependencyEdges numbers (order.arrange deps)) x y ↔
      UnionFind.Joined id (dependencyEdges numbers (order'.arrange deps)) x y := by
  simp only [UnionFind.Joined, mem_dependencyEdges_order order order']

theorem mergeDependencyGroups_order (order order' : HashOrder) (steps : List ParsedStep) :
    mergeDependencyGroups U order steps = mergeDependencyGroups U order' steps := by
  obtain ⟨rep, hmerge, hrep⟩ := mergeDependencyGroups_eq U order steps
  obtain ⟨rep', hmerge', hrep'⟩ := mergeDependencyGroups_eq U order' steps
  rw [hmerge, hmerge', mergedGroups_congr fun x y => ?_]
  rw [hrep, hrep', joined_order]

theorem projects_order (config : DecompositionConfig) (parentSlug : Text)
    (orders orders' : ℕ → HashOrder) (groups : List (List ParsedStep × ℕ)) (cut : Cut) :
    Cut.projects U config parentSlug orders groups cut =
      Cut.projects U config parentSlug orders' groups cut := by
  induction groups generalizing cut with
  | nil => rfl
  | cons g rest ih =>
    obtain ⟨steps, k⟩ := g
    have hchunks : atomicChunks U config (orders k) steps =
        atomicChunks U config (orders' k) steps := by
      unfold atomicChunks
      rw [mergeDependencyGroups_order U (orders k) (orders' k)]
    simp only [Cut.projects, Cut.project, hchunks, ih]

/-- Decomposition goes as if hash maps were iterated in the order of their entries. -/
theorem decompose_inOrder (config : DecompositionConfig) (orders : ℕ → HashOrder)
    (handoff : ParsedHandoff) :
    decompose U config orders handoff = decompose U config (fun _ => .inOrder) handoff := by
  unfold decompose
  simp only [projects_order U config _ orders fun _ => .inOrder]

/-- **Determinism.** The pieces, the graph and the warnings of a decomposition do not depend on the
order in which hash maps are iterated, also when step numbers repeat. -/
theorem decompose_deterministic (config : DecompositionConfig) (orders orders' : ℕ → HashOrder)
    (handoff : ParsedHandoff) :
    decompose U config orders handoff = decompose U config orders' handoff := by
  rw [decompose_inOrder U config orders, decompose_inOrder U config orders']

end Hymenium
