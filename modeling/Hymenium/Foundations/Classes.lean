import Mathlib.Data.List.Sort

/-!
# Classes as sorted lists

A list can be divided into the classes of a relation in one way only, when each class is sorted by a
key and the classes are sorted by their first keys (`SortedClasses.unique`).
-/

namespace Classes

variable {α : Type*}

/-- Two lists in strict order that have the same elements are the same. -/
theorem eq_of_strict {r : α → α → Prop} (hasymm : ∀ a b, r a b → ¬ r b a) {l l' : List α}
    (h : l.Pairwise r) (h' : l'.Pairwise r) (hmem : ∀ a, a ∈ l ↔ a ∈ l') : l = l' := by
  have hne {a b : α} (hab : r a b) : a ≠ b := by
    rintro rfl
    exact hasymm a a hab hab
  have hperm : l.Perm l' := (List.perm_ext_iff_of_nodup (h.imp hne) (h'.imp hne)).mpr hmem
  exact hperm.eq_of_pairwise (fun a b _ _ hab hba => absurd hba (hasymm a b hab)) h h'

/-- The first key of `g` is below the first key of `h`. -/
def HeadBefore (key : α → ℕ) (g h : List α) : Prop :=
  ∃ a ∈ g.head?, ∃ b ∈ h.head?, key a < key b

theorem HeadBefore.asymm {key : α → ℕ} {g h : List α} (hgh : HeadBefore key g h) :
    ¬ HeadBefore key h g := by
  rintro ⟨b', hb', a', ha', hba⟩
  obtain ⟨a, ha, b, hb, hab⟩ := hgh
  cases Option.mem_unique ha ha'
  cases Option.mem_unique hb hb'
  omega

/-- `groups` are the classes of `R` on the elements of a list, each sorted by `key`, in the order of
their first keys. -/
structure SortedClasses (R : α → α → Prop) (key : α → ℕ) (elems : List α) (groups : List (List α)) :
    Prop where
  flatten : groups.flatten.Perm elems
  ne_nil : ∀ g ∈ groups, g ≠ []
  mem_iff : ∀ g ∈ groups, ∀ a ∈ g, ∀ b, b ∈ g ↔ b ∈ elems ∧ R a b
  sorted : ∀ g ∈ groups, g.Pairwise fun a b => key a < key b
  ordered : groups.Pairwise (HeadBefore key)

namespace SortedClasses

variable {R : α → α → Prop} {key : α → ℕ} {elems : List α} {groups groups' : List (List α)}

/-- A class of one division is a class of the other. -/
theorem mem_of_mem (h : SortedClasses R key elems groups) (h' : SortedClasses R key elems groups')
    {g : List α} (hg : g ∈ groups) : g ∈ groups' := by
  obtain ⟨a, ha⟩ := List.exists_mem_of_ne_nil g (h.ne_nil g hg)
  have ha' : a ∈ groups'.flatten :=
    h'.flatten.mem_iff.mpr (h.flatten.mem_iff.mp (List.mem_flatten.mpr ⟨g, hg, ha⟩))
  obtain ⟨g', hg', hag'⟩ := List.mem_flatten.mp ha'
  have heq : g = g' := by
    refine eq_of_strict (fun x y hxy hyx => lt_asymm hxy hyx) (h.sorted g hg) (h'.sorted g' hg')
      fun b => ?_
    rw [h.mem_iff g hg a ha, h'.mem_iff g' hg' a hag']
  exact heq ▸ hg'

/-- The division is determined by the relation, the key and the elements. -/
theorem unique (h : SortedClasses R key elems groups) (h' : SortedClasses R key elems groups') :
    groups = groups' :=
  eq_of_strict (fun _ _ hgh => hgh.asymm) h.ordered h'.ordered
    fun _ => ⟨h.mem_of_mem h', h'.mem_of_mem h⟩

end SortedClasses

end Classes
