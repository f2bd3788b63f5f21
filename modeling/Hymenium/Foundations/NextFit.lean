import Mathlib.Algebra.BigOperators.Group.List.Basic
import Mathlib.Algebra.Ring.Nat

/-!
# Next-fit packing

Items are put into bins in their order: an item joins the open bin, or closes it when the load of
the bin with the item would be above the limit. An item that is alone above the limit gets a bin of
its own.

1. `IsNextFit`, `isNextFit_pack`: the bins are the items in order, none is empty, each is a single
   item or within the limit, and none has room for the first item of the next one.
2. `LoadsBelow`: a cap on all loads that packing looks at, step by step (`LoadsBelow.add_lt`,
   `loadsBelow_packFrom_close`).
-/

namespace NextFit

variable {ι : Type*} (weight : ι → ℕ) (limit : ℕ)

/-- The weight of a bin. -/
def load (bin : List ι) : ℕ := (bin.map weight).sum

/-- Pack items behind an open bin. -/
def packFrom : List ι → (bin : List ι) → List (List ι)
  | [], bin => if bin = [] then [] else [bin]
  | i :: is, bin =>
    if bin ≠ [] ∧ limit < load weight bin + weight i then bin :: packFrom is [i]
    else packFrom is (bin ++ [i])

/-- Pack items into bins. -/
def pack (is : List ι) : List (List ι) := packFrom weight limit is []

@[simp] theorem load_nil : load weight [] = 0 := rfl

@[simp] theorem load_singleton (i : ι) : load weight [i] = weight i := by simp [load]

@[simp] theorem load_append (bin bin' : List ι) :
    load weight (bin ++ bin') = load weight bin + load weight bin' := by
  simp [load]

variable {weight limit} {bin is : List ι} {i : ι}

theorem packFrom_close (hne : bin ≠ []) (h : limit < load weight bin + weight i) :
    packFrom weight limit (i :: is) bin = bin :: packFrom weight limit is [i] := by
  rw [packFrom, if_pos ⟨hne, h⟩]

theorem packFrom_join (h : bin ≠ [] → load weight bin + weight i ≤ limit) :
    packFrom weight limit (i :: is) bin = packFrom weight limit is (bin ++ [i]) := by
  rw [packFrom, if_neg]
  rintro ⟨hne, hlt⟩
  exact absurd (h hne) (not_le.mpr hlt)

/-- The case split of packing: the open bin is closed, or the item joins it. -/
theorem close_or_join (weight : ι → ℕ) (limit : ℕ) (bin : List ι) (i : ι) :
    (bin ≠ [] ∧ limit < load weight bin + weight i) ∨
      (bin ≠ [] → load weight bin + weight i ≤ limit) := by
  by_cases h : bin ≠ [] ∧ limit < load weight bin + weight i
  · exact .inl h
  · exact .inr fun hne => not_lt.mp fun hlt => h ⟨hne, hlt⟩

/-- The first bin is the open one, or starts with it. -/
theorem exists_packFrom (weight : ι → ℕ) (limit : ℕ) (is : List ι) (hne : bin ≠ []) :
    ∃ more rest, packFrom weight limit is bin = (bin ++ more) :: rest := by
  induction is generalizing bin with
  | nil => exact ⟨[], [], by rw [packFrom, if_neg hne, List.append_nil]⟩
  | cons i is ih =>
    rcases close_or_join weight limit bin i with ⟨-, hlt⟩ | hle
    · exact ⟨[], _, by rw [packFrom_close hne hlt, List.append_nil]⟩
    · obtain ⟨more, rest, heq⟩ := ih (List.append_ne_nil_of_right_ne_nil bin (List.cons_ne_nil i []))
      exact ⟨i :: more, rest, by rw [packFrom_join hle, heq, List.append_assoc]; rfl⟩

/-! ## The result -/

/-- What next-fit packing makes of a list of items. -/
structure IsNextFit (weight : ι → ℕ) (limit : ℕ) (is : List ι) (bins : List (List ι)) : Prop where
  flatten : bins.flatten = is
  ne_nil : ∀ b ∈ bins, b ≠ []
  fits : ∀ b ∈ bins, b.length = 1 ∨ load weight b ≤ limit
  maximal : bins.IsChain fun b c => ∀ i ∈ c.head?, limit < load weight b + weight i

/-- Packing behind a bin that is a single item or within the limit. -/
theorem isNextFit_packFrom (hbin : bin.length ≤ 1 ∨ load weight bin ≤ limit) :
    IsNextFit weight limit (bin ++ is) (packFrom weight limit is bin) := by
  induction is generalizing bin with
  | nil =>
    rw [packFrom, List.append_nil]
    split_ifs with hne
    · subst hne
      exact ⟨rfl, nofun, nofun, .nil⟩
    · refine ⟨List.flatten_singleton, ?_, ?_, .singleton bin⟩
      · simpa using hne
      · have hpos := List.length_pos_iff.mpr hne
        intro b hb
        rw [List.mem_singleton] at hb
        subst hb
        exact hbin.imp_left fun hle => le_antisymm hle hpos
  | cons i is ih =>
    rcases close_or_join weight limit bin i with ⟨hne, hlt⟩ | hle
    · have hrest : IsNextFit weight limit ([i] ++ is) (packFrom weight limit is [i]) :=
        ih (.inl le_rfl)
      have hpos := List.length_pos_iff.mpr hne
      obtain ⟨more, rest, heq⟩ := exists_packFrom weight limit is (List.cons_ne_nil i [])
      rw [packFrom_close hne hlt]
      refine ⟨?_, ?_, ?_, ?_⟩
      · rw [List.flatten_cons, hrest.flatten, List.singleton_append]
      · exact List.forall_mem_cons.mpr ⟨hne, hrest.ne_nil⟩
      · exact List.forall_mem_cons.mpr
          ⟨hbin.imp_left fun hle => le_antisymm hle hpos, hrest.fits⟩
      · -- the next bin starts with the item that closed this one
        have hmaximal := hrest.maximal
        rw [heq] at hmaximal ⊢
        refine List.isChain_cons_cons.mpr ⟨fun j hj => ?_, hmaximal⟩
        cases hj
        exact hlt
    · rw [packFrom_join hle]
      have hbin' : (bin ++ [i]).length ≤ 1 ∨ load weight (bin ++ [i]) ≤ limit := by
        by_cases hne : bin = []
        · exact .inl (by rw [hne]; exact le_rfl)
        · exact .inr (by rw [load_append, load_singleton]; exact hle hne)
      have hjoined := ih hbin'
      rwa [List.append_assoc, List.singleton_append] at hjoined

theorem isNextFit_pack (weight : ι → ℕ) (limit : ℕ) (is : List ι) :
    IsNextFit weight limit is (pack weight limit is) := by
  have hempty : ([] : List ι).length ≤ 1 := Nat.zero_le 1
  exact isNextFit_packFrom (.inl hempty)

/-! ## A cap on the loads -/

/-- Every bin is below the cap, also together with the first item of the next bin. -/
structure LoadsBelow (weight : ι → ℕ) (cap : ℕ) (bins : List (List ι)) : Prop where
  loads : ∀ b ∈ bins, load weight b < cap
  next : bins.IsChain fun b c => ∀ i ∈ c.head?, load weight b + weight i < cap

variable {cap : ℕ}

theorem LoadsBelow.load_lt (h : LoadsBelow weight cap (packFrom weight limit is bin))
    (hne : bin ≠ []) : load weight bin < cap := by
  obtain ⟨more, rest, heq⟩ := exists_packFrom weight limit is hne
  have hfirst := h.loads (bin ++ more) (heq ▸ List.mem_cons_self)
  rw [load_append] at hfirst
  omega

/-- An item that closes the open bin: the bin is looked at together with it. -/
theorem loadsBelow_packFrom_close (hne : bin ≠ []) (h : limit < load weight bin + weight i) :
    LoadsBelow weight cap (packFrom weight limit (i :: is) bin) ↔
      load weight bin + weight i < cap ∧ LoadsBelow weight cap (packFrom weight limit is [i]) := by
  obtain ⟨more, rest, heq⟩ := exists_packFrom weight limit is (List.cons_ne_nil i [])
  rw [packFrom_close hne h, heq]
  constructor
  · rintro ⟨hloads, hnext⟩
    obtain ⟨hfirst, hrest⟩ := List.isChain_cons_cons.mp hnext
    exact ⟨hfirst i rfl, (List.forall_mem_cons.mp hloads).2, hrest⟩
  · rintro ⟨hlt, hloads, hnext⟩
    refine ⟨List.forall_mem_cons.mpr ⟨by omega, hloads⟩, List.isChain_cons_cons.mpr ⟨?_, hnext⟩⟩
    intro j hj
    cases hj
    exact hlt

/-- The open bin is looked at together with the first item. -/
theorem LoadsBelow.add_lt (h : LoadsBelow weight cap (packFrom weight limit (i :: is) bin)) :
    load weight bin + weight i < cap := by
  rcases close_or_join weight limit bin i with ⟨hne, hlt⟩ | hle
  · exact ((loadsBelow_packFrom_close hne hlt).mp h).1
  · rw [packFrom_join hle] at h
    have hlt := h.load_lt (List.append_ne_nil_of_right_ne_nil bin (List.cons_ne_nil i []))
    rwa [load_append, load_singleton] at hlt

/-- Bins whose loads are below the cap all together. -/
theorem loadsBelow_of_load_flatten {bins : List (List ι)} (h : load weight bins.flatten < cap) :
    LoadsBelow weight cap bins := by
  induction bins with
  | nil => exact ⟨nofun, .nil⟩
  | cons b rest ih =>
    rw [List.flatten_cons, load_append] at h
    obtain ⟨hloads, hnext⟩ := ih (by omega)
    refine ⟨List.forall_mem_cons.mpr ⟨by omega, hloads⟩, ?_⟩
    cases rest with
    | nil => exact .singleton b
    | cons c rest =>
      refine List.isChain_cons_cons.mpr ⟨fun i hi => ?_, hnext⟩
      obtain ⟨c, rfl⟩ := List.head?_eq_some_iff.mp hi
      rw [List.flatten_cons, load_append, ← List.singleton_append, load_append,
        load_singleton] at h
      omega

theorem loadsBelow_pack (h : load weight is < cap) :
    LoadsBelow weight cap (pack weight limit is) := by
  apply loadsBelow_of_load_flatten
  rwa [(isNextFit_pack weight limit is).flatten]

theorem loadsBelow_packFrom_nil (h : load weight bin < cap) :
    LoadsBelow weight cap (packFrom weight limit [] bin) := by
  rw [packFrom]
  split_ifs
  · exact ⟨nofun, .nil⟩
  · exact ⟨by simpa using h, .singleton bin⟩

end NextFit
