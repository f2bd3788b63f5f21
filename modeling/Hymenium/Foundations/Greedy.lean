import Mathlib.Algebra.BigOperators.Group.List.Basic
import Mathlib.Algebra.Ring.Nat

/-!
# Greedy selection

The items of a list that fit into what the items selected before them leave of a budget.
-/

namespace Greedy

variable {ι : Type*} (weight : ι → ℕ)

/-- The items that fit one after the other. -/
def select : (room : ℕ) → List ι → List ι
  | _, [] => []
  | room, i :: is =>
    if weight i ≤ room then i :: select (room - weight i) is else select room is

variable {weight} {room : ℕ} {i : ι} {is : List ι}

theorem select_of_le (h : weight i ≤ room) :
    select weight room (i :: is) = i :: select weight (room - weight i) is := by
  rw [select, if_pos h]

theorem select_of_lt (h : room < weight i) :
    select weight room (i :: is) = select weight room is := by
  rw [select, if_neg (Nat.not_le.mpr h)]

theorem select_sublist (weight : ι → ℕ) (room : ℕ) (is : List ι) :
    (select weight room is).Sublist is := by
  induction is generalizing room with
  | nil => exact .slnil
  | cons i is ih =>
    by_cases h : weight i ≤ room
    · rw [select_of_le h]
      exact (ih _).cons_cons i
    · rw [select_of_lt (Nat.not_le.mp h)]
      exact (ih room).cons i

/-- The selection stays within the budget. -/
theorem sum_select_le (weight : ι → ℕ) (room : ℕ) (is : List ι) :
    ((select weight room is).map weight).sum ≤ room := by
  induction is generalizing room with
  | nil => exact Nat.zero_le room
  | cons i is ih =>
    by_cases h : weight i ≤ room
    · have hrest := ih (room - weight i)
      rw [select_of_le h, List.map_cons, List.sum_cons]
      omega
    · rw [select_of_lt (Nat.not_le.mp h)]
      exact ih room

/-- Nothing is selected when nothing fits. -/
theorem select_eq_nil (h : ∀ i ∈ is, room < weight i) : select weight room is = [] := by
  induction is with
  | nil => rfl
  | cons i is ih =>
    obtain ⟨hi, his⟩ := List.forall_mem_cons.mp h
    rw [select_of_lt hi, ih his]

end Greedy
