import Mathlib.Data.List.Nodup
import Mathlib.Logic.Function.Basic

/-!
# Writing files one after the other

A list of files is written in order; the first write that fails ends it, and leaves something or
nothing under its name. Names outside the list are not touched (`all_of_notMem`), and a run in which
no write fails leaves every file of the list, whatever earlier runs left (`all_of_mem`).
-/

namespace Writes

variable {ν β ε : Type*}

/-- How one write ends. -/
inductive End (β ε : Type*) where
  | done
  | failed (error : ε) (left : Option β)

variable [DecidableEq ν]

/-- Write files until a write fails: the number of files written, the failure, and what is there
afterwards. -/
def all (ends : ℕ → End β ε) : List (ν × β) → (ν → Option β) → (ℕ × Option ε) × (ν → Option β)
  | [], dir => ((0, none), dir)
  | (name, content) :: rest, dir =>
    match ends 0 with
    | .failed error left => ((0, some error), Function.update dir name left)
    | .done =>
      let out := all (fun k => ends (k + 1)) rest (Function.update dir name (some content))
      ((out.1.1 + 1, out.1.2), out.2)

variable {ends : ℕ → End β ε} {files : List (ν × β)} {dir : ν → Option β}

/-- Other names are not touched. -/
theorem all_of_notMem {name : ν} (h : name ∉ files.map Prod.fst) :
    (all ends files dir).2 name = dir name := by
  induction files generalizing ends dir with
  | nil => rfl
  | cons file rest ih =>
    obtain ⟨name', content⟩ := file
    rw [List.map_cons, List.mem_cons, not_or] at h
    rw [all]
    split
    · exact Function.update_of_ne h.1 ..
    · exact (ih h.2).trans (Function.update_of_ne h.1 ..)

/-- Without a failure, every file is written. -/
theorem all_done (h : ∀ k < files.length, ends k = .done) :
    (all ends files dir).1 = (files.length, none) := by
  induction files generalizing ends dir with
  | nil => rfl
  | cons file rest ih =>
    obtain ⟨name, content⟩ := file
    have hrest : ∀ k < rest.length, ends (k + 1) = .done := fun k hk => h (k + 1) (by simpa using hk)
    simp only [all, h 0 (Nat.succ_pos _), ih hrest, List.length_cons]

/-- Without a failure, every name of the list has its content, if the names are different. -/
theorem all_of_mem (hnames : (files.map Prod.fst).Nodup) (h : ∀ k < files.length, ends k = .done)
    {file : ν × β} (hfile : file ∈ files) : (all ends files dir).2 file.1 = some file.2 := by
  induction files generalizing ends dir with
  | nil => cases hfile
  | cons first rest ih =>
    obtain ⟨name, content⟩ := first
    rw [List.map_cons, List.nodup_cons] at hnames
    have hrest : ∀ k < rest.length, ends (k + 1) = .done := fun k hk => h (k + 1) (by simpa using hk)
    simp only [all, h 0 (Nat.succ_pos _)]
    rcases List.mem_cons.mp hfile with rfl | hmem
    · rw [all_of_notMem hnames.1, Function.update_self]
    · exact ih hnames.2 hrest hmem

end Writes
