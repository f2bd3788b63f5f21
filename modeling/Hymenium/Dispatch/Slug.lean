import Hymenium.Decompose.Algorithm
import Hymenium.Foundations.Separators

/-!
# Slugs

`handoff_slug` (`src/dispatch/orchestrate.rs`) makes the slug of an agent name, `slugify`
(`src/decompose/algorithm.rs`) the one of a child handoff. The first one collapses runs of hyphens
in a loop and trims the result, the second one splits at hyphens and joins what is not empty. They
are the same function (`slugs_agree`).
-/

namespace Hymenium

open Text

variable (U : Unicode)

/-- One turn of the loop that collapses hyphens: the text so far, and whether it ends in the hyphen
of a run. -/
def collapseStep (state : Text × Bool) (c : Char) : Text × Bool :=
  let (collapsed, prevHyphen) := state
  if c = '-' then (if prevHyphen then collapsed else collapsed ++ ['-'], true)
  else (collapsed ++ [c], false)

/-- Normalize a handoff title into a URL-safe slug. -/
def handoffSlug (title : Text) : Text :=
  let slug := (U.toLowercase title).map fun c =>
    if U.isAlphanumeric c ∨ c = '-' then c else '-'
  let collapsed := (slug.foldl collapseStep ([], false)).1
  trimMatches '-' collapsed

/-- Letters, digits and hyphens only, with no hyphen at an end and none after another. -/
structure IsSlug (t : Text) : Prop extends Separators.IsSpaced '-' t where
  chars : ∀ c ∈ t, U.isAlphanumeric c = true ∨ c = '-'

/-- The loop appends the squeezed text to what it has. -/
theorem foldl_collapseStep (t collapsed : Text) (prevHyphen : Bool) :
    (t.foldl collapseStep (collapsed, prevHyphen)).1 =
      collapsed ++ Separators.squeeze '-' prevHyphen t := by
  induction t generalizing collapsed prevHyphen with
  | nil => simp
  | cons c t ih =>
    rw [List.foldl_cons]
    by_cases hc : c = '-'
    · subst hc
      cases prevHyphen with
      | true =>
        rw [Separators.squeeze_separator]
        exact ih collapsed true
      | false =>
        rw [Separators.squeeze_first_separator, List.append_cons]
        exact ih (collapsed ++ ['-']) true
    · rw [Separators.squeeze_cons_of_ne hc, List.append_cons, ← ih, collapseStep, if_neg hc]

variable {U}

/-- Both functions write the same characters: a hyphen stays a hyphen. -/
theorem map_hyphens (t : Text) :
    (t.map fun c => if U.isAlphanumeric c ∨ c = '-' then c else '-') =
      t.map fun c => if U.isAlphanumeric c then c else '-' := by
  refine List.map_congr_left fun c _ => ?_
  by_cases hc : c = '-'
  · simp [hc]
  · simp [hc]

variable (U) in
/-- A slug is the text with its other characters replaced by hyphens, squeezed and trimmed. -/
theorem handoffSlug_eq (title : Text) : handoffSlug U title =
    Separators.trim '-' (Separators.squeeze '-' false
      ((U.toLowercase title).map fun c => if U.isAlphanumeric c then c else '-')) := by
  unfold handoffSlug
  dsimp only
  rw [foldl_collapseStep, map_hyphens]
  rfl

theorem isSlug_handoffSlug (title : Text) : IsSlug U (handoffSlug U title) := by
  rw [handoffSlug_eq]
  refine { Separators.isSpaced_trim_squeeze _ with chars := fun c hc => ?_ }
  have hsqueezed := (infix_trimMatches '-' _).subset hc
  obtain ⟨c', -, rfl⟩ := List.mem_map.mp ((Separators.squeeze_sublist _ _).subset hsqueezed)
  split_ifs with halpha
  · exact .inl halpha
  · exact .inr rfl

/-- A title without letters and digits has no slug. -/
theorem handoffSlug_eq_nil (title : Text) : handoffSlug U title = [] ↔
    ∀ c ∈ U.toLowercase title, U.isAlphanumeric c = true → c = '-' := by
  rw [handoffSlug_eq, Separators.trim_squeeze,
    Separators.intercalate_eq_nil fun _ => Separators.ne_nil_of_mem_parts, Separators.parts_eq_nil,
    List.forall_mem_map]
  refine forall₂_congr fun c _ => ?_
  split_ifs with hc
  · simp [hc]
  · simp [hc]

variable (U) in
/-- **Slugs.** The two functions agree, and what they return is a slug. -/
theorem slugs_agree (title : Text) :
    handoffSlug U title = slugify U title ∧ IsSlug U (handoffSlug U title) := by
  refine ⟨?_, isSlug_handoffSlug title⟩
  rw [handoffSlug_eq, Separators.trim_squeeze]
  rfl

example : handoffSlug .asciiTables "add -- new  stuff!".toList = "add-new-stuff".toList := by
  decide +kernel

end Hymenium
