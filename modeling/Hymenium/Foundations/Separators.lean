import Mathlib.Data.List.DropRight
import Mathlib.Data.List.Infix

/-!
# Lists with separators

Two ways to normalize the separators of a list. One leaves the first separator of each run
(`squeeze`) and then drops those at the ends (`trim`); the other takes the nonempty parts between
separators (`parts`) and joins them. They give the same list (`trim_squeeze`), which has no
separator at an end and no two in a row (`isSpaced_trim_squeeze`).
-/

namespace Separators

variable {α : Type*} [DecidableEq α] (s : α)

/-- Leave the first separator of each run. `prev` says that a separator stands before the list. -/
def squeeze : (prev : Bool) → List α → List α
  | _, [] => []
  | prev, a :: l =>
    if a = s then if prev then squeeze true l else s :: squeeze true l
    else a :: squeeze false l

/-- Drop the separators at both ends. -/
def trim (l : List α) : List α := (l.dropWhile (· = s)).rdropWhile (· = s)

/-- The nonempty parts between separators. -/
def parts (l : List α) : List (List α) := (l.splitOn s).filter (· ≠ [])

/-- No separator stands at an end, and none after another. -/
structure IsSpaced (l : List α) : Prop where
  head : l.head? ≠ some s
  last : l.getLast? ≠ some s
  single : ¬ [s, s] <:+: l

variable {s} {a b l : List α} {x : α}

/-- A list without a separator, or one with a first part and what comes behind the separator. -/
theorem part_induction {P : List α → Prop} (last : ∀ l, s ∉ l → P l)
    (part : ∀ a b, s ∉ a → P b → P (a ++ s :: b)) : ∀ l, P l := by
  intro l
  induction h : l.length using Nat.strong_induction_on generalizing l with
  | _ n ih =>
    by_cases hmem : s ∈ l
    · obtain ⟨a, b, rfl, ha⟩ := List.eq_append_cons_of_mem hmem
      refine part a b ha (ih b.length ?_ b rfl)
      rw [← h, List.length_append, List.length_cons]
      omega
    · exact last l hmem

/-! ## Squeezing -/

@[simp] theorem squeeze_nil (prev : Bool) : squeeze s prev [] = [] := rfl

@[simp] theorem squeeze_separator (l : List α) : squeeze s true (s :: l) = squeeze s true l := by
  rw [squeeze, if_pos rfl, if_pos rfl]

@[simp] theorem squeeze_first_separator (l : List α) :
    squeeze s false (s :: l) = s :: squeeze s true l := by
  rw [squeeze, if_pos rfl, if_neg Bool.false_ne_true]

theorem squeeze_cons_of_ne (h : x ≠ s) (prev : Bool) (l : List α) :
    squeeze s prev (x :: l) = x :: squeeze s false l := by
  rw [squeeze, if_neg h]

theorem squeeze_append_of_notMem (ha : s ∉ a) (hne : a ≠ []) (prev : Bool) (l : List α) :
    squeeze s prev (a ++ l) = a ++ squeeze s false l := by
  induction a generalizing prev with
  | nil => exact absurd rfl hne
  | cons x a ih =>
    obtain ⟨hx, ha⟩ := not_or.mp (List.mem_cons.not.mp ha)
    rw [List.cons_append, squeeze_cons_of_ne (Ne.symm hx)]
    rcases eq_or_ne a [] with rfl | hne
    · rfl
    · rw [ih ha hne, List.cons_append]

theorem squeeze_of_notMem (h : s ∉ l) (prev : Bool) : squeeze s prev l = l := by
  rcases eq_or_ne l [] with rfl | hne
  · rfl
  · have heq := squeeze_append_of_notMem h hne prev []
    rwa [squeeze_nil, List.append_nil] at heq

theorem squeeze_sublist (prev : Bool) (l : List α) : (squeeze s prev l).Sublist l := by
  induction l generalizing prev with
  | nil => exact .refl _
  | cons x l ih =>
    rw [squeeze]
    split_ifs with hx
    · exact (ih true).cons _
    · rw [hx]
      exact (ih true).cons_cons _
    · exact (ih false).cons_cons _

/-- After a separator, what is left begins with no separator. -/
theorem head?_squeeze (l : List α) : (squeeze s true l).head? ≠ some s := by
  induction l with
  | nil => simp
  | cons x l ih =>
    by_cases hx : x = s
    · rw [hx, squeeze_separator]
      exact ih
    · rw [squeeze_cons_of_ne hx]
      simpa using hx

/-- Dropping the separators in front does the same as a separator before the list. -/
theorem dropWhile_squeeze (prev : Bool) (l : List α) :
    (squeeze s prev l).dropWhile (· = s) = squeeze s true l := by
  induction l generalizing prev with
  | nil => rfl
  | cons x l ih =>
    by_cases hx : x = s
    · rw [hx, squeeze_separator]
      cases prev with
      | false => rw [squeeze_first_separator, List.dropWhile_cons_of_pos (by simp), ih]
      | true => rw [squeeze_separator, ih]
    · rw [squeeze_cons_of_ne hx, squeeze_cons_of_ne hx,
        List.dropWhile_cons_of_neg (by simpa using hx)]

/-- Squeezing leaves no separator after another. -/
theorem not_infix_squeeze (prev : Bool) (l : List α) : ¬ [s, s] <:+: squeeze s prev l := by
  induction l generalizing prev with
  | nil => simp
  | cons x l ih =>
    by_cases hx : x = s
    · rw [hx]
      cases prev with
      | true =>
        rw [squeeze_separator]
        exact ih true
      | false =>
        rw [squeeze_first_separator, List.infix_cons_iff]
        rintro (hfront | hmid)
        · obtain ⟨t, ht⟩ := (List.cons_prefix_cons.mp hfront).2
          refine head?_squeeze (s := s) l ?_
          rw [← ht]
          rfl
        · exact ih true hmid
    · rw [squeeze_cons_of_ne hx, List.infix_cons_iff]
      rintro (hfront | hmid)
      · exact hx (List.cons_prefix_cons.mp hfront).1.symm
      · exact ih false hmid

/-! ## Parts -/

theorem parts_of_notMem (h : s ∉ l) : parts s l = [l].filter (· ≠ []) := by
  rw [parts, List.splitOn_eq_singleton h]

theorem parts_append (h : s ∉ a) (b : List α) :
    parts s (a ++ s :: b) = [a].filter (· ≠ []) ++ parts s b := by
  rw [parts, List.splitOn_append_cons_self_of_not_mem h, ← List.singleton_append,
    List.filter_append]
  rfl

theorem parts_cons_of_notMem (h : s ∉ a) (hne : a ≠ []) (b : List α) :
    parts s (a ++ s :: b) = a :: parts s b := by
  rw [parts_append h, List.filter_cons_of_pos (by simpa using hne)]
  rfl

/-- A list of separators only has no parts. -/
theorem parts_eq_nil : parts s l = [] ↔ ∀ x ∈ l, x = s := by
  induction l using part_induction (s := s) with
  | last l hl =>
    rw [parts_of_notMem hl]
    cases l with
    | nil => simp
    | cons x l =>
      obtain ⟨hx, -⟩ := not_or.mp (List.mem_cons.not.mp hl)
      simp [Ne.symm hx]
  | part a b ha ih =>
    rw [parts_append ha, List.append_eq_nil_iff, ih]
    cases a with
    | nil => simp
    | cons x a =>
      obtain ⟨hx, -⟩ := not_or.mp (List.mem_cons.not.mp ha)
      simp [Ne.symm hx]

theorem ne_nil_of_mem_parts (h : a ∈ parts s l) : a ≠ [] := by
  simpa using (List.mem_filter.mp h).2

omit [DecidableEq α] in
/-- Nonempty parts are joined to an empty list only when there are none. -/
theorem intercalate_eq_nil {ls : List (List α)} (h : ∀ a ∈ ls, a ≠ []) :
    [s].intercalate ls = [] ↔ ls = [] := by
  constructor
  · intro hjoin
    cases ls with
    | nil => rfl
    | cons a ls =>
      have ha := h a List.mem_cons_self
      rcases eq_or_ne ls [] with rfl | hne
      · rw [List.intercalate_singleton] at hjoin
        exact absurd hjoin ha
      · rw [List.intercalate_cons_of_ne_nil hne] at hjoin
        simp [ha] at hjoin
  · rintro rfl
    rfl

/-! ## The two ways agree -/

omit [DecidableEq α] in
/-- A list whose elements are all dropped is dropped behind another one. -/
theorem rdropWhile_append_of_eq_nil {p : α → Bool} (h : b.rdropWhile p = []) (a : List α) :
    (a ++ b).rdropWhile p = a.rdropWhile p := by
  have hrev : ∀ x ∈ b.reverse, p x := fun x hx =>
    List.rdropWhile_eq_nil_iff.mp h x (List.mem_reverse.mp hx)
  rw [List.rdropWhile, List.reverse_append, List.dropWhile_append_of_pos hrev]
  rfl

omit [DecidableEq α] in
/-- What stands before an element that stays also stays. -/
theorem rdropWhile_append_of_ne_nil {p : α → Bool} (h : b.rdropWhile p ≠ []) (a : List α) :
    (a ++ b).rdropWhile p = a ++ b.rdropWhile p := by
  have hrev : ¬ (b.reverse.dropWhile p).isEmpty = true := by
    rw [List.isEmpty_iff]
    intro hnil
    exact h (congrArg List.reverse hnil)
  rw [List.rdropWhile, List.reverse_append, List.dropWhile_append, if_neg hrev,
    List.reverse_append, List.reverse_reverse]
  rfl

theorem rdropWhile_of_notMem (h : s ∉ l) : l.rdropWhile (· = s) = l := by
  refine List.rdropWhile_eq_self_iff.mpr fun hne => ?_
  have hlast := List.getLast_mem hne
  rw [decide_eq_true_eq]
  intro heq
  rw [heq] at hlast
  exact h hlast

/-- Behind a separator, squeezing and dropping the separators at the end joins the parts. -/
theorem rdropWhile_squeeze (l : List α) :
    (squeeze s true l).rdropWhile (· = s) = [s].intercalate (parts s l) := by
  induction l using part_induction (s := s) with
  | last l hl =>
    rw [squeeze_of_notMem hl, rdropWhile_of_notMem hl, parts_of_notMem hl]
    rcases eq_or_ne l [] with rfl | hne
    · rfl
    · rw [List.filter_cons_of_pos (by simpa using hne)]
      exact List.intercalate_singleton.symm
  | part a b ha ih =>
    rcases eq_or_ne a [] with rfl | hne
    · rw [parts_append ha, List.nil_append, squeeze_separator, ih]
      rfl
    · rw [squeeze_append_of_notMem ha hne, squeeze_first_separator, parts_cons_of_notMem ha hne]
      by_cases hb : parts s b = []
      · -- the rest has separators only, which are dropped with the one behind `a`
        rw [hb, List.intercalate_nil] at ih
        have hrest : (s :: squeeze s true b).rdropWhile (· = s) = [] := by
          rw [← List.singleton_append, rdropWhile_append_of_eq_nil ih, List.rdropWhile_singleton]
          simp
        rw [rdropWhile_append_of_eq_nil hrest, rdropWhile_of_notMem ha, hb,
          List.intercalate_singleton]
      · have hjoin : [s].intercalate (parts s b) ≠ [] :=
          (intercalate_eq_nil fun a ha => ne_nil_of_mem_parts ha).not.mpr hb
        rw [← ih] at hjoin
        have hrest : (s :: squeeze s true b).rdropWhile (· = s) =
            s :: (squeeze s true b).rdropWhile (· = s) :=
          rdropWhile_append_of_ne_nil hjoin [s]
        rw [rdropWhile_append_of_ne_nil (by rw [hrest]; exact List.cons_ne_nil _ _), hrest, ih,
          List.intercalate_cons_of_ne_nil hb]
        simp

/-- **The two ways agree.** Squeezing and trimming joins the nonempty parts. -/
theorem trim_squeeze (l : List α) : trim s (squeeze s false l) = [s].intercalate (parts s l) := by
  rw [trim, dropWhile_squeeze, rdropWhile_squeeze]

/-- What is squeezed and trimmed has single separators, and none at the ends. -/
theorem isSpaced_trim_squeeze (l : List α) : IsSpaced s (trim s (squeeze s false l)) := by
  rw [trim, dropWhile_squeeze]
  have hfront : (squeeze s true l).rdropWhile (· = s) <+: squeeze s true l :=
    List.rdropWhile_prefix _ _
  refine ⟨?_, ?_, ?_⟩
  · intro hhead
    obtain ⟨t, ht⟩ := hfront
    refine head?_squeeze (s := s) l ?_
    rw [← ht, List.head?_append, hhead]
    rfl
  · intro hlast
    have hne : (squeeze s true l).rdropWhile (· = s) ≠ [] := by
      intro hnil
      rw [hnil] at hlast
      cases hlast
    have hnot := List.rdropWhile_last_not _ _ hne
    rw [List.getLast?_eq_some_getLast hne] at hlast
    exact hnot (decide_eq_true (Option.some.inj hlast))
  · exact fun hmid => not_infix_squeeze true l (hmid.trans hfront.isInfix)

end Separators
