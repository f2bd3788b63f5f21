import Mathlib.Data.List.Infix
import Mathlib.Data.List.Nodup

/-!
# Replacing references

Replacing the references of a text one after the other, against replacing all of them at once. A text
is read into letters and references (`Piece`); the references that were replaced stand for their
values, the others for themselves (`partly`). Replacing one more is what it should be when its
pattern is found nowhere but at its own references (`Stray`), and then all replacements together are
the simultaneous one (`replaceAll_render`).
-/

namespace Substitution

variable {α κ : Type}

/-! ## Replacing one pattern -/

section Replace

variable [DecidableEq α]

/-- Replace the occurrences of a pattern, from left to right and without overlaps; the first `skip`
letters belong to the last occurrence. -/
def replaceFrom (pat value : List α) : List α → (skip : ℕ) → List α
  | [], _ => []
  | _ :: t, skip + 1 => replaceFrom pat value t skip
  | a :: t, 0 =>
    if pat <+: a :: t then value ++ replaceFrom pat value t (pat.length - 1)
    else a :: replaceFrom pat value t 0

def replace (pat value t : List α) : List α := replaceFrom pat value t 0

variable {pat value : List α}

theorem replaceFrom_drop (t : List α) (skip : ℕ) :
    replaceFrom pat value t skip = replace pat value (t.drop skip) := by
  induction t generalizing skip with
  | nil =>
    rw [List.drop_nil]
    rfl
  | cons a t ih =>
    cases skip with
    | zero => rfl
    | succ skip => exact ih skip

theorem replace_cons_of_absent {a : α} {t : List α} (h : ¬ pat <+: a :: t) :
    replace pat value (a :: t) = a :: replace pat value t := if_neg h

/-- An occurrence at the start is replaced. -/
theorem replace_append_of_pattern (hpat : pat ≠ []) (t : List α) :
    replace pat value (pat ++ t) = value ++ replace pat value t := by
  obtain ⟨a, u, rfl⟩ := List.exists_cons_of_ne_nil hpat
  have hrest : replaceFrom (a :: u) value (u ++ t) ((a :: u).length - 1) =
      replace (a :: u) value t := by
    rw [replaceFrom_drop, List.length_cons, Nat.add_sub_cancel, List.drop_left]
  have hstart : a :: u <+: a :: (u ++ t) := List.prefix_append (a :: u) t
  rw [List.cons_append, replace, replaceFrom, if_pos hstart, hrest]

/-- Letters in which no occurrence starts are kept. -/
theorem replace_append_of_clear {u t : List α}
    (h : ∀ x y, u = x ++ y → y ≠ [] → ¬ pat <+: y ++ t) :
    replace pat value (u ++ t) = u ++ replace pat value t := by
  induction u with
  | nil => rfl
  | cons a u ih =>
    have hstart : ¬ pat <+: a :: (u ++ t) := h [] (a :: u) rfl (List.cons_ne_nil a u)
    rw [List.cons_append, replace_cons_of_absent hstart,
      ih fun x y hxy hy => h (a :: x) y (by rw [hxy, List.cons_append]) hy]
    rfl

/-- Replacing a pattern by itself changes nothing. -/
theorem replace_self (hpat : pat ≠ []) (t : List α) : replace pat pat t = t := by
  induction h : t.length using Nat.strong_induction_on generalizing t with
  | _ n ih =>
    cases t with
    | nil => rfl
    | cons a t =>
      by_cases hstart : pat <+: a :: t
      · obtain ⟨u, hu⟩ := hstart
        have hlength : u.length < n := by
          have := congrArg List.length hu
          have := List.length_pos_of_ne_nil hpat
          rw [List.length_append] at *
          omega
        rw [← hu, replace_append_of_pattern hpat, ih u.length hlength u rfl]
      · have hlength : t.length < n := by
          rw [← h, List.length_cons]
          omega
        rw [replace_cons_of_absent hstart, ih t.length hlength t rfl]

end Replace

/-! ## Texts that have been read -/

/-- A part of a text: a letter, or a reference. -/
inductive Piece (α κ : Type) where
  | letter (a : α)
  | ref (k : κ)

/-- What a piece stands for, when the references stand for `f`. -/
def Piece.text (f : κ → List α) : Piece α κ → List α
  | letter a => [a]
  | ref k => f k

def render (f : κ → List α) (ps : List (Piece α κ)) : List α := ps.flatMap (Piece.text f)

theorem render_cons (f : κ → List α) (p : Piece α κ) (ps : List (Piece α κ)) :
    render f (p :: ps) = p.text f ++ render f ps := List.flatMap_cons

theorem render_congr {f g : κ → List α} {ps : List (Piece α κ)}
    (h : ∀ k, Piece.ref k ∈ ps → f k = g k) : render f ps = render g ps := by
  refine List.flatMap_congr fun p hp => ?_
  cases p with
  | letter a => rfl
  | ref k => exact h k hp

/-- Read a text from left to right; `next` is the reference that stands at the start of a text, and
the first `skip` letters belong to the last one. -/
def readFrom (next : List α → Option κ) (pat : κ → List α) :
    List α → (skip : ℕ) → List (Piece α κ)
  | [], _ => []
  | _ :: t, skip + 1 => readFrom next pat t skip
  | a :: t, 0 =>
    match next (a :: t) with
    | some k => .ref k :: readFrom next pat t ((pat k).length - 1)
    | none => .letter a :: readFrom next pat t 0

/-- What is read stands for the text. -/
theorem render_readFrom {next : List α → Option κ} {pat : κ → List α}
    (hnext : ∀ t k, next t = some k → pat k <+: t) (hpat : ∀ k, pat k ≠ []) (t : List α)
    (skip : ℕ) : render pat (readFrom next pat t skip) = t.drop skip := by
  induction t generalizing skip with
  | nil =>
    rw [List.drop_nil]
    rfl
  | cons a t ih =>
    cases skip with
    | succ skip => exact ih skip
    | zero =>
      rw [readFrom, List.drop_zero]
      cases hk : next (a :: t) with
      | none =>
        rw [render_cons, ih, List.drop_zero]
        rfl
      | some k =>
        obtain ⟨u, hu⟩ := hnext _ k hk
        obtain ⟨b, w, hw⟩ := List.exists_cons_of_ne_nil (hpat k)
        rw [hw, List.cons_append] at hu
        obtain ⟨rfl, rfl⟩ := List.cons.inj hu
        dsimp only
        rw [render_cons, ih, Piece.text, hw, List.length_cons, Nat.add_sub_cancel, List.cons_append,
          List.drop_left]

theorem ref_mem_readFrom {next : List α → Option κ} {pat : κ → List α} {t : List α} {skip : ℕ}
    {k : κ} (h : Piece.ref k ∈ readFrom next pat t skip) : ∃ t', next t' = some k := by
  induction t generalizing skip with
  | nil => cases h
  | cons a t ih =>
    cases skip with
    | succ skip => exact ih h
    | zero =>
      rw [readFrom] at h
      cases hk : next (a :: t) with
      | none =>
        rw [hk] at h
        rcases List.mem_cons.mp h with hp | h
        · cases hp
        · exact ih h
      | some k' =>
        rw [hk] at h
        rcases List.mem_cons.mp h with hp | h
        · cases hp
          exact ⟨_, hk⟩
        · exact ih h

/-! ## Replacing one reference after the other -/

/-- The pattern of `k` occurs from a piece on that is no reference to `k`. -/
def Stray (f : κ → List α) (k : κ) (ps : List (Piece α κ)) : Prop :=
  ∃ before p after x y, ps = before ++ p :: after ∧ p ≠ .ref k ∧ p.text f = x ++ y ∧ y ≠ [] ∧
    f k <+: y ++ render f after

/-- The references `done` stand for their values, the others for their patterns. -/
def partly [DecidableEq κ] (pat value : κ → List α) (done : List κ) (k : κ) : List α :=
  if k ∈ done then value k else pat k

theorem partly_concat [DecidableEq κ] {pat value : κ → List α} {done : List κ} {k : κ} :
    partly pat value (done ++ [k]) = Function.update (partly pat value done) k (value k) := by
  funext j
  by_cases hj : j = k
  · subst hj
    rw [Function.update_self, partly, if_pos (by simp)]
  · rw [Function.update_of_ne hj, partly, partly]
    simp [hj]

section Sequence

variable [DecidableEq α] [DecidableEq κ]

/-- Replacing the pattern of a reference replaces the reference. -/
theorem replace_render {f : κ → List α} {k : κ} {ps : List (Piece α κ)} (hpat : f k ≠ [])
    (hstray : ¬ Stray f k ps) (value : List α) :
    replace (f k) value (render f ps) = render (Function.update f k value) ps := by
  induction ps with
  | nil => rfl
  | cons p ps ih =>
    have ih := ih fun ⟨before, q, after, x, y, hps, h⟩ =>
      hstray ⟨p :: before, q, after, x, y, by rw [hps, List.cons_append], h⟩
    rw [render_cons, render_cons, ← ih]
    have hkeep (hne : p ≠ .ref k) (hsame : p.text (Function.update f k value) = p.text f) :
        replace (f k) value (p.text f ++ render f ps) =
          p.text (Function.update f k value) ++ replace (f k) value (render f ps) := by
      rw [hsame]
      exact replace_append_of_clear fun x y hxy hy hocc =>
        hstray ⟨[], p, ps, x, y, rfl, hne, hxy, hy, hocc⟩
    cases p with
    | letter a => exact hkeep (by simp) rfl
    | ref j =>
      by_cases hj : j = k
      · subst hj
        rw [Piece.text, Piece.text, Function.update_self]
        exact replace_append_of_pattern hpat _
      · exact hkeep (by simpa using hj) (Function.update_of_ne hj _ _)

/-- Replace the patterns of the references `keys`, one after the other. -/
def replaceAll (pat value : κ → List α) (keys : List κ) (t : List α) : List α :=
  keys.foldl (fun t k => replace (pat k) (value k) t) t

/-- When each reference is replaced, its pattern occurs at its own places only, or its value is the
pattern itself. -/
def Separate (pat value : κ → List α) (keys : List κ) (ps : List (Piece α κ)) : Prop :=
  ∀ done k rest, keys = done ++ k :: rest →
    value k = pat k ∨ ¬ Stray (partly pat value done) k ps

/-- Replacing the references one after the other is replacing them all at once. -/
theorem replaceAll_render {pat value : κ → List α} {keys : List κ} {ps : List (Piece α κ)}
    (hpat : ∀ k, pat k ≠ []) (hnodup : keys.Nodup) (hsep : Separate pat value keys ps) :
    replaceAll pat value keys (render pat ps) = render (partly pat value keys) ps := by
  suffices h : ∀ rest done, keys = done ++ rest →
      replaceAll pat value rest (render (partly pat value done) ps) =
        render (partly pat value keys) ps by
    have hnone : partly pat value [] = pat := by
      funext k
      exact if_neg List.not_mem_nil
    rw [← h keys [] rfl, hnone]
  intro rest
  induction rest with
  | nil =>
    intro done hdone
    rw [hdone, List.append_nil]
    rfl
  | cons k rest ih =>
    intro done hdone
    have hk : k ∉ done := by
      rw [hdone, List.nodup_append] at hnodup
      exact fun hmem => hnodup.2.2 k hmem k List.mem_cons_self rfl
    have hfk : partly pat value done k = pat k := if_neg hk
    have hstep : replace (pat k) (value k) (render (partly pat value done) ps) =
        render (partly pat value (done ++ [k])) ps := by
      rw [partly_concat]
      rcases hsep done k rest hdone with hself | hclear
      · rw [hself, replace_self (hpat k), ← hfk, Function.update_eq_self]
      · rw [← replace_render (hfk ▸ hpat k) hclear, hfk]
    rw [replaceAll, List.foldl_cons, hstep]
    exact ih (done ++ [k]) (by rw [hdone, List.append_assoc]; rfl)

end Sequence

end Substitution
