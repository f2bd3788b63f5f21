import Mathlib.Data.List.Sort
import Mathlib.Data.List.Nodup

/-!
# Queries in batches

A query for the rows of many keys, asked batch by batch: `batches` cuts the keys, each batch is
answered with its rows in an order by key. The rows of one key come out as a query for that key
alone would return them (`filter_flatMap_batches`), since a stable sort keeps the order of the rows
of one key (`filter_insertionSort`).
-/

namespace Batches

variable {α κ : Type*}

/-- Cut a list into batches of `n`; `fuel` bounds the number of batches. -/
def cut (n : ℕ) : ℕ → List α → List (List α)
  | 0, _ => []
  | fuel + 1, l => if l = [] then [] else l.take n :: cut n fuel (l.drop n)

/-- The batches of `n` elements of a list. -/
def batches (n : ℕ) (l : List α) : List (List α) := cut n l.length l

theorem flatten_cut {n : ℕ} (hn : n ≠ 0) {fuel : ℕ} {l : List α} (h : l.length ≤ fuel) :
    (cut n fuel l).flatten = l := by
  induction fuel generalizing l with
  | zero => exact (List.eq_nil_of_length_eq_zero (Nat.le_zero.mp h)).symm
  | succ fuel ih =>
    unfold cut
    split_ifs with hl
    · exact hl.symm
    · have hpos : 0 < l.length := List.length_pos_iff.mpr hl
      have hrest : (l.drop n).length ≤ fuel := by
        rw [List.length_drop]
        omega
      rw [List.flatten_cons, ih hrest, List.take_append_drop]

/-- Together the batches are the list. -/
theorem flatten_batches {n : ℕ} (hn : n ≠ 0) (l : List α) : (batches n l).flatten = l :=
  flatten_cut hn le_rfl

/-! ## Sorting and filtering -/

section Sorting

variable (r : α → α → Prop) [DecidableRel r]

theorem orderedInsert_of_forall {a : α} {l : List α} (h : ∀ b ∈ l, r a b) :
    l.orderedInsert r a = a :: l := by
  cases l with
  | nil => rfl
  | cons b l => exact List.orderedInsert_cons_of_le r l (h b List.mem_cons_self)

theorem filter_orderedInsert [IsTrans α r] (p : α → Bool) {a : α} {l : List α}
    (hl : l.Pairwise r) : (l.orderedInsert r a).filter p =
      if p a then (l.filter p).orderedInsert r a else l.filter p := by
  induction l with
  | nil => simp [List.filter_cons]
  | cons b l ih =>
    have hb := List.pairwise_cons.mp hl
    by_cases hab : r a b
    · have hfront : ∀ c ∈ (b :: l).filter p, r a c := by
        intro c hc
        rcases List.mem_cons.mp (List.mem_filter.mp hc).1 with rfl | hc
        · exact hab
        · exact trans_of r hab (hb.1 c hc)
      rw [List.orderedInsert_cons_of_le r l hab, orderedInsert_of_forall r hfront,
        List.filter_cons]
    · rw [List.orderedInsert_of_not_le r l hab, List.filter_cons, ih hb.2, List.filter_cons]
      split_ifs
      · rw [List.orderedInsert_of_not_le r _ hab]
      · rfl
      · rfl
      · rfl

/-- Sorting and filtering commute: the sort is stable. -/
theorem filter_insertionSort [IsTrans α r] [Std.Total r] (p : α → Bool) (l : List α) :
    (l.insertionSort r).filter p = (l.filter p).insertionSort r := by
  induction l with
  | nil => rfl
  | cons a l ih =>
    rw [List.insertionSort_cons, filter_orderedInsert r p (List.pairwise_insertionSort r l), ih,
      List.filter_cons]
    split_ifs
    · rw [List.insertionSort_cons]
    · rfl

end Sorting

/-! ## The rows of a batch -/

section Query

variable [LinearOrder κ] (key : α → κ) (le : α → α → Prop)

/-- Rows in the order of their keys, and of `le` under one key. -/
def ByKey (a b : α) : Prop := key a < key b ∨ key a = key b ∧ le a b

instance [DecidableRel le] : DecidableRel (ByKey key le) := fun _ _ =>
  inferInstanceAs (Decidable (_ ∨ _))

instance [IsTrans α le] : IsTrans α (ByKey key le) where
  trans a b c hab hbc := by
    rcases hab with hab | ⟨hab, hle⟩ <;> rcases hbc with hbc | ⟨hbc, hle'⟩
    · exact .inl (hab.trans hbc)
    · exact .inl (hbc ▸ hab)
    · exact .inl (hab ▸ hbc)
    · exact .inr ⟨hab.trans hbc, trans_of le hle hle'⟩

instance [Std.Total le] : Std.Total (ByKey key le) where
  total a b := by
    rcases lt_trichotomy (key a) (key b) with hlt | heq | hgt
    · exact .inl (.inl hlt)
    · exact (total_of le a b).imp (fun h => .inr ⟨heq, h⟩) fun h => .inr ⟨heq.symm, h⟩
    · exact .inr (.inl hgt)

variable [DecidableRel le]

/-- The rows of a batch of keys, in order. -/
def query (rows : List α) (ks : List κ) : List α :=
  (rows.filter (key · ∈ ks)).insertionSort (ByKey key le)

variable [IsTrans α le] [Std.Total le]

/-- The answer for a batch has the rows of each of its keys in their order. -/
theorem filter_query (rows : List α) (ks : List κ) (k : κ) :
    (query key le rows ks).filter (key · = k) =
      if k ∈ ks then (rows.filter (key · = k)).insertionSort le else [] := by
  unfold query
  rw [filter_insertionSort, List.filter_filter]
  split_ifs with hk
  · have hrows : (rows.filter fun a => decide (key a = k) && decide (key a ∈ ks)) =
        rows.filter (key · = k) := by
      refine List.filter_congr fun a _ => ?_
      by_cases ha : key a = k <;> simp [ha, hk]
    rw [hrows]
    have hsame : ∀ a ∈ rows.filter (key · = k), ∀ b ∈ rows.filter (key · = k),
        ByKey key le a b ↔ le (id a) (id b) := by
      intro a ha b hb
      have hab : key a = key b := by simp_all
      simp [ByKey, hab]
    have hsort := List.map_insertionSort (r := ByKey key le) le id _ hsame
    rwa [List.map_id, List.map_id] at hsort
  · have hnone : (rows.filter fun a => decide (key a = k) && decide (key a ∈ ks)) = [] := by
      refine List.filter_eq_nil_iff.mpr fun a _ hcond => ?_
      obtain ⟨rfl, hmem⟩ : key a = k ∧ key a ∈ ks := by simpa using hcond
      exact hk hmem
    rw [hnone]
    rfl

/-- Batches without the key answer without its rows. -/
theorem filter_flatMap_of_not_mem {bs : List (List κ)} {k : κ} (hk : k ∉ bs.flatten)
    (rows : List α) : (bs.flatMap (query key le rows)).filter (key · = k) = [] := by
  rw [List.filter_flatMap, List.flatMap_eq_nil_iff]
  intro b hb
  rw [filter_query, if_neg fun hmem => hk (List.mem_flatten_of_mem hb hmem)]

/-- Of the batches only the one with the key answers with its rows. -/
theorem filter_flatMap {bs : List (List κ)} (hbs : bs.flatten.Nodup) {k : κ}
    (hk : k ∈ bs.flatten) (rows : List α) :
    (bs.flatMap (query key le rows)).filter (key · = k) =
      (rows.filter (key · = k)).insertionSort le := by
  induction bs with
  | nil => exact absurd hk List.not_mem_nil
  | cons b bs ih =>
    rw [List.flatten_cons] at hbs hk
    obtain ⟨-, hrest, hdisj⟩ := List.nodup_append'.mp hbs
    rw [List.flatMap_cons, List.filter_append, filter_query]
    by_cases hkb : k ∈ b
    · rw [if_pos hkb, filter_flatMap_of_not_mem key le (hdisj hkb), List.append_nil]
    · rw [if_neg hkb, ih hrest ((List.mem_append.mp hk).resolve_left hkb), List.nil_append]

/-- **Batches.** Of all the answers, the rows of one key are those that a query for it alone
returns. -/
theorem filter_flatMap_batches {n : ℕ} (hn : n ≠ 0) {ks : List κ} (hks : ks.Nodup) {k : κ}
    (hk : k ∈ ks) (rows : List α) :
    ((batches n ks).flatMap (query key le rows)).filter (key · = k) =
      (rows.filter (key · = k)).insertionSort le := by
  have hflat := flatten_batches hn ks
  exact filter_flatMap key le (by rwa [hflat]) (by rwa [hflat]) rows

end Query

end Batches
