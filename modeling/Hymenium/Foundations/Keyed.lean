import Mathlib.Data.List.Nodup
import Mathlib.Data.List.Pairwise
import Mathlib.Data.List.Perm.Subperm
import Mathlib.Tactic.SplitIfs

/-!
# Rows with keys

Tables as lists of rows, each row with a key. `find` and `update` read and write the row of one key,
`upsert` writes over the row of its key or appends, `replace` drops the row of its key and appends.

A reader of such a table looks at the rows of one key, or at the rows of one group of keys; the
lemmas say what each write does to both views.
-/

namespace Keyed

variable {ρ κ : Type*} [DecidableEq κ] (key : ρ → κ)

/-- The row with key `k`. -/
def find (k : κ) (rows : List ρ) : Option ρ := rows.find? (key · = k)

/-- Rewrite the rows with key `k`. -/
def update (k : κ) (f : ρ → ρ) (rows : List ρ) : List ρ :=
  rows.map fun r => if key r = k then f r else r

/-- Write `row` over the row of its key, or append it. -/
def upsert (row : ρ) (rows : List ρ) : List ρ :=
  if key row ∈ rows.map key then rows.map fun r => if key r = key row then row else r
  else rows ++ [row]

/-- Upsert rows one after the other. -/
def upsertAll (news rows : List ρ) : List ρ := news.foldl (fun rows row => upsert key row rows) rows

/-- Drop the row of the key of `row`, and append `row`. -/
def replace (row : ρ) (rows : List ρ) : List ρ :=
  rows.filter (fun r => key r ≠ key row) ++ [row]

variable {key}

/-! ## The row of one key -/

theorem find_eq_some {k : κ} {rows : List ρ} {r : ρ} (h : find key k rows = some r) :
    r ∈ rows ∧ key r = k :=
  ⟨List.mem_of_find?_eq_some h, by simpa using List.find?_some h⟩

theorem find_eq_none_iff {k : κ} {rows : List ρ} :
    find key k rows = none ↔ k ∉ rows.map key := by
  simp [find, List.find?_eq_none]

theorem exists_find {k : κ} {rows : List ρ} (h : k ∈ rows.map key) :
    ∃ r, find key k rows = some r := by
  cases hf : find key k rows with
  | none => exact absurd h (find_eq_none_iff.mp hf)
  | some r => exact ⟨r, rfl⟩

theorem find_of_mem {rows : List ρ} (hnodup : (rows.map key).Nodup) {r : ρ} (hr : r ∈ rows) :
    find key (key r) rows = some r := by
  obtain ⟨r', hr'⟩ := exists_find (List.mem_map_of_mem (f := key) hr)
  obtain ⟨hmem, hkey⟩ := find_eq_some hr'
  rw [hr', List.inj_on_of_nodup_map hnodup hmem hr hkey]

theorem find_append_singleton {k : κ} {rows : List ρ} {row : ρ} (h : key row ∉ rows.map key) :
    find key k (rows ++ [row]) = if k = key row then some row else find key k rows := by
  unfold find
  rw [List.find?_append]
  split_ifs with hk
  · subst hk
    have hnone : rows.find? (key · = key row) = none := find_eq_none_iff.mpr h
    simp [hnone]
  · simp [Ne.symm hk]

theorem map_key_update {k : κ} {f : ρ → ρ} (hf : ∀ r, key (f r) = key r) (rows : List ρ) :
    (update key k f rows).map key = rows.map key := by
  rw [update, List.map_map]
  refine List.map_congr_left fun r _ => ?_
  rw [Function.comp_apply]
  split_ifs
  · exact hf r
  · rfl

theorem find_update {k k' : κ} {f : ρ → ρ} (hf : ∀ r, key (f r) = key r) (rows : List ρ) :
    find key k' (update key k f rows) =
      if k' = k then (find key k' rows).map f else find key k' rows := by
  induction rows with
  | nil => simp [find, update]
  | cons r rows ih =>
    unfold find update at ih ⊢
    rw [List.map_cons]
    by_cases hk : key r = k
    · rw [if_pos hk]
      by_cases hk' : key r = k'
      · simp [hf, hk', hk'.symm.trans hk]
      · rw [List.find?_cons_of_neg (by simp [hf, hk']), List.find?_cons_of_neg (by simp [hk']), ih]
    · rw [if_neg hk]
      by_cases hk' : key r = k'
      · rw [List.find?_cons_of_pos (by simp [hk']), List.find?_cons_of_pos (by simp [hk']),
          if_neg fun h => hk (hk'.trans h)]
      · rw [List.find?_cons_of_neg (by simp [hk']), List.find?_cons_of_neg (by simp [hk']), ih]

/-- Writing an idempotent update to one key after the other writes it to all of them at once. -/
theorem foldl_update {f : ρ → ρ} (hf : ∀ r, key (f r) = key r) (hidem : ∀ r, f (f r) = f r)
    (ks : List κ) (rows : List ρ) :
    ks.foldl (fun rows k => update key k f rows) rows =
      rows.map fun r => if key r ∈ ks then f r else r := by
  induction ks generalizing rows with
  | nil => simp
  | cons k ks ih =>
    rw [List.foldl_cons, ih, update, List.map_map]
    refine List.map_congr_left fun r _ => ?_
    rw [Function.comp_apply]
    by_cases hk : key r = k
    · rw [if_pos hk, if_pos (List.mem_cons.mpr (.inl hk)), hf, hidem, ite_self]
    · rw [if_neg hk]
      simp only [List.mem_cons, hk, false_or]

variable (key) in
/-- An update is seen by a group of keys as an update of the group. -/
theorem filter_update {q : κ → Prop} [DecidablePred q] {k : κ} {f : ρ → ρ}
    (hf : ∀ r, key (f r) = key r) (rows : List ρ) :
    (update key k f rows).filter (fun r => q (key r)) =
      update key k f (rows.filter fun r => q (key r)) := by
  induction rows with
  | nil => rfl
  | cons r rows ih =>
    have hkey : key (if key r = k then f r else r) = key r := by
      split_ifs
      · exact hf r
      · rfl
    unfold update at ih ⊢
    rw [List.map_cons, List.filter_cons, List.filter_cons, ih, hkey]
    cases decide (q (key r)) with
    | true => rw [if_pos rfl, if_pos rfl, List.map_cons]
    | false => rw [if_neg Bool.false_ne_true, if_neg Bool.false_ne_true]

/-- A column is unique over the rows that satisfy `p` exactly when two such rows with the same value
have the same key. -/
theorem unique_iff {β : Type*} {p : ρ → Prop} [DecidablePred p] {f : ρ → Option β} {rows : List ρ}
    (hnodup : (rows.map key).Nodup) :
    ((rows.filter p).filterMap f).Nodup ↔
      ∀ a ∈ rows, ∀ b ∈ rows, p a → p b → ∀ v, f a = some v → f b = some v → key a = key b := by
  rw [List.Nodup, List.pairwise_filterMap]
  constructor
  · intro hpair a ha b hb hpa hpb v hva hvb
    by_contra hne
    have hsymm : Std.Symm fun a b : ρ => ∀ v, f a = some v → ∀ w, f b = some w → v ≠ w :=
      ⟨fun a b h v hv w hw => (h w hw v hv).symm⟩
    refine hpair.forall (List.mem_filter.mpr ⟨ha, by simpa using hpa⟩)
      (List.mem_filter.mpr ⟨hb, by simpa using hpb⟩) ?_ v hva v hvb rfl
    rintro rfl
    exact hne rfl
  · intro hall
    have hkeys : rows.Pairwise fun a b => key a ≠ key b := List.pairwise_map.mp hnodup
    refine (hkeys.sublist List.filter_sublist).imp_of_mem ?_
    intro a b ha hb hne v hv w hw hvw
    subst hvw
    rw [List.mem_filter, decide_eq_true_iff] at ha hb
    exact hne (hall a ha.1 b hb.1 ha.2 hb.2 v hv hw)

theorem key_not_mem_filter (row : ρ) (rows : List ρ) :
    key row ∉ (rows.filter fun r => key r ≠ key row).map key := by
  intro h
  obtain ⟨r, hr, hk⟩ := List.mem_map.mp h
  exact absurd hk (by simpa using (List.mem_filter.mp hr).2)

theorem find_replace (k : κ) (row : ρ) (rows : List ρ) :
    find key k (replace key row rows) = if k = key row then some row else find key k rows := by
  rw [replace, find_append_singleton (key_not_mem_filter row rows)]
  split_ifs with hk
  · rfl
  · unfold find
    rw [List.find?_filter]
    congr 1
    funext r
    by_cases hr : key r = k <;> simp [hr, hk]

/-! ## Upserts -/

theorem map_key_upsert (row : ρ) (rows : List ρ) :
    (upsert key row rows).map key =
      if key row ∈ rows.map key then rows.map key else rows.map key ++ [key row] := by
  unfold upsert
  split_ifs with h
  · rw [List.map_map]
    refine List.map_congr_left fun r _ => ?_
    rw [Function.comp_apply]
    split_ifs with hr
    · exact hr.symm
    · rfl
  · simp

theorem nodup_upsert {row : ρ} {rows : List ρ} (h : (rows.map key).Nodup) :
    ((upsert key row rows).map key).Nodup := by
  rw [map_key_upsert]
  split_ifs with hk
  · exact h
  · exact List.Nodup.append h (List.nodup_singleton _) (List.disjoint_singleton.mpr hk)

theorem mem_upsert {row r : ρ} {rows : List ρ} (h : r ∈ upsert key row rows) :
    r = row ∨ r ∈ rows ∧ key r ≠ key row := by
  unfold upsert at h
  split_ifs at h with hk
  · obtain ⟨r', hr', rfl⟩ := List.mem_map.mp h
    split_ifs with heq
    · exact .inl rfl
    · exact .inr ⟨hr', heq⟩
  · rcases List.mem_append.mp h with hr | hr
    · refine .inr ⟨hr, fun heq => hk ?_⟩
      rw [← heq]
      exact List.mem_map_of_mem hr
    · exact .inl (List.mem_singleton.mp hr)

/-- An upsert outside a group of keys is not seen by the group. -/
theorem find_upsert_self (row : ρ) (rows : List ρ) :
    find key (key row) (upsert key row rows) = some row := by
  unfold upsert
  split_ifs with h
  · induction rows with
    | nil => cases h
    | cons r rows ih =>
      by_cases hr : key r = key row
      · simp [find, hr]
      · have hrest := ih ((List.mem_cons.mp h).resolve_left (Ne.symm hr))
        simpa [find, hr] using hrest
  · exact (find_append_singleton h).trans (if_pos rfl)

theorem filter_upsert_of_neg {q : κ → Prop} [DecidablePred q] {row : ρ} (hq : ¬ q (key row))
    (rows : List ρ) :
    (upsert key row rows).filter (fun r => q (key r)) = rows.filter fun r => q (key r) := by
  unfold upsert
  split_ifs with hk
  · clear hk
    induction rows with
    | nil => rfl
    | cons r rows ih =>
      rw [List.map_cons, List.filter_cons, List.filter_cons, ih]
      by_cases hr : key r = key row
      · rw [if_pos hr, hr, if_neg (by simpa using hq), if_neg (by simpa using hq)]
      · rw [if_neg hr]
  · rw [List.filter_append]
    simp [hq]

/-- An upsert inside a group of keys is an upsert into the group. -/
theorem filter_upsert_of_pos {q : κ → Prop} [DecidablePred q] {row : ρ} (hq : q (key row))
    (rows : List ρ) :
    (upsert key row rows).filter (fun r => q (key r)) =
      upsert key row (rows.filter fun r => q (key r)) := by
  have hmem : key row ∈ (rows.filter fun r => q (key r)).map key ↔ key row ∈ rows.map key := by
    simp only [List.mem_map, List.mem_filter, decide_eq_true_eq]
    constructor
    · rintro ⟨r, ⟨hr, -⟩, hk⟩
      exact ⟨r, hr, hk⟩
    · rintro ⟨r, hr, hk⟩
      exact ⟨r, ⟨hr, by rw [hk]; exact hq⟩, hk⟩
  unfold upsert
  simp only [hmem]
  split_ifs with hk
  · clear hk hmem
    induction rows with
    | nil => rfl
    | cons r rows ih =>
      rw [List.map_cons, List.filter_cons, List.filter_cons, ih]
      by_cases hr : key r = key row
      · rw [if_pos hr, hr, if_pos (by simpa using hq), if_pos (by simpa using hq), List.map_cons,
          if_pos hr]
      · rw [if_neg hr]
        split_ifs
        · rw [List.map_cons, if_neg hr]
        · rfl
  · rw [List.filter_append]
    simp [hq]

/-- The row of a key in the middle of the list is written over where it stands. -/
theorem upsert_middle {done old : List ρ} {r row : ρ} (hk : key r = key row)
    (hdone : key row ∉ done.map key) (hold : key row ∉ old.map key) :
    upsert key row (done ++ r :: old) = done ++ row :: old := by
  have hkeep : ∀ l : List ρ, key row ∉ l.map key →
      (l.map fun r => if key r = key row then row else r) = l := by
    intro l hl
    refine (List.map_congr_left fun r hr => ?_).trans (List.map_id l)
    refine if_neg fun h : key r = key row => hl ?_
    rw [← h]
    exact List.mem_map_of_mem hr
  have hmem : key row ∈ (done ++ r :: old).map key := by simp [hk]
  rw [upsert, if_pos hmem, List.map_append, List.map_cons, if_pos hk, hkeep done hdone,
    hkeep old hold]

theorem upsert_cons_of_ne {r row : ρ} (h : key r ≠ key row) (rows : List ρ) :
    upsert key row (r :: rows) = r :: upsert key row rows := by
  have hmem : key row ∈ (r :: rows).map key ↔ key row ∈ rows.map key := by
    rw [List.map_cons, List.mem_cons]
    exact or_iff_right h.symm
  unfold upsert
  simp only [hmem]
  split_ifs
  · rw [List.map_cons, if_neg h]
  · rfl

/-- Upserting one row for each key, in the order of the keys, puts the new rows in place of the
old ones. -/
theorem upsertAll_over {news rows : List ρ} (hkeys : rows.map key = news.map key)
    (hnodup : (news.map key).Nodup) : upsertAll key news rows = news := by
  suffices h : ∀ (news old done : List ρ), old.map key = news.map key →
      ((done ++ news).map key).Nodup → upsertAll key news (done ++ old) = done ++ news by
    exact h news rows [] hkeys hnodup
  intro news
  induction news with
  | nil =>
    intro old done hold _
    rw [List.map_eq_nil_iff.mp hold]
    rfl
  | cons row news ih =>
    intro old done hold hnd
    obtain ⟨r, old, rfl⟩ : ∃ r old', old = r :: old' := by
      cases old with
      | nil => cases hold
      | cons r old => exact ⟨r, old, rfl⟩
    rw [List.map_cons, List.map_cons, List.cons.injEq] at hold
    have hsplit := hnd
    rw [List.map_append, List.map_cons, List.nodup_middle, List.nodup_cons, List.mem_append,
      not_or] at hsplit
    have hstep : upsert key row (done ++ r :: old) = (done ++ [row]) ++ old := by
      rw [upsert_middle hold.1 hsplit.1.1 (by rw [hold.2]; exact hsplit.1.2), List.append_assoc]
      rfl
    have hrest := ih old (done ++ [row]) hold.2 (by simpa using hnd)
    rw [upsertAll, List.foldl_cons, hstep, ← upsertAll, hrest, List.append_assoc]
    rfl

theorem map_key_upsertAll {news rows : List ρ} (h : ∀ row ∈ news, key row ∈ rows.map key) :
    (upsertAll key news rows).map key = rows.map key := by
  induction news generalizing rows with
  | nil => rfl
  | cons row news ih =>
    have hstep : (upsert key row rows).map key = rows.map key := by
      rw [map_key_upsert, if_pos (h row List.mem_cons_self)]
    have hrest : ∀ row' ∈ news, key row' ∈ (upsert key row rows).map key := by
      rw [hstep]
      exact fun row' hrow' => h row' (List.mem_cons_of_mem _ hrow')
    exact (ih hrest).trans hstep

/-- A row after upserts is one of the new ones, or an old one whose key was not written. -/
theorem mem_upsertAll {news rows : List ρ} {r : ρ} (h : r ∈ upsertAll key news rows) :
    r ∈ news ∨ r ∈ rows ∧ key r ∉ news.map key := by
  induction news generalizing rows with
  | nil => exact .inr ⟨h, List.not_mem_nil⟩
  | cons row news ih =>
    rcases ih h with hnew | ⟨hold, hnot⟩
    · exact .inl (List.mem_cons_of_mem _ hnew)
    rcases mem_upsert hold with rfl | ⟨hrows, hne⟩
    · exact .inl List.mem_cons_self
    · refine .inr ⟨hrows, ?_⟩
      rw [List.map_cons, List.mem_cons, not_or]
      exact ⟨hne, hnot⟩

/-- Upserting one row for each key, in any order, leaves the new rows. -/
theorem upsertAll_perm {news rows : List ρ} (hkeys : (rows.map key).Perm (news.map key))
    (hnodup : (news.map key).Nodup) : (upsertAll key news rows).Perm news := by
  have hmap : (upsertAll key news rows).map key = rows.map key :=
    map_key_upsertAll fun row hrow => hkeys.mem_iff.mpr (List.mem_map_of_mem hrow)
  have hsub : upsertAll key news rows ⊆ news := by
    intro r hr
    rcases mem_upsertAll hr with hnew | ⟨hold, hnot⟩
    · exact hnew
    · exact absurd (hkeys.mem_iff.mp (List.mem_map_of_mem hold)) hnot
  have hlength : news.length = (upsertAll key news rows).length := by
    have hlen := (congrArg List.length hmap).trans hkeys.length_eq
    rw [List.length_map, List.length_map] at hlen
    exact hlen.symm
  have hdistinct : (upsertAll key news rows).Nodup := by
    apply List.Nodup.of_map key
    rw [hmap]
    exact hkeys.nodup_iff.mpr hnodup
  exact (List.subperm_of_subset hdistinct hsub).perm_of_length_le (Nat.le_of_eq hlength)

/-- Upserting rows with fresh keys appends them. -/
theorem upsertAll_fresh {news rows : List ρ} (hnodup : ((rows ++ news).map key).Nodup) :
    upsertAll key news rows = rows ++ news := by
  induction news generalizing rows with
  | nil => rw [List.append_nil]; rfl
  | cons row news ih =>
    have hsplit := hnodup
    rw [List.map_append, List.map_cons, List.nodup_middle, List.nodup_cons, List.mem_append,
      not_or] at hsplit
    have hstep : upsert key row rows = rows ++ [row] := if_neg hsplit.1.1
    have hrest := @ih (rows ++ [row]) (by simpa using hnodup)
    rw [upsertAll, List.foldl_cons, hstep, ← upsertAll, hrest, List.append_assoc]
    rfl

variable (key) in
theorem filter_upsertAll_of_neg {q : κ → Prop} [DecidablePred q] {news : List ρ}
    (hq : ∀ row ∈ news, ¬ q (key row)) (rows : List ρ) :
    (upsertAll key news rows).filter (fun r => q (key r)) = rows.filter fun r => q (key r) := by
  induction news generalizing rows with
  | nil => rfl
  | cons row news ih =>
    rw [upsertAll, List.foldl_cons, ← upsertAll, ih fun r hr => hq r (List.mem_cons_of_mem _ hr)]
    exact filter_upsert_of_neg (hq row List.mem_cons_self) rows

variable (key) in
theorem filter_upsertAll_of_pos {q : κ → Prop} [DecidablePred q] {news : List ρ}
    (hq : ∀ row ∈ news, q (key row)) (rows : List ρ) :
    (upsertAll key news rows).filter (fun r => q (key r)) =
      upsertAll key news (rows.filter fun r => q (key r)) := by
  induction news generalizing rows with
  | nil => rfl
  | cons row news ih =>
    rw [upsertAll, List.foldl_cons, ← upsertAll, ih fun r hr => hq r (List.mem_cons_of_mem _ hr),
      filter_upsert_of_pos (hq row List.mem_cons_self)]
    rfl

end Keyed
