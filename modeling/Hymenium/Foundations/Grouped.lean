import Mathlib.Data.List.Basic
import Mathlib.Order.Lattice

/-!
# Grouping by key

An ordered map from keys to lists, as a list of entries sorted by key: `insert` appends an element to
the list of its key. `group` inserts the elements of a list one after the other; its groups are the
parts of the list with one key each, in the order of the list.
-/

namespace Grouped

variable {κ α : Type*} [LinearOrder κ]

/-- Append `a` to the list of key `k`. -/
def insert (k : κ) (a : α) : List (κ × List α) → List (κ × List α)
  | [] => [(k, [a])]
  | (k', as) :: rest =>
    if k = k' then (k', as ++ [a]) :: rest
    else if k < k' then (k, [a]) :: (k', as) :: rest
    else (k', as) :: insert k a rest

/-- The elements of a list by key. -/
def group (key : α → κ) (l : List α) : List (κ × List α) :=
  l.foldl (fun groups a => insert (key a) a groups) []

/-- The elements of all groups. -/
def elements (groups : List (κ × List α)) : List α := groups.flatMap Prod.snd

theorem elements_insert (k : κ) (a : α) (groups : List (κ × List α)) :
    (elements (insert k a groups)).Perm (elements groups ++ [a]) := by
  induction groups with
  | nil => simp [insert, elements]
  | cons entry rest ih =>
    obtain ⟨k', as⟩ := entry
    unfold insert
    split_ifs
    · simp only [elements, List.flatMap_cons, List.append_assoc]
      exact (List.perm_append_comm).append_left as
    · simp only [elements, List.flatMap_cons, List.singleton_append]
      exact (List.perm_append_singleton a _).symm
    · simp only [elements, List.flatMap_cons, List.append_assoc] at ih ⊢
      exact ih.append_left as

/-- The entries are sorted by key. -/
def Sorted (groups : List (κ × List α)) : Prop := groups.Pairwise fun e e' => e.1 < e'.1

theorem mem_keys_insert {k x : κ} {a : α} {groups : List (κ × List α)} :
    x ∈ (insert k a groups).map Prod.fst ↔ x = k ∨ x ∈ groups.map Prod.fst := by
  induction groups with
  | nil => simp [insert]
  | cons entry rest ih =>
    obtain ⟨k', as⟩ := entry
    unfold insert
    split_ifs with hk
    · subst hk
      simp
    · simp
    · rw [List.map_cons, List.mem_cons, ih, List.map_cons, List.mem_cons]
      exact or_left_comm

theorem Sorted.insert {groups : List (κ × List α)} (h : Sorted groups) (k : κ) (a : α) :
    Sorted (insert k a groups) := by
  induction groups with
  | nil => simp [Grouped.insert, Sorted]
  | cons entry rest ih =>
    obtain ⟨k', as⟩ := entry
    obtain ⟨hhead, htail⟩ := List.pairwise_cons.mp h
    unfold Grouped.insert
    split_ifs with hk hlt
    · exact List.pairwise_cons.mpr ⟨hhead, htail⟩
    · refine List.pairwise_cons.mpr ⟨fun e he => ?_, h⟩
      rcases List.mem_cons.mp he with rfl | he
      · exact hlt
      · exact lt_trans hlt (hhead e he)
    · refine List.pairwise_cons.mpr ⟨fun e he => ?_, ih htail⟩
      have hkey := mem_keys_insert.mp (List.mem_map_of_mem (f := Prod.fst) he)
      rcases hkey with hkey | hkey
      · exact hkey ▸ lt_of_le_of_ne (not_lt.mp hlt) (Ne.symm hk)
      · obtain ⟨e', he', hkey⟩ := List.mem_map.mp hkey
        exact hkey ▸ hhead e' he'

/-- An entry after `insert` is an entry of another key, or the entry of `k` with `a` appended. -/
theorem Sorted.mem_insert {groups : List (κ × List α)} (h : Sorted groups) {k : κ} {a : α}
    {entry : κ × List α} (hentry : entry ∈ Grouped.insert k a groups) :
    entry ∈ groups ∧ entry.1 ≠ k ∨ entry.1 = k ∧
      ((∃ as, (k, as) ∈ groups ∧ entry.2 = as ++ [a]) ∨
        k ∉ groups.map Prod.fst ∧ entry.2 = [a]) := by
  induction groups with
  | nil =>
    rw [Grouped.insert, List.mem_singleton] at hentry
    subst hentry
    exact .inr ⟨rfl, .inr ⟨List.not_mem_nil, rfl⟩⟩
  | cons e rest ih =>
    obtain ⟨k', as⟩ := e
    obtain ⟨hhead, htail⟩ := List.pairwise_cons.mp h
    unfold Grouped.insert at hentry
    split_ifs at hentry with hk hlt
    · subst hk
      rcases List.mem_cons.mp hentry with rfl | hmem
      · exact .inr ⟨rfl, .inl ⟨as, List.mem_cons_self, rfl⟩⟩
      · exact .inl ⟨List.mem_cons_of_mem _ hmem, (hhead entry hmem).ne'⟩
    · rcases List.mem_cons.mp hentry with rfl | hmem
      · refine .inr ⟨rfl, .inr ⟨fun hkey => ?_, rfl⟩⟩
        rcases List.mem_cons.mp hkey with hkey | hkey
        · exact hk hkey
        · obtain ⟨e', he', hkey⟩ := List.mem_map.mp hkey
          exact lt_asymm hlt (hkey ▸ hhead e' he')
      · refine .inl ⟨hmem, ?_⟩
        rcases List.mem_cons.mp hmem with rfl | hmem
        · exact hlt.ne'
        · exact (lt_trans hlt (hhead entry hmem)).ne'
    · rcases List.mem_cons.mp hentry with rfl | hmem
      · exact .inl ⟨List.mem_cons_self, Ne.symm hk⟩
      · obtain ⟨hold, hne⟩ | ⟨hkey, hnew⟩ := ih htail hmem
        · exact .inl ⟨List.mem_cons_of_mem _ hold, hne⟩
        · refine .inr ⟨hkey, hnew.imp ?_ ?_⟩
          · rintro ⟨as', hmem', has'⟩
            exact ⟨as', List.mem_cons_of_mem _ hmem', has'⟩
          · rintro ⟨hnot, hval⟩
            refine ⟨fun hmem' => ?_, hval⟩
            rcases List.mem_cons.mp hmem' with hmem' | hmem'
            · exact hk hmem'
            · exact hnot hmem'

/-- The groups of a list: sorted by key, and each the part of the list with its key. -/
structure IsGrouping (key : α → κ) (l : List α) (groups : List (κ × List α)) : Prop where
  sorted : Sorted groups
  complete : ∀ a ∈ l, key a ∈ groups.map Prod.fst
  part : ∀ e ∈ groups, e.2 = l.filter fun a => decide (key a = e.1)

theorem IsGrouping.insert {key : α → κ} {l : List α} {groups : List (κ × List α)}
    (h : IsGrouping key l groups) (a : α) :
    IsGrouping key (l ++ [a]) (Grouped.insert (key a) a groups) where
  sorted := h.sorted.insert (key a) a
  complete b hb := by
    rw [mem_keys_insert]
    rcases List.mem_append.mp hb with hb | hb
    · exact .inr (h.complete b hb)
    · rw [List.mem_singleton] at hb
      exact .inl (hb ▸ rfl)
  part e he := by
    obtain ⟨hold, hne⟩ | ⟨hkey, ⟨as, hmem, has⟩ | ⟨hnot, has⟩⟩ := h.sorted.mem_insert he
    · rw [h.part e hold, List.filter_append]
      simp [Ne.symm hne]
    · have hpart : as = l.filter fun b => decide (key b = key a) := h.part _ hmem
      rw [has, List.filter_append, hkey, ← hpart]
      simp
    · have hnil : l.filter (fun b => decide (key b = key a)) = [] := by
        rw [List.filter_eq_nil_iff]
        intro b hb hkey
        exact hnot (of_decide_eq_true hkey ▸ h.complete b hb)
      rw [has, List.filter_append, hkey, hnil]
      simp

theorem isGrouping_group (key : α → κ) (l : List α) : IsGrouping key l (group key l) := by
  suffices h : ∀ l done groups, IsGrouping key done groups →
      IsGrouping key (done ++ l) (l.foldl (fun groups a => Grouped.insert (key a) a groups) groups) by
    refine h l [] [] ⟨List.Pairwise.nil, ?_, ?_⟩
    · intro a ha
      cases ha
    · intro e he
      cases he
  intro l
  induction l with
  | nil =>
    intro done groups h
    simpa using h
  | cons a l ih =>
    intro done groups h
    have := ih (done ++ [a]) _ (h.insert a)
    rwa [List.append_assoc, List.singleton_append] at this

theorem ne_nil_insert (k : κ) (a : α) {groups : List (κ × List α)}
    (h : ∀ e ∈ groups, e.2 ≠ []) : ∀ e ∈ insert k a groups, e.2 ≠ [] := by
  induction groups with
  | nil =>
    intro e he
    rw [insert, List.mem_singleton] at he
    subst he
    exact List.cons_ne_nil a []
  | cons entry rest ih =>
    obtain ⟨k', as⟩ := entry
    obtain ⟨-, hrest⟩ := List.forall_mem_cons.mp h
    unfold insert
    split_ifs
    · exact List.forall_mem_cons.mpr ⟨by simp, hrest⟩
    · exact List.forall_mem_cons.mpr ⟨List.cons_ne_nil a [], h⟩
    · exact List.forall_mem_cons.mpr ⟨h _ List.mem_cons_self, ih hrest⟩

/-- No group is empty. -/
theorem ne_nil_of_mem_group (key : α → κ) (l : List α) : ∀ e ∈ group key l, e.2 ≠ [] := by
  suffices h : ∀ (l : List α) (groups : List (κ × List α)), (∀ e ∈ groups, e.2 ≠ []) → ∀ e ∈
      l.foldl (fun groups a => insert (key a) a groups) groups, e.2 ≠ [] from
    h l [] fun e he => nomatch he
  intro l
  induction l with
  | nil => exact fun groups h => h
  | cons a l ih => exact fun groups h => ih _ (ne_nil_insert (key a) a h)

/-- Looking up a key finds the part of the list with this key. -/
theorem IsGrouping.lookup {key : α → κ} {l : List α} {groups : List (κ × List α)}
    (h : IsGrouping key l groups) (k : κ) :
    (groups.lookup k).getD [] = l.filter fun a => decide (key a = k) := by
  cases hk : groups.lookup k with
  | some as =>
    obtain ⟨pre, post, hgroups, -⟩ := List.lookup_eq_some_iff.mp hk
    have hmem : (k, as) ∈ groups := by simp [hgroups]
    exact h.part (k, as) hmem
  | none =>
    rw [Option.getD_none, eq_comm, List.filter_eq_nil_iff]
    intro a ha hkey
    obtain ⟨e, he, heq⟩ := List.mem_map.mp (h.complete a ha)
    have hne := List.lookup_eq_none_iff.mp hk e he
    rw [heq, of_decide_eq_true hkey] at hne
    simp at hne

/-- Grouping keeps the elements. -/
theorem elements_group (key : α → κ) (l : List α) : (elements (group key l)).Perm l := by
  suffices h : ∀ l groups, (elements
      (l.foldl (fun groups a => insert (key a) a groups) groups)).Perm (elements groups ++ l) from
    h l []
  intro l
  induction l with
  | nil =>
    intro groups
    simp
  | cons a l ih =>
    intro groups
    refine (ih _).trans ?_
    have := (elements_insert (key a) a groups).append_right l
    rwa [List.append_assoc, List.singleton_append] at this

end Grouped
