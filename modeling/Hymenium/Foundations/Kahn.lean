import Mathlib.Algebra.BigOperators.Group.List.Basic
import Mathlib.Algebra.Ring.Nat
import Mathlib.Data.Finset.Card
import Mathlib.Data.List.Dedup
import Mathlib.Logic.Relation

/-!
# Kahn's algorithm on a finite multigraph

The algorithm keeps the list of nodes taken so far and a queue of nodes whose predecessors have all
been taken. Taking `u` enqueues every entry of `succs u` that has become ready, once per entry: a
successor listed twice is enqueued twice.

The nodes taken are exactly the accessible nodes of the edge relation, each after all its
predecessors (`mem_sort_iff`, `sorted_sort`). They are pairwise distinct exactly when no turn of the
sort of the simple graph releases a node twice (`nodup_sort_iff`).
-/

open Relation

/-- A finite directed multigraph: `succs` and `preds` list the ends of the edges. -/
structure Multigraph (α : Type*) where
  nodes : List α
  succs : α → List α
  preds : α → List α
  mem_iff : ∀ u v, v ∈ succs u ↔ u ∈ preds v
  closed : ∀ u v, u ∈ preds v → u ∈ nodes ∧ v ∈ nodes

namespace Multigraph

variable {α : Type*}

/-! ## Edges and sorted lists -/

/-- There is an edge from `u` to `v`. -/
def Edge (G : Multigraph α) (u v : α) : Prop := u ∈ G.preds v

/-- Every predecessor of `v` is in `order`. -/
def Ready (G : Multigraph α) (order : List α) (v : α) : Prop := ∀ p ∈ G.preds v, p ∈ order

/-- Every entry of `order` comes after all its predecessors. -/
def Sorted (G : Multigraph α) (order : List α) : Prop :=
  ∀ l₁ v l₂, order = l₁ ++ v :: l₂ → G.Ready l₁ v

section Sorted

variable {G : Multigraph α}

theorem Ready.mono {o o' : List α} {v : α} (h : G.Ready o v) (ho : o ⊆ o') : G.Ready o' v :=
  fun p hp => ho (h p hp)

theorem sorted_snoc {order : List α} {u : α} (h : G.Sorted order) (hu : G.Ready order u) :
    G.Sorted (order ++ [u]) := by
  intro l₁ v l₂ heq
  rcases List.eq_nil_or_concat l₂ with rfl | ⟨l₂', z, rfl⟩
  · obtain ⟨rfl, hv⟩ := List.append_inj' heq rfl
    obtain rfl : u = v := by simpa using hv
    exact hu
  · have heq' : order ++ [u] = (l₁ ++ v :: l₂') ++ [z] := by
      rw [heq, List.append_assoc, List.cons_append, List.concat_eq_append]
    exact h l₁ v l₂' (List.append_inj' heq' rfl).1

theorem not_self_of_acc {r : α → α → Prop} {x : α} (h : Acc r x) : ¬ r x x := by
  induction h with
  | intro x _ ih => exact fun hx => ih x hx hx

/-- The entries of a sorted list are accessible. -/
theorem Sorted.acc {order : List α} (h : G.Sorted order) {v : α} (hv : v ∈ order) :
    Acc G.Edge v := by
  obtain ⟨l₁, l₂, heq⟩ := List.append_of_mem hv
  induction hn : l₁.length using Nat.strong_induction_on generalizing v l₁ l₂ with
  | _ n ih =>
    refine Acc.intro v fun p hp => ?_
    have hp₁ : p ∈ l₁ := h l₁ v l₂ heq p hp
    obtain ⟨m₁, m₂, rfl⟩ := List.append_of_mem hp₁
    refine ih m₁.length ?_ (by rw [heq]; simp) m₁ (m₂ ++ v :: l₂) (by rw [heq]; simp) rfl
    rw [← hn]
    simp

/-- What holds after every turn. -/
structure Inv (G : Multigraph α) (order queue : List α) : Prop where
  nodes : ∀ v ∈ order ++ queue, v ∈ G.nodes
  sorted : G.Sorted order
  ready : ∀ v ∈ queue, G.Ready order v
  complete : ∀ v ∈ G.nodes, G.Ready order v → v ∈ order ++ queue

theorem Inv.acc {order queue : List α} (h : G.Inv order queue) {v : α}
    (hv : v ∈ order ++ queue) : Acc G.Edge v := by
  rcases List.mem_append.mp hv with ho | hq
  · exact h.sorted.acc ho
  · exact Acc.intro v fun p hp => h.sorted.acc (h.ready v hq p hp)

theorem Inv.mem_of_acc {order : List α} (h : G.Inv order []) {v : α} (hacc : Acc G.Edge v)
    (hv : v ∈ G.nodes) : v ∈ order := by
  induction hacc with
  | intro v _ ih =>
    have hr : G.Ready order v := fun p hp => ih p hp (G.closed p v hp).1
    simpa using h.complete v hv hr

end Sorted

/-! ## The algorithm -/

variable [DecidableEq α] (G : Multigraph α)

instance (order : List α) : DecidablePred (G.Ready order) :=
  fun _ => inferInstanceAs (Decidable (∀ _ ∈ _, _))

/-- The nodes enqueued when `u`, the last entry of `order`, is taken. -/
def release (order : List α) (u : α) : List α := (G.succs u).filter (G.Ready order)

/-- The loop: nodes taken and queue after at most `fuel` turns. -/
def turns : ℕ → List α → List α → List α × List α
  | 0, order, queue => (order, queue)
  | _ + 1, order, [] => (order, [])
  | fuel + 1, order, u :: queue =>
    turns fuel (order ++ [u]) (queue ++ G.release (order ++ [u]) u)

/-- The queue at the start: the nodes without predecessors. -/
def sources : List α := G.nodes.filter (G.Ready [])

/-- A number of turns that empties the queue when no node has more than `d` successors. -/
def fuel (d : ℕ) : ℕ := G.nodes.length * (d + 1) ^ G.nodes.length

/-- The nodes in the order the algorithm takes them. -/
def sort (d : ℕ) : List α := (G.turns (G.fuel d) [] G.sources).1

variable {G}

/-! ## The invariant of the loop -/

theorem mem_release {order : List α} {u v : α} :
    v ∈ G.release order u ↔ v ∈ G.succs u ∧ G.Ready order v := by
  simp [release]

theorem inv_sources : G.Inv [] G.sources where
  nodes v hv := by
    simp only [List.nil_append, sources, List.mem_filter] at hv
    exact hv.1
  sorted l₁ v l₂ heq := by simp at heq
  ready v hv := by
    simp only [sources, List.mem_filter, decide_eq_true_eq] at hv
    exact hv.2
  complete v hv hr := by simp [sources, hv, hr]

theorem Inv.turn {order queue : List α} {u : α} (h : G.Inv order (u :: queue)) :
    G.Inv (order ++ [u]) (queue ++ G.release (order ++ [u]) u) where
  nodes v hv := by
    simp only [List.mem_append, List.mem_singleton, mem_release] at hv
    rcases hv with (hv | rfl) | hv | ⟨hs, -⟩
    · exact h.nodes v (by simp [hv])
    · exact h.nodes v (by simp)
    · exact h.nodes v (by simp [hv])
    · exact (G.closed u v ((G.mem_iff u v).mp hs)).2
  sorted := sorted_snoc h.sorted (h.ready u (by simp))
  ready v hv := by
    rcases List.mem_append.mp hv with hq | hr
    · exact (h.ready v (by simp [hq])).mono (by simp)
    · exact (mem_release.mp hr).2
  complete v hv hr := by
    by_cases hu : u ∈ G.preds v
    · have : v ∈ G.release (order ++ [u]) u := mem_release.mpr ⟨(G.mem_iff u v).mpr hu, hr⟩
      simp [this]
    · have hold : G.Ready order v := by
        intro p hp
        rcases List.mem_append.mp (hr p hp) with ho | hpu
        · exact ho
        · exact absurd (List.mem_singleton.mp hpu ▸ hp) hu
      have := h.complete v hv hold
      simp only [List.mem_append, List.mem_cons] at this
      rcases this with ho | rfl | hq
      · simp [ho]
      · simp
      · simp [hq]

theorem Inv.turns {order queue : List α} (h : G.Inv order queue) (fuel : ℕ) :
    G.Inv (G.turns fuel order queue).1 (G.turns fuel order queue).2 := by
  induction fuel generalizing order queue with
  | zero => exact h
  | succ fuel ih =>
    cases queue with
    | nil => exact h
    | cons u queue => exact ih h.turn

/-! ## Enough turns -/

section Fuel

open Classical in
/-- The number of nodes from which there is a path to `v`. -/
noncomputable def ancestors (G : Multigraph α) (v : α) : ℕ :=
  (G.nodes.toFinset.filter fun u => TransGen G.Edge u v).card

theorem ancestors_lt_length {v : α} (h : ¬ TransGen G.Edge v v) (hv : v ∈ G.nodes) :
    G.ancestors v < G.nodes.length := by
  classical
  unfold ancestors
  refine lt_of_lt_of_le (Finset.card_lt_card ?_) (List.toFinset_card_le G.nodes)
  refine ⟨Finset.filter_subset _ _, fun hsub => ?_⟩
  exact h (Finset.mem_filter.mp (hsub (List.mem_toFinset.mpr hv))).2

theorem ancestors_lt_of_edge {u v : α} (h : ¬ TransGen G.Edge u u) (he : G.Edge u v) :
    G.ancestors u < G.ancestors v := by
  classical
  unfold ancestors
  refine Finset.card_lt_card ⟨fun w hw => ?_, fun hsub => ?_⟩
  · have hw' := Finset.mem_filter.mp hw
    exact Finset.mem_filter.mpr ⟨hw'.1, hw'.2.tail he⟩
  · have hu : u ∈ G.nodes.toFinset.filter fun w => TransGen G.Edge w v :=
      Finset.mem_filter.mpr ⟨List.mem_toFinset.mpr (G.closed u v he).1, .single he⟩
    exact h (Finset.mem_filter.mp (hsub hu)).2

/-- Without cycles the edge relation is well-founded. -/
theorem wellFounded_of_acyclic (h : ∀ v, ¬ TransGen G.Edge v v) : WellFounded G.Edge :=
  Subrelation.wf (fun {_ _} he => ancestors_lt_of_edge (h _) he)
    (InvImage.wf G.ancestors Nat.lt_wfRel.wf)

/-- The turns still ahead, over-counted: a queue entry stands for all paths that leave it. -/
noncomputable def potential (G : Multigraph α) (d : ℕ) (queue : List α) : ℕ :=
  (queue.map fun v => (d + 1) ^ (G.nodes.length - G.ancestors v)).sum

theorem potential_append (d : ℕ) (l l' : List α) :
    G.potential d (l ++ l') = G.potential d l + G.potential d l' := by
  simp [potential]

theorem potential_le (d k : ℕ) {queue : List α}
    (h : ∀ v ∈ queue, G.nodes.length - G.ancestors v ≤ k) :
    G.potential d queue ≤ queue.length * (d + 1) ^ k := by
  induction queue with
  | nil => simp [potential]
  | cons v queue ih =>
    have hv : (d + 1) ^ (G.nodes.length - G.ancestors v) ≤ (d + 1) ^ k :=
      Nat.pow_le_pow_right (by omega) (h v (by simp))
    have hq := ih fun w hw => h w (by simp [hw])
    unfold potential at hq ⊢
    rw [List.map_cons, List.sum_cons, List.length_cons, Nat.add_mul, Nat.one_mul]
    omega

/-- A turn lowers the potential: `u` counts more than all it releases together. -/
theorem Inv.potential_turn {d : ℕ} {order queue : List α} {u : α}
    (h : G.Inv order (u :: queue)) (hd : (G.succs u).length ≤ d) :
    G.potential d (queue ++ G.release (order ++ [u]) u) < G.potential d (u :: queue) := by
  have hirr : ¬ TransGen G.Edge u u :=
    not_self_of_acc (h.acc (v := u) (by simp)).transGen
  have hlt := ancestors_lt_length hirr (h.nodes u (by simp))
  obtain ⟨k, hk⟩ : ∃ k, G.nodes.length - G.ancestors u = k + 1 :=
    ⟨G.nodes.length - G.ancestors u - 1, by omega⟩
  have hrel : G.potential d (G.release (order ++ [u]) u) ≤ d * (d + 1) ^ k := by
    refine (potential_le d k fun v hv => ?_).trans (Nat.mul_le_mul_right _ ?_)
    · have := ancestors_lt_of_edge hirr ((G.mem_iff u v).mp (mem_release.mp hv).1)
      omega
    · exact (List.length_filter_le _ _).trans hd
  have hu : G.potential d (u :: queue) = (d + 1) ^ (k + 1) + G.potential d queue := by
    simp [potential, hk]
  have hpow : (d + 1) ^ (k + 1) = d * (d + 1) ^ k + (d + 1) ^ k := by
    rw [pow_succ, Nat.mul_comm, Nat.add_mul, Nat.one_mul]
  have hpos : 0 < (d + 1) ^ k := Nat.pow_pos (by omega)
  rw [potential_append, hu, hpow]
  omega

theorem Inv.turns_queue {d : ℕ} (hd : ∀ u, (G.succs u).length ≤ d) {order queue : List α}
    (h : G.Inv order queue) {fuel : ℕ} (hfuel : G.potential d queue ≤ fuel) :
    (G.turns fuel order queue).2 = [] := by
  induction fuel generalizing order queue with
  | zero =>
    cases queue with
    | nil => rfl
    | cons u queue =>
      have hpos : 0 < (d + 1) ^ (G.nodes.length - G.ancestors u) := Nat.pow_pos (by omega)
      simp only [potential, List.map_cons, List.sum_cons] at hfuel
      omega
  | succ fuel ih =>
    cases queue with
    | nil => rfl
    | cons u queue => exact ih h.turn (by have := h.potential_turn (hd u); omega)

/-- The sort ends: after `fuel d` turns the queue is empty. -/
theorem turns_fuel {d : ℕ} (hd : ∀ u, (G.succs u).length ≤ d) :
    (G.turns (G.fuel d) [] G.sources).2 = [] := by
  refine inv_sources.turns_queue hd ?_
  refine (potential_le d G.nodes.length fun v _ => Nat.sub_le _ _).trans ?_
  exact Nat.mul_le_mul_right _ (List.length_filter_le _ _)

end Fuel

/-! ## What the sort returns -/

theorem turns_add {fuel : ℕ} {order queue : List α} (h : (G.turns fuel order queue).2 = [])
    (k : ℕ) : G.turns (fuel + k) order queue = G.turns fuel order queue := by
  induction fuel generalizing order queue with
  | zero =>
    obtain rfl : queue = [] := h
    cases k <;> simp [turns]
  | succ fuel ih =>
    rw [Nat.add_right_comm]
    cases queue with
    | nil => rfl
    | cons u queue => exact ih h

/-- Any two degree bounds give the same sort. -/
theorem sort_eq_sort {d d' : ℕ} (hd : ∀ u, (G.succs u).length ≤ d)
    (hd' : ∀ u, (G.succs u).length ≤ d') : G.sort d = G.sort d' := by
  have h := turns_add (turns_fuel hd) (G.fuel d')
  have h' := turns_add (turns_fuel hd') (G.fuel d)
  rw [Nat.add_comm] at h'
  exact congrArg Prod.fst (h.symm.trans h')

section Result

variable {d : ℕ} (hd : ∀ u, (G.succs u).length ≤ d)

include hd in
theorem inv_sort : G.Inv (G.sort d) [] := by
  have h := (inv_sources (G := G)).turns (G.fuel d)
  rw [turns_fuel hd] at h
  exact h

include hd in
theorem sorted_sort : G.Sorted (G.sort d) := (inv_sort hd).sorted

include hd in
/-- The sort takes the accessible nodes. -/
theorem mem_sort_iff {v : α} : v ∈ G.sort d ↔ v ∈ G.nodes ∧ Acc G.Edge v :=
  ⟨fun hv => ⟨(inv_sort hd).nodes v (by simpa using hv), (sorted_sort hd).acc hv⟩,
    fun ⟨hv, hacc⟩ => (inv_sort hd).mem_of_acc hacc hv⟩

include hd in
/-- The sort takes every node exactly when there is no cycle. -/
theorem sort_complete_iff :
    (∀ v ∈ G.nodes, v ∈ G.sort d) ↔ ∀ v, ¬ TransGen G.Edge v v := by
  constructor
  · intro h v hcycle
    obtain ⟨w, -, hw⟩ := TransGen.tail'_iff.mp hcycle
    have hacc := ((mem_sort_iff hd).mp (h v (G.closed w v hw).2)).2
    exact not_self_of_acc hacc.transGen hcycle
  · intro h v hv
    exact (mem_sort_iff hd).mpr ⟨hv, (wellFounded_of_acyclic h).apply v⟩

end Result

/-! ## Repetitions -/

section Repetitions

/-- The multigraph with one copy of every edge. -/
def simple (G : Multigraph α) : Multigraph α :=
  { G with
    succs := fun u => (G.succs u).dedup
    mem_iff := fun u v => List.mem_dedup.trans (G.mem_iff u v) }

/-- No turn of a sort with this result releases a node twice. -/
def Quiet (G : Multigraph α) (order : List α) : Prop :=
  ∀ l₁ u l₂, order = l₁ ++ u :: l₂ → (G.release (l₁ ++ [u]) u).Nodup

theorem quiet_simple (order : List α) : G.simple.Quiet order :=
  fun _ u _ _ => (List.nodup_dedup (G.succs u)).filter _

theorem filter_dedup_of_nodup {p : α → Bool} {l : List α} (h : (l.filter p).Nodup) :
    l.dedup.filter p = l.filter p := by
  induction l with
  | nil => rfl
  | cons v l ih =>
    by_cases hv : p v = true
    · rw [List.filter_cons_of_pos hv, List.nodup_cons] at h
      have hnot : v ∉ l := fun hm => h.1 (List.mem_filter.mpr ⟨hm, hv⟩)
      rw [List.dedup_cons_of_notMem hnot, List.filter_cons_of_pos hv,
        List.filter_cons_of_pos hv, ih h.2]
    · rw [List.filter_cons_of_neg hv] at h ⊢
      by_cases hm : v ∈ l
      · rw [List.dedup_cons_of_mem hm, ih h]
      · rw [List.dedup_cons_of_notMem hm, List.filter_cons_of_neg hv, ih h]

/-- A turn that releases nothing twice does what it does on the simple graph. -/
theorem release_eq_of_nodup {order : List α} {u : α} (h : (G.release order u).Nodup) :
    G.simple.release order u = G.release order u :=
  filter_dedup_of_nodup h

theorem turns_order_prefix (fuel : ℕ) (order queue : List α) :
    order <+: (G.turns fuel order queue).1 := by
  induction fuel generalizing order queue with
  | zero => exact List.prefix_refl order
  | succ fuel ih =>
    cases queue with
    | nil => exact List.prefix_refl order
    | cons u queue => exact (List.prefix_append order [u]).trans (ih _ _)

/-- The queue is first in, first out: what is enqueued is taken in this order. -/
theorem turns_prefix (fuel : ℕ) (order queue : List α) :
    order ++ queue <+: (G.turns fuel order queue).1 ++ (G.turns fuel order queue).2 := by
  induction fuel generalizing order queue with
  | zero => exact List.prefix_refl _
  | succ fuel ih =>
    cases queue with
    | nil => exact List.prefix_refl _
    | cons u queue =>
      refine List.IsPrefix.trans ?_ (ih (order ++ [u]) (queue ++ G.release (order ++ [u]) u))
      exact ⟨G.release (order ++ [u]) u, by simp⟩

theorem turns_cons (fuel : ℕ) (order queue : List α) (u : α) :
    ∃ l, (G.turns (fuel + 1) order (u :: queue)).1 = order ++ u :: l := by
  obtain ⟨l, hl⟩ := G.turns_order_prefix fuel (order ++ [u])
    (queue ++ G.release (order ++ [u]) u)
  refine ⟨l, ?_⟩
  show (G.turns fuel _ _).1 = _
  rw [← hl, List.append_assoc]
  rfl

/-- Two multigraphs that release the same nodes along a sort have the same sort. -/
theorem turns_congr {H : Multigraph α} {fuel : ℕ} {order queue : List α}
    (h : ∀ l₁ u l₂, (G.turns fuel order queue).1 = l₁ ++ u :: l₂ →
      G.release (l₁ ++ [u]) u = H.release (l₁ ++ [u]) u) :
    G.turns fuel order queue = H.turns fuel order queue := by
  induction fuel generalizing order queue with
  | zero => rfl
  | succ fuel ih =>
    cases queue with
    | nil => rfl
    | cons u queue =>
      obtain ⟨l, hl⟩ := G.turns_cons fuel order queue u
      have hrel := h order u l hl
      show G.turns fuel _ _ = H.turns fuel _ _
      rw [← hrel]
      exact ih h

/-- The sort reads the predecessors as a set. -/
theorem sort_congr {H : Multigraph α} {d : ℕ} (hnodes : G.nodes = H.nodes)
    (hsuccs : G.succs = H.succs) : G.sort d = H.sort d := by
  have hmem : ∀ u v, u ∈ G.preds v ↔ u ∈ H.preds v := fun u v => by
    rw [← G.mem_iff, ← H.mem_iff, hsuccs]
  have hready : ∀ order, G.Ready order = H.Ready order := by
    intro order
    funext v
    simp only [Ready, hmem]
  have hrelease : ∀ order u, G.release order u = H.release order u := by
    intro order u
    unfold release
    simp only [hsuccs, hready]
  have hsources : G.sources = H.sources := by
    unfold sources
    simp only [hnodes, hready]
  unfold sort fuel
  rw [hsources, hnodes, turns_congr fun _ _ _ _ => hrelease _ _]

/-- A quiet sort takes no node twice. -/
theorem Inv.nodup_turns {fuel : ℕ} {order queue : List α} (hinv : G.Inv order queue)
    (hnodup : (order ++ queue).Nodup) (h : G.Quiet (G.turns fuel order queue).1) :
    ((G.turns fuel order queue).1 ++ (G.turns fuel order queue).2).Nodup := by
  induction fuel generalizing order queue with
  | zero => exact hnodup
  | succ fuel ih =>
    cases queue with
    | nil => exact hnodup
    | cons u queue =>
      obtain ⟨l, hl⟩ := G.turns_cons fuel order queue u
      have hrel : (G.release (order ++ [u]) u).Nodup := h order u l hl
      refine ih hinv.turn ?_ h
      have heq : order ++ [u] ++ (queue ++ G.release (order ++ [u]) u) =
          (order ++ u :: queue) ++ G.release (order ++ [u]) u := by simp
      rw [heq, List.nodup_append']
      refine ⟨hnodup, hrel, ?_⟩
      -- a released node has the predecessor `u`, which was not taken before
      intro v hv hvr
      have huv : u ∈ G.preds v := (G.mem_iff u v).mp (mem_release.mp hvr).1
      have hu : u ∉ order := by
        intro hu
        exact (List.disjoint_of_nodup_append hnodup) hu (by simp)
      have hready : G.Ready order v := by
        rcases List.mem_append.mp hv with ho | hq
        · obtain ⟨l₁, l₂, hsplit⟩ := List.append_of_mem ho
          exact (hinv.sorted l₁ v l₂ hsplit).mono (by rw [hsplit]; simp)
        · exact hinv.ready v hq
      exact hu (hready u huv)

/-- What a turn releases is part of the result. -/
theorem release_sublist {fuel : ℕ} {order queue l₁ l₂ : List α} {u : α}
    (hdone : (G.turns fuel order queue).2 = [])
    (h : (G.turns fuel order queue).1 = l₁ ++ u :: l₂) (hle : order.length ≤ l₁.length) :
    (G.release (l₁ ++ [u]) u).Sublist (l₁ ++ u :: l₂) := by
  induction fuel generalizing order queue with
  | zero =>
    have hlen : order.length = l₁.length + (l₂.length + 1) := by
      have : order = l₁ ++ u :: l₂ := h
      simp [this]
    omega
  | succ fuel ih =>
    cases queue with
    | nil =>
      have hlen : order.length = l₁.length + (l₂.length + 1) := by
        have : order = l₁ ++ u :: l₂ := h
        simp [this]
      omega
    | cons w queue =>
      change (G.turns fuel _ _).2 = [] at hdone
      change (G.turns fuel _ _).1 = _ at h
      by_cases hlt : order.length < l₁.length
      · exact ih hdone h (by rw [List.length_append, List.length_singleton]; omega)
      · -- this is the turn of `u`
        obtain ⟨t, ht⟩ := G.turns_prefix fuel (order ++ [w])
          (queue ++ G.release (order ++ [w]) w)
        rw [hdone, List.append_nil, h] at ht
        have hsplit : order ++ w :: (queue ++ G.release (order ++ [w]) w ++ t) =
            l₁ ++ u :: l₂ := by rw [← ht]; simp
        obtain ⟨rfl, hrest⟩ := List.append_inj hsplit (by omega)
        obtain ⟨rfl, rfl⟩ := List.cons.inj hrest
        refine List.Sublist.trans ?_ (List.sublist_append_right order _)
        refine List.Sublist.trans ?_ (List.sublist_cons_self w _)
        exact ((List.sublist_append_right queue _).trans (List.sublist_append_left _ t))

variable {d : ℕ} (hd : ∀ u, (G.succs u).length ≤ d)

theorem nodup_sources (hnodes : G.nodes.Nodup) : ([] ++ G.sources).Nodup :=
  hnodes.filter _

include hd in
/-- **Repetitions.** The sort takes no node twice exactly when no turn of the sort of the simple
graph releases a node twice. -/
theorem nodup_sort_iff (hnodes : G.nodes.Nodup) :
    (G.sort d).Nodup ↔ G.Quiet (G.simple.sort d) := by
  constructor
  · intro hnodup
    have hquiet : G.Quiet (G.sort d) := by
      intro l₁ u l₂ heq
      have hsub := release_sublist (turns_fuel hd) heq (Nat.zero_le _)
      rw [← show G.sort d = l₁ ++ u :: l₂ from heq] at hsub
      exact hsub.nodup hnodup
    have heq : G.turns (G.fuel d) [] G.sources = G.simple.turns (G.fuel d) [] G.sources :=
      turns_congr fun l₁ u l₂ h => (release_eq_of_nodup (hquiet l₁ u l₂ h)).symm
    have hsort : G.simple.sort d = G.sort d := congrArg Prod.fst heq.symm
    rw [hsort]
    exact hquiet
  · intro hquiet
    have heq : G.simple.turns (G.fuel d) [] G.sources = G.turns (G.fuel d) [] G.sources :=
      turns_congr fun l₁ u l₂ h => release_eq_of_nodup (hquiet l₁ u l₂ h)
    have hsort : G.sort d = G.simple.sort d := congrArg Prod.fst heq.symm
    rw [hsort]
    have hinv : G.simple.Inv [] G.simple.sources := inv_sources
    exact (List.nodup_append'.mp (hinv.nodup_turns (nodup_sources (G := G.simple) hnodes)
      (quiet_simple _))).1

include hd in
theorem length_sort_le (hnodup : (G.sort d).Nodup) : (G.sort d).length ≤ G.nodes.length :=
  (List.subperm_of_subset hnodup fun _ hv => ((mem_sort_iff hd).mp hv).1).length_le

include hd in
/-- When no node is taken twice, the length of the sort tells whether there is a cycle. -/
theorem length_sort_eq_iff (hnodes : G.nodes.Nodup) (hnodup : (G.sort d).Nodup) :
    (G.sort d).length = G.nodes.length ↔ ∀ v, ¬ TransGen G.Edge v v := by
  rw [← sort_complete_iff hd]
  have hsub : G.sort d ⊆ G.nodes := fun v hv => ((mem_sort_iff hd).mp hv).1
  constructor
  · intro hlen v hv
    exact ((List.subperm_of_subset hnodup hsub).perm_of_length_le hlen.ge).mem_iff.mpr hv
  · intro h
    exact (length_sort_le hd hnodup).antisymm (List.subperm_of_subset hnodes h).length_le

include hd in
/-- Without cycles, a node taken twice makes the sort longer than the list of nodes. -/
theorem length_lt_sort (hnodes : G.nodes.Nodup) (h : ∀ v, ¬ TransGen G.Edge v v)
    (hdup : ¬ (G.sort d).Nodup) : G.nodes.length < (G.sort d).length := by
  have hsub : G.nodes.Subperm (G.sort d) :=
    List.subperm_of_subset hnodes ((sort_complete_iff hd).mpr h)
  by_contra hle
  exact hdup ((hsub.perm_of_length_le (by omega)).nodup hnodes)

end Repetitions

end Multigraph
