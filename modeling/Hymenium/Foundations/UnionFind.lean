import Mathlib.Data.Finset.Card
import Mathlib.Logic.Function.Basic
import Mathlib.Logic.Relation

/-!
# Union-find with path compression

A forest of parent pointers in a map: a root is its own parent. `find` follows the pointers to the
root and lets every node on its way point there; `union` links two roots. A lookup of a node that is
not in the map has no value, and neither has a search that runs out of fuel.

1. `HasRoot`: a node reaches a root in some number of steps, fewer than there are nodes.
2. `Forest`: every node reaches the root that `rep` assigns to it. `find` answers with that root and
   keeps the forest, `union` joins two classes (`Forest.find`, `Forest.union`).
3. `Forest.unionAll`: after unions along a list of edges, the classes are the equivalence classes
   that the edges generate.
-/

namespace UnionFind

variable {κ : Type*} [DecidableEq κ]

/-- Parent pointers. -/
abbrev Parents (κ : Type*) := κ → Option κ

/-- The root of `x`, with the pointers after the compression of its path. -/
def find : ℕ → Parents κ → κ → Option (κ × Parents κ)
  | 0, _, _ => none
  | fuel + 1, parent, x => do
    let p ← parent x
    if p = x then return (x, parent)
    let (root, parent) ← find fuel parent p
    return (root, Function.update parent x (some root))

/-- Link the root of `a` to the root of `b`. -/
def union (fuel : ℕ) (parent : Parents κ) (a b : κ) : Option (Parents κ) := do
  let (ra, parent) ← find fuel parent a
  let (rb, parent) ← find fuel parent b
  return if ra ≠ rb then Function.update parent ra (some rb) else parent

/-- Unions along a list of edges. -/
def unionAll (fuel : ℕ) (edges : List (κ × κ)) (parent : Parents κ) : Option (Parents κ) :=
  edges.foldlM (fun parent e => union fuel parent e.1 e.2) parent

/-! ## Roots -/

/-- `x` reaches the root `r` in `n` steps. -/
inductive HasRoot (parent : Parents κ) : κ → κ → ℕ → Prop
  | root {r : κ} : parent r = some r → HasRoot parent r r 0
  | step {x p r : κ} {n : ℕ} :
    parent x = some p → p ≠ x → HasRoot parent p r n → HasRoot parent x r (n + 1)

omit [DecidableEq κ] in
theorem HasRoot.unique {parent : Parents κ} {x r r' : κ} {n n' : ℕ} (h : HasRoot parent x r n)
    (h' : HasRoot parent x r' n') : r = r' ∧ n = n' := by
  induction h generalizing r' n' with
  | root hr =>
    cases h' with
    | root => exact ⟨rfl, rfl⟩
    | step hp hne _ =>
      rw [hr, Option.some.injEq] at hp
      exact absurd hp.symm hne
  | step hp hne _ ih =>
    cases h' with
    | root hr =>
      rw [hp, Option.some.injEq] at hr
      exact absurd hr hne
    | step hp' _ h' =>
      rw [hp, Option.some.injEq] at hp'
      subst hp'
      obtain ⟨rfl, rfl⟩ := ih h'
      exact ⟨rfl, rfl⟩

omit [DecidableEq κ] in
theorem HasRoot.isRoot {parent : Parents κ} {x r : κ} {n : ℕ} (h : HasRoot parent x r n) :
    parent r = some r := by
  induction h with
  | root hr => exact hr
  | step _ _ _ ih => exact ih

/-- A path visits as many nodes as it is long. -/
theorem HasRoot.exists_visited {parent : Parents κ} {x r : κ} {n : ℕ} (h : HasRoot parent x r n) :
    ∃ visited : Finset κ, visited.card = n + 1 ∧
      ∀ y ∈ visited, parent y ≠ none ∧ ∃ m ≤ n, HasRoot parent y r m := by
  induction h with
  | @root r hr =>
    refine ⟨{r}, rfl, fun y hy => ?_⟩
    rw [Finset.mem_singleton] at hy
    subst hy
    exact ⟨by simp [hr], 0, le_rfl, .root hr⟩
  | @step x p r n hp hne hroot ih =>
    obtain ⟨visited, hcard, hvisited⟩ := ih
    have hx : x ∉ visited := by
      intro hmem
      obtain ⟨-, m, hm, hroot'⟩ := hvisited x hmem
      obtain ⟨-, rfl⟩ := hroot'.unique (.step hp hne hroot)
      omega
    refine ⟨insert x visited, by rw [Finset.card_insert_of_notMem hx, hcard], fun y hy => ?_⟩
    rcases Finset.mem_insert.mp hy with rfl | hy
    · exact ⟨by simp [hp], n + 1, le_rfl, .step hp hne hroot⟩
    · obtain ⟨hparent, m, hm, hroot'⟩ := hvisited y hy
      exact ⟨hparent, m, by omega, hroot'⟩

/-- Compressing a path to its root keeps all roots. -/
theorem HasRoot.compress {parent : Parents κ} {x r : κ} {n : ℕ} (hx : HasRoot parent x r n)
    (hne : r ≠ x) {y s : κ} {m : ℕ} (hy : HasRoot parent y s m) :
    ∃ m', HasRoot (Function.update parent x (some r)) y s m' := by
  have hr := hx.isRoot
  induction hy with
  | @root y hroot =>
    have hyx : y ≠ x := by
      rintro rfl
      exact hne (hx.unique (.root hroot)).1
    exact ⟨0, .root (by rw [Function.update_of_ne hyx, hroot])⟩
  | @step y p s m hp hpy hroot ih =>
    obtain ⟨m', ih⟩ := ih
    by_cases hyx : y = x
    · subst hyx
      obtain ⟨rfl, -⟩ := hx.unique (.step hp hpy hroot)
      have hroot' : Function.update parent y (some r) r = some r := by
        rw [Function.update_of_ne hne, hr]
      exact ⟨1, .step (Function.update_self ..) hne (.root hroot')⟩
    · exact ⟨m' + 1, .step (by rw [Function.update_of_ne hyx, hp]) hpy ih⟩

/-- Linking the root `a` to the root `b` moves the nodes of `a` to `b`. -/
theorem HasRoot.link {parent : Parents κ} {a b : κ} (ha : parent a = some a)
    (hb : parent b = some b) (hne : a ≠ b) {y s : κ} {m : ℕ} (hy : HasRoot parent y s m) :
    ∃ m', HasRoot (Function.update parent a (some b)) y (if s = a then b else s) m' := by
  have hb' : Function.update parent a (some b) b = some b := by
    rw [Function.update_of_ne hne.symm, hb]
  induction hy with
  | @root y hroot =>
    by_cases hya : y = a
    · subst hya
      rw [if_pos rfl]
      exact ⟨1, .step (Function.update_self ..) hne.symm (.root hb')⟩
    · rw [if_neg hya]
      exact ⟨0, .root (by rw [Function.update_of_ne hya, hroot])⟩
  | @step y p s m hp hpy hroot ih =>
    obtain ⟨m', ih⟩ := ih
    have hya : y ≠ a := by
      rintro rfl
      rw [ha, Option.some.injEq] at hp
      exact hpy hp.symm
    exact ⟨m' + 1, .step (by rw [Function.update_of_ne hya, hp]) hpy ih⟩

/-! ## Forests -/

/-- Every node reaches the root that `rep` assigns to it, and only nodes have a parent. -/
structure Forest (nodes : Finset κ) (parent : Parents κ) (rep : κ → κ) : Prop where
  root : ∀ x ∈ nodes, ∃ n, HasRoot parent x (rep x) n
  closed : ∀ x, parent x ≠ none → x ∈ nodes

variable {nodes : Finset κ} {parent : Parents κ} {rep : κ → κ}

/-- Nodes that are their own parents. -/
theorem forest_self (nodes : Finset κ) :
    Forest nodes (fun x => if x ∈ nodes then some x else none) id where
  root x hx := ⟨0, .root (by simp [hx])⟩
  closed x hx := by
    by_contra hn
    simp [hn] at hx

theorem Forest.lt_card (hf : Forest nodes parent rep) {x r : κ} {n : ℕ}
    (h : HasRoot parent x r n) : n < nodes.card := by
  obtain ⟨visited, hcard, hvisited⟩ := h.exists_visited
  have hsub : visited ⊆ nodes := fun y hy => hf.closed y (hvisited y hy).1
  have := Finset.card_le_card hsub
  omega

omit [DecidableEq κ] in
theorem Forest.mem_of_hasRoot (hf : Forest nodes parent rep) {x r : κ} {n : ℕ}
    (h : HasRoot parent x r n) : x ∈ nodes := by
  cases h with
  | root hr => exact hf.closed x (by simp [hr])
  | step hp _ _ => exact hf.closed x (by simp [hp])

theorem Forest.compress (hf : Forest nodes parent rep) {x : κ} (hx : x ∈ nodes) (hne : rep x ≠ x) :
    Forest nodes (Function.update parent x (some (rep x))) rep where
  root y hy := by
    obtain ⟨n, hroot⟩ := hf.root x hx
    obtain ⟨m, hroot'⟩ := hf.root y hy
    exact hroot.compress hne hroot'
  closed y hy := by
    by_cases hyx : y = x
    · exact hyx ▸ hx
    · rw [Function.update_of_ne hyx] at hy
      exact hf.closed y hy

/-- The search from a node at depth `n`. -/
theorem Forest.find_of_hasRoot (hf : Forest nodes parent rep) {x r : κ} {n fuel : ℕ}
    (h : HasRoot parent x r n) (hn : n < fuel) :
    ∃ parent', find fuel parent x = some (r, parent') ∧ Forest nodes parent' rep := by
  induction h generalizing fuel with
  | root hr =>
    obtain ⟨fuel, rfl⟩ := Nat.exists_eq_succ_of_ne_zero (Nat.ne_zero_of_lt hn)
    exact ⟨parent, by simp [find, hr], hf⟩
  | @step x p r n hp hne hroot ih =>
    obtain ⟨fuel, rfl⟩ := Nat.exists_eq_succ_of_ne_zero (Nat.ne_zero_of_lt hn)
    obtain ⟨parent', hfind, hf'⟩ := ih (by omega : n < fuel)
    have hx := hf.closed x (by simp [hp])
    obtain ⟨m, hrep⟩ := hf.root x hx
    obtain ⟨hr, -⟩ := hrep.unique (.step hp hne hroot)
    have hrx : rep x ≠ x := by
      intro he
      have := hrep.isRoot
      rw [he, hp, Option.some.injEq] at this
      exact hne this
    refine ⟨Function.update parent' x (some r), ?_, ?_⟩
    · simp [find, hp, hne, hfind]
    · rw [← hr]
      exact hf'.compress hx hrx

/-- A search finds the root of a node and keeps the forest. -/
theorem Forest.find (hf : Forest nodes parent rep) {x : κ} (hx : x ∈ nodes) {fuel : ℕ}
    (hfuel : nodes.card ≤ fuel) :
    ∃ parent', find fuel parent x = some (rep x, parent') ∧ Forest nodes parent' rep := by
  obtain ⟨n, hroot⟩ := hf.root x hx
  exact hf.find_of_hasRoot hroot (lt_of_lt_of_le (hf.lt_card hroot) hfuel)

/-- The class of `a` joins the class of `b`. -/
def merge (rep : κ → κ) (a b : κ) (x : κ) : κ := if rep x = rep a then rep b else rep x

/-- A union joins two classes. -/
theorem Forest.union (hf : Forest nodes parent rep) {a b : κ} (ha : a ∈ nodes) (hb : b ∈ nodes)
    {fuel : ℕ} (hfuel : nodes.card ≤ fuel) :
    ∃ parent', union fuel parent a b = some parent' ∧ Forest nodes parent' (merge rep a b) := by
  obtain ⟨parent₁, hfind₁, hf₁⟩ := hf.find ha hfuel
  obtain ⟨parent₂, hfind₂, hf₂⟩ := hf₁.find hb hfuel
  have hunion : UnionFind.union fuel parent a b =
      some (if rep a ≠ rep b then Function.update parent₂ (rep a) (some (rep b)) else parent₂) := by
    simp [UnionFind.union, hfind₁, hfind₂]
  refine ⟨_, hunion, ?_⟩
  by_cases hab : rep a = rep b
  · have hrep : merge rep a b = rep := by
      funext x
      unfold merge
      split_ifs with h
      · rw [← hab, h]
      · rfl
    rw [if_neg (not_not.mpr hab), hrep]
    exact hf₂
  · rw [if_pos hab]
    obtain ⟨_, hroota⟩ := hf₂.root a ha
    obtain ⟨_, hrootb⟩ := hf₂.root b hb
    refine ⟨fun x hx => ?_, fun x hx => ?_⟩
    · obtain ⟨m, hroot⟩ := hf₂.root x hx
      exact hroot.link hroota.isRoot hrootb.isRoot hab
    · by_cases hxa : x = rep a
      · exact hxa ▸ hf₂.mem_of_hasRoot (.root hroota.isRoot)
      · rw [Function.update_of_ne hxa] at hx
        exact hf₂.closed x hx

/-! ## Classes -/

/-- The equivalence that the classes of `rep` and the edges generate. -/
abbrev Joined (rep : κ → κ) (edges : List (κ × κ)) : κ → κ → Prop :=
  Relation.EqvGen fun x y => rep x = rep y ∨ (x, y) ∈ edges

theorem merge_eq_iff (rep : κ → κ) (a b x y : κ) :
    merge rep a b x = merge rep a b y ↔ Joined rep [(a, b)] x y := by
  constructor
  · intro h
    have hclass (u v : κ) (huv : rep u = rep v) : Joined rep [(a, b)] u v := .rel _ _ (.inl huv)
    have hedge : Joined rep [(a, b)] a b := .rel _ _ (.inr (by simp))
    unfold merge at h
    split_ifs at h with hx hy hy
    · exact hclass x y (hx.trans hy.symm)
    · exact .trans _ _ _ (hclass x a hx) (.trans _ _ _ hedge (hclass b y h))
    · exact .trans _ _ _ (hclass x b h) (.trans _ _ _ (.symm _ _ hedge) (hclass a y hy.symm))
    · exact hclass x y h
  · intro h
    induction h with
    | rel x y h =>
      rcases h with h | h
      · simp only [merge, h]
      · obtain ⟨rfl, rfl⟩ : x = a ∧ y = b := by simpa using h
        unfold merge
        rw [if_pos rfl]
        split_ifs <;> rfl
    | refl x => rfl
    | symm x y _ ih => exact ih.symm
    | trans x y z _ _ ih₁ ih₂ => exact ih₁.trans ih₂

omit [DecidableEq κ] in
theorem joined_trans {rep rep' : κ → κ} {edges edges' : List (κ × κ)}
    (hrep : ∀ x y, rep x = rep y → Joined rep' edges' x y)
    (hedge : ∀ e ∈ edges, Joined rep' edges' e.1 e.2) {x y : κ} (h : Joined rep edges x y) :
    Joined rep' edges' x y := by
  induction h with
  | rel x y h =>
    rcases h with h | h
    · exact hrep x y h
    · exact hedge (x, y) h
  | refl x => exact .refl x
  | symm x y _ ih => exact .symm _ _ ih
  | trans x y z _ _ ih₁ ih₂ => exact .trans _ _ _ ih₁ ih₂

/-- Unions along edges between nodes end, and join exactly what the edges connect. -/
theorem Forest.unionAll (hf : Forest nodes parent rep) {edges : List (κ × κ)}
    (hedges : ∀ e ∈ edges, e.1 ∈ nodes ∧ e.2 ∈ nodes) {fuel : ℕ} (hfuel : nodes.card ≤ fuel) :
    ∃ parent' rep', unionAll fuel edges parent = some parent' ∧ Forest nodes parent' rep' ∧
      ∀ x y, rep' x = rep' y ↔ Joined rep edges x y := by
  induction edges generalizing parent rep with
  | nil =>
    refine ⟨parent, rep, rfl, hf, fun x y => ⟨fun h => .rel _ _ (.inl h), fun h => ?_⟩⟩
    induction h with
    | rel x y h => exact h.resolve_right List.not_mem_nil
    | refl x => rfl
    | symm x y _ ih => exact ih.symm
    | trans x y z _ _ ih₁ ih₂ => exact ih₁.trans ih₂
  | cons e rest ih =>
    obtain ⟨ha, hb⟩ := hedges e List.mem_cons_self
    obtain ⟨parent₁, hunion, hf₁⟩ := hf.union ha hb hfuel
    obtain ⟨parent', rep', hall, hf', hrep'⟩ :=
      ih hf₁ fun e he => hedges e (List.mem_cons_of_mem _ he)
    refine ⟨parent', rep', ?_, hf', fun x y => (hrep' x y).trans ⟨fun h => ?_, fun h => ?_⟩⟩
    · rw [UnionFind.unionAll, List.foldlM_cons, hunion]
      exact hall
    · refine joined_trans (fun u v huv => ?_) (fun e' he' => ?_) h
      · refine joined_trans (fun _ _ h => .rel _ _ (.inl h)) (fun e' he' => ?_)
          ((merge_eq_iff rep e.1 e.2 u v).mp huv)
        rw [List.mem_singleton] at he'
        exact .rel _ _ (.inr (by simp [he']))
      · exact .rel _ _ (.inr (List.mem_cons_of_mem _ he'))
    · refine joined_trans (fun u v huv => ?_) (fun e' he' => ?_) h
      · exact .rel _ _ (.inl (by simp only [merge, huv]))
      · rcases List.mem_cons.mp he' with rfl | he'
        · refine .rel _ _ (.inl ?_)
          exact (merge_eq_iff rep _ _ _ _).mpr (.rel _ _ (.inr List.mem_cons_self))
        · exact .rel _ _ (.inr he')

end UnionFind
