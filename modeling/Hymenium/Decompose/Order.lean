import Hymenium.Decompose.Partition

/-!
# The order of the pieces

Whether the pieces of a decomposition can be executed in some order. Pieces are cut project by
project, so a dependency between projects becomes a dependency between pieces that hold other steps
as well: `acyclic_of_blocks` is the rule that contracting a graph to blocks may use.

1. `Separated` says what is left between the steps of two pieces, of which the first was cut before
   the second (`Decomposed.separated`).
2. `graph_acyclic`: the pieces are ordered when the projects are, and the steps of a project either
   stay together along their dependencies or depend on earlier steps only.
-/

namespace Hymenium

open Relation

variable (U : Unicode)

/-- No path leads back to its start. -/
def Acyclic {α : Type} (R : α → α → Prop) : Prop := ∀ a, ¬ TransGen R a a

/-- A graph over blocks that have no cycle, whose edges inside a block descend, has no cycle. -/
theorem acyclic_of_blocks {α β : Type} {E : α → α → Prop} {R : β → β → Prop} (block : α → β)
    (rank : α → ℕ) (hedge : ∀ a b, E a b → R (block a) (block b) ∨
      block a = block b ∧ rank b < rank a) (hR : Acyclic R) : Acyclic E := by
  have hpath {a b : α} (h : TransGen E a b) : TransGen R (block a) (block b) ∨
      block a = block b ∧ rank b < rank a := by
    induction h with
    | single h => exact (hedge _ _ h).imp .single id
    | tail _ h ih =>
      rcases ih with ih | ⟨heq, hlt⟩
      · rcases hedge _ _ h with h | ⟨heq, -⟩
        · exact .inl (ih.tail h)
        · exact .inl (heq ▸ ih)
      · rcases hedge _ _ h with h | ⟨heq', hlt'⟩
        · exact .inl (.single (heq ▸ h))
        · exact .inr ⟨heq.trans heq', hlt'.trans hlt⟩
  intro a h
  rcases hpath h with h | ⟨-, h⟩
  · exact hR _ h
  · exact lt_irrefl _ h

/-- A graph whose edges descend has no cycle. -/
theorem acyclic_of_rank {α : Type} {E : α → α → Prop} (rank : α → ℕ)
    (hdown : ∀ a b, E a b → rank b < rank a) : Acyclic E := by
  have hempty : Acyclic fun _ _ : Unit => False := fun _ hpath => by
    induction hpath <;> assumption
  exact acyclic_of_blocks (fun _ => ()) rank (fun a b hab => .inr ⟨rfl, hdown a b hab⟩) hempty

/-- Two elements of a list without repetition stand in one order. -/
theorem not_sublist_swap {α : Type} {l : List α} (hl : l.Nodup) {a b : α}
    (hab : [a, b].Sublist l) : ¬ [b, a].Sublist l := by
  induction l with
  | nil => cases hab
  | cons x l ih =>
    obtain ⟨hx, hl⟩ := List.nodup_cons.mp hl
    intro hba
    rcases List.sublist_cons_iff.mp hab with hab' | ⟨_, heq, hb⟩
    · rcases List.sublist_cons_iff.mp hba with hba' | ⟨_, heq, -⟩
      · exact ih hl hab' hba'
      · cases heq
        exact hx (hab'.subset (List.mem_cons_of_mem _ List.mem_cons_self))
    · cases heq
      rcases List.sublist_cons_iff.mp hba with hba' | ⟨_, heq, ha⟩
      · exact hx (hba'.subset (List.mem_cons_of_mem _ List.mem_cons_self))
      · cases heq
        exact hx (List.singleton_sublist.mp ha)

/-- The step `a` depends on the number of `b`. -/
def DependsOn (a b : ParsedStep) : Prop := b.number ∈ stepDeps U a

instance (a b : ParsedStep) : Decidable (DependsOn U a b) :=
  inferInstanceAs (Decidable (b.number ∈ stepDeps U a))

/-- The group that a step is cut in. -/
def groupKey (config : DecompositionConfig) (s : ParsedStep) : Text :=
  if config.respectProjectBoundaries then projectKey s else "default".toList

/-- What is left between a step and a step of a later piece: they belong to different groups, or do
not depend on each other, or, where dependencies are not respected, stand in document order. -/
def Separated (config : DecompositionConfig) (steps : List ParsedStep) (a b : ParsedStep) : Prop :=
  groupKey config a ≠ groupKey config b ∨
    if config.respectDependencies then ¬ DependsOn U a b ∧ ¬ DependsOn U b a
    else [a, b].Sublist steps

/-! ## Groups -/

/-- The groups are parts of the document, each with its key. -/
theorem groupByProject_spec (config : DecompositionConfig) (steps : List ParsedStep) :
    let groups := (groupByProject steps config.respectProjectBoundaries).map Prod.snd
    (∀ g ∈ groups, g.Sublist steps) ∧ (∀ g ∈ groups, ∀ a ∈ g, ∀ b ∈ g,
      groupKey config a = groupKey config b) ∧
      groups.Pairwise fun g g' => ∀ a ∈ g, ∀ b ∈ g', groupKey config a ≠ groupKey config b := by
  intro groups
  cases hrespect : config.respectProjectBoundaries with
  | false =>
    have hgroups : groups = [steps] := by simp [groups, groupByProject, hrespect]
    rw [hgroups]
    simp [groupKey, hrespect]
  | true =>
    have hkey (s : ParsedStep) : groupKey config s = projectKey s := by simp [groupKey, hrespect]
    have hgroups : groups = (Grouped.group projectKey steps).map Prod.snd := by
      simp [groups, groupByProject, hrespect]
    have hgrouping := Grouped.isGrouping_group projectKey steps
    have hmem (e : Text × List ParsedStep) (he : e ∈ Grouped.group projectKey steps)
        (a : ParsedStep) (ha : a ∈ e.2) : projectKey a = e.1 := by
      rw [hgrouping.part e he, List.mem_filter] at ha
      simpa using ha.2
    simp only [hkey, hgroups]
    refine ⟨fun g hg => ?_, fun g hg a ha b hb => ?_, ?_⟩
    · obtain ⟨e, he, rfl⟩ := List.mem_map.mp hg
      rw [hgrouping.part e he]
      exact List.filter_sublist
    · obtain ⟨e, he, rfl⟩ := List.mem_map.mp hg
      rw [hmem e he a ha, hmem e he b hb]
    · rw [List.pairwise_map]
      refine hgrouping.sorted.imp_of_mem fun {e e'} he he' hlt a ha b hb => ?_
      rw [hmem e he a ha, hmem e' he' b hb]
      exact hlt.ne

/-! ## Pieces -/

/-- What separates the chunks separates the pieces. -/
theorem Packed.pairwise {R : ParsedStep → ParsedStep → Prop} {chunks : List (List ParsedStep)}
    {current : List ParsedStep} {pieces : List (List ParsedStep)} (h : Packed chunks current pieces)
    (hR : (current :: chunks).Pairwise fun c c' => ∀ a ∈ c, ∀ b ∈ c', R a b) :
    pieces.Pairwise fun p q => ∀ a ∈ p, ∀ b ∈ q, R a b := by
  induction h with
  | empty => exact .nil
  | last _ => exact List.pairwise_singleton _ _
  | @close chunk rest current pieces _ hpacked ih =>
    obtain ⟨hcurrent, hrest⟩ := List.pairwise_cons.mp hR
    refine List.pairwise_cons.mpr ⟨fun q hq a ha b hb => ?_, ih hrest⟩
    have hb' : b ∈ chunk ++ rest.flatten := by
      rw [← hpacked.flatten_eq]
      exact List.mem_flatten.mpr ⟨q, hq, hb⟩
    rw [← List.flatten_cons] at hb'
    obtain ⟨c, hc, hbc⟩ := List.mem_flatten.mp hb'
    exact hcurrent c hc a ha b hbc
  | @join chunk rest current pieces _ ih =>
    obtain ⟨hcurrent, hrest⟩ := List.pairwise_cons.mp hR
    obtain ⟨hchunk, hrest⟩ := List.pairwise_cons.mp hrest
    refine ih (List.pairwise_cons.mpr ⟨fun c hc a ha b hb => ?_, hrest⟩)
    rcases List.mem_append.mp ha with ha | ha
    · exact hcurrent c (List.mem_cons_of_mem _ hc) a ha b hb
    · exact hchunk c hc a ha b hb

/-- With different step numbers, the dependency map holds the dependencies of every step. -/
theorem mem_buildStepDeps {steps : List ParsedStep} (hnum : (steps.map (·.number)).Nodup)
    {s : ParsedStep} (hs : s ∈ steps) : (s.number, stepDeps U s) ∈ buildStepDeps U steps := by
  suffices h : ∀ (steps : List ParsedStep) (map : List (UInt32 × List UInt32)),
      (steps.map (·.number)).Nodup →
      ∀ e, (e ∈ map ∧ e.1 ∉ steps.map (·.number) ∨ ∃ s ∈ steps, e = (s.number, stepDeps U s)) →
        e ∈ steps.foldl (fun map step => mapInsert step.number (stepDeps U step) map) map from
    h steps [] hnum _ (.inr ⟨s, hs, rfl⟩)
  intro steps
  induction steps with
  | nil =>
    rintro map - e (⟨he, -⟩ | ⟨s, hs, -⟩)
    · exact he
    · cases hs
  | cons step rest ih =>
    intro map hnum e he
    obtain ⟨hstep, hrest⟩ := List.nodup_cons.mp hnum
    refine ih _ hrest e ?_
    rcases he with ⟨he, hnot⟩ | ⟨s, hs, rfl⟩
    · rw [List.map_cons, List.mem_cons, not_or] at hnot
      exact .inl ⟨mem_mapInsert.mpr (.inr ⟨he, hnot.1⟩), hnot.2⟩
    · rcases List.mem_cons.mp hs with rfl | hs
      · exact .inl ⟨mem_mapInsert.mpr (.inl rfl), hstep⟩
      · exact .inr ⟨s, hs, rfl⟩

/-- Steps that depend on each other have the same root. -/
theorem rep_eq_of_dependsOn {order : HashOrder} {steps : List ParsedStep}
    (hnum : (steps.map (·.number)).Nodup) {rep : UInt32 → UInt32}
    (hrep : ∀ x y, rep x = rep y ↔ UnionFind.Joined id
      (dependencyEdges (steps.map (·.number)).dedup (order.arrange (buildStepDeps U steps))) x y)
    {a b : ParsedStep} (ha : a ∈ steps) (hb : b ∈ steps) (h : DependsOn U a b) :
    rep a.number = rep b.number := by
  refine (hrep _ _).mpr (.rel _ _ (.inr ?_))
  refine List.mem_flatMap.mpr ⟨(a.number, stepDeps U a), ?_, ?_⟩
  · exact (order.perm _).mem_iff.mpr (mem_buildStepDeps U hnum ha)
  · refine List.mem_map.mpr ⟨b.number, List.mem_filter.mpr ⟨h, ?_⟩, rfl⟩
    exact decide_eq_true (mem_numbers.mpr ⟨b, hb, rfl⟩)

/-- The merged groups have different roots. -/
theorem pairwise_mergedGroups (rep : UInt32 → UInt32) (steps : List ParsedStep) :
    (mergedGroups rep steps).Pairwise fun c c' => ∀ a ∈ c, ∀ b ∈ c',
      rep a.number ≠ rep b.number := by
  have hgrouping := Grouped.isGrouping_group (fun s : ParsedStep => (rep s.number).toNat) steps
  have hmem {e : ℕ × List ParsedStep}
      (he : e ∈ Grouped.group (fun s : ParsedStep => (rep s.number).toNat) steps) {a : ParsedStep}
      (ha : a ∈ e.2.insertionSort fun s t => s.number.toNat ≤ t.number.toNat) :
      (rep a.number).toNat = e.1 := by
    rw [List.mem_insertionSort, hgrouping.part e he, List.mem_filter] at ha
    simpa using ha.2
  unfold mergedGroups
  refine (List.Perm.pairwise_iff ?_ (List.perm_insertionSort _ _)).mpr ?_
  · exact fun h a ha b hb => (h b hb a ha).symm
  · rw [List.pairwise_map]
    refine hgrouping.sorted.imp_of_mem fun {e e'} he he' hlt a ha b hb hrep => hlt.ne ?_
    rw [← hmem he ha, ← hmem he' hb, hrep]

/-- The pieces of one group are separated. -/
theorem PiecesOf.separated {config : DecompositionConfig} {order : HashOrder}
    {steps all : List ParsedStep} {packed : List (List ParsedStep)}
    (h : PiecesOf U config order steps packed) (hnum : (steps.map (·.number)).Nodup)
    (hsub : steps.Sublist all) :
    packed.Pairwise fun p q => ∀ a ∈ p, ∀ b ∈ q, Separated U config all a b := by
  have hmem {p : List ParsedStep} (hp : p ∈ packed) {a : ParsedStep} (ha : a ∈ p) : a ∈ steps :=
    h.mem_steps U hp ha
  obtain ⟨chunks, hchunks, hpacked⟩ := h
  have hcons {R : ParsedStep → ParsedStep → Prop}
      (hR : chunks.Pairwise fun c c' => ∀ a ∈ c, ∀ b ∈ c', R a b) :
      packed.Pairwise fun p q => ∀ a ∈ p, ∀ b ∈ q, R a b :=
    hpacked.pairwise (List.pairwise_cons.mpr ⟨fun _ _ a ha => (List.not_mem_nil ha).elim, hR⟩)
  unfold atomicChunks at hchunks
  unfold Separated
  cases hrespect : config.respectDependencies with
  | true =>
    rw [if_pos hrespect] at hchunks
    obtain ⟨rep, hmerge, hrep⟩ := mergeDependencyGroups_eq U order steps
    rw [hmerge, Option.some.injEq] at hchunks
    have hpieces := hcons (hchunks ▸ pairwise_mergedGroups rep steps)
    refine hpieces.imp_of_mem fun {p q} hp hq hpq a ha b hb => .inr ?_
    have hrep' {a b : ParsedStep} := rep_eq_of_dependsOn U hnum hrep (a := a) (b := b)
    rw [if_pos rfl]
    exact ⟨fun hdep => hpq a ha b hb (hrep' (hmem hp ha) (hmem hq hb) hdep),
      fun hdep => hpq a ha b hb (hrep' (hmem hq hb) (hmem hp ha) hdep).symm⟩
  | false =>
    rw [if_neg (by simp [hrespect]), Option.some.injEq] at hchunks
    have hpieces : packed.Pairwise fun p q => ∀ a ∈ p, ∀ b ∈ q, [a, b].Sublist all := by
      refine hcons ?_
      rw [← hchunks, List.pairwise_map]
      refine List.pairwise_of_forall_sublist fun {a b} hab a' ha' b' hb' => ?_
      rw [List.mem_singleton] at ha' hb'
      exact ha' ▸ hb' ▸ hab.trans hsub
    refine hpieces.imp fun {p q} hpq a ha b hb => .inr ?_
    rw [if_neg (by decide)]
    exact hpq a ha b hb

/-- The pieces of groups that hold different keys are separated. -/
theorem separated_packs {config : DecompositionConfig} {orders : ℕ → HashOrder}
    {all : List ParsedStep} (hnum : (all.map (·.number)).Nodup)
    {groups : List (List ParsedStep × ℕ)} {packs : List (List (List ParsedStep))}
    (h : List.Forall₂ (fun g packed => PiecesOf U config (orders g.2) g.1 packed) groups packs)
    (hsub : ∀ g ∈ groups.map Prod.fst, g.Sublist all)
    (hkeys : (groups.map Prod.fst).Pairwise fun g g' => ∀ a ∈ g, ∀ b ∈ g',
      groupKey config a ≠ groupKey config b) :
    packs.flatten.Pairwise fun p q => ∀ a ∈ p, ∀ b ∈ q, Separated U config all a b := by
  induction h with
  | nil => exact .nil
  | @cons g packed groups packs hpieces hpacks ih =>
    obtain ⟨hhead, htail⟩ := List.pairwise_cons.mp hkeys
    have hg : g.1.Sublist all := hsub g.1 List.mem_cons_self
    rw [List.flatten_cons, List.pairwise_append]
    refine ⟨hpieces.separated U (hnum.sublist (hg.map _)) hg,
      ih (fun g' hg' => hsub g' (List.mem_cons_of_mem _ hg')) htail, fun p hp q hq a ha b hb => ?_⟩
    obtain ⟨packed', hpacked', hq⟩ := List.mem_flatten.mp hq
    obtain ⟨g', hg', hpieces'⟩ := exists_of_mem_packs U hpacks hpacked'
    exact .inl (hhead g'.1 (List.mem_map_of_mem hg') a (hpieces.mem_steps U hp ha) b
      (hpieces'.mem_steps U hq hb))

/-- The pieces of a decomposition are separated. -/
theorem Decomposed.separated {config : DecompositionConfig} {orders : ℕ → HashOrder}
    {handoff : ParsedHandoff} {r : DecompositionResult} (h : Decomposed U config orders handoff r)
    (hnum : (handoff.steps.map (·.number)).Nodup) :
    (r.pieces.map (·.steps)).Pairwise fun p q => ∀ a ∈ p, ∀ b ∈ q,
      Separated U config handoff.steps a b := by
  obtain ⟨packs, hpacks, hsteps⟩ := h.pieces
  obtain ⟨hsub, -, hkeys⟩ := groupByProject_spec config handoff.steps
  rw [hsteps]
  refine separated_packs U hnum hpacks ?_ ?_
  · rwa [map_fst_zipIdx]
  · rwa [map_fst_zipIdx]

/-- The steps of a piece belong to one group. -/
theorem Decomposed.groupKey_eq {config : DecompositionConfig} {orders : ℕ → HashOrder}
    {handoff : ParsedHandoff} {r : DecompositionResult} (h : Decomposed U config orders handoff r)
    {p : HandoffPiece} (hp : p ∈ r.pieces) {a b : ParsedStep} (ha : a ∈ p.steps)
    (hb : b ∈ p.steps) : groupKey config a = groupKey config b := by
  obtain ⟨packs, hpacks, hsteps⟩ := h.pieces
  obtain ⟨-, hkey, -⟩ := groupByProject_spec config handoff.steps
  have hmem : p.steps ∈ packs.flatten := hsteps ▸ List.mem_map_of_mem hp
  obtain ⟨packed, hpacked, hmem⟩ := List.mem_flatten.mp hmem
  obtain ⟨g, hg, hpieces⟩ := exists_of_mem_packs U hpacks hpacked
  exact hkey g.1 (List.fst_mem_of_mem_zipIdx hg) a (hpieces.mem_steps U hmem ha) b
    (hpieces.mem_steps U hmem hb)

/-! ## The order -/

/-- Some step of the group `k` depends on a step of the group `l`. -/
def GroupDepends (config : DecompositionConfig) (steps : List ParsedStep) (k l : Text) : Prop :=
  k ≠ l ∧ ∃ a ∈ steps, ∃ b ∈ steps, groupKey config a = k ∧ groupKey config b = l ∧ DependsOn U a b

/-- The pieces can be executed in some order when the groups can, and the steps of a group either
stay together along their dependencies or depend on earlier steps only. -/
theorem graph_acyclic {config : DecompositionConfig} {orders : ℕ → HashOrder}
    {handoff : ParsedHandoff} {r : DecompositionResult}
    (hrun : decompose U config orders handoff = some (.ok r))
    (hnum : (handoff.steps.map (·.number)).Nodup)
    (hgroups : Acyclic (GroupDepends U config handoff.steps))
    (hback : config.respectDependencies = false → ∀ a ∈ handoff.steps, ∀ b ∈ handoff.steps,
      a ≠ b → groupKey config a = groupKey config b → DependsOn U a b →
        [b, a].Sublist handoff.steps) :
    Acyclic fun i j => (i, j) ∈ r.dependencyGraph := by
  have hr := decomposed_of_ok U hrun
  let block (i : ℕ) : Text := (r.pieces[i]?.bind (·.steps.head?)).elim [] (groupKey config)
  have hblock {i : ℕ} {p : HandoffPiece} (hi : r.pieces[i]? = some p) {a : ParsedStep}
      (ha : a ∈ p.steps) : block i = groupKey config a := by
    have hp := List.mem_of_getElem? hi
    obtain ⟨a₀, rest, hsteps⟩ := List.exists_cons_of_ne_nil (hr.ne_nil U p hp)
    have hhead : block i = groupKey config a₀ := by simp [block, hi, hsteps]
    rw [hhead]
    exact hr.groupKey_eq U hp (by simp [hsteps]) ha
  refine acyclic_of_blocks block id (fun i j hij => ?_) hgroups
  obtain ⟨hne, p, q, hi, hj, a, ha, b, hb, hdep⟩ := hr.graph i j hij
  have ha' := hr.mem_steps U (List.mem_of_getElem? hi) ha
  have hb' := hr.mem_steps U (List.mem_of_getElem? hj) hb
  rw [hblock hi ha, hblock hj hb]
  by_cases hkey : groupKey config a = groupKey config b
  · refine .inr ⟨hkey, ?_⟩
    by_contra hlt
    have hij : i < j := lt_of_le_of_ne (not_lt.mp hlt) hne
    -- the piece of `a` was cut before the piece of `b`, on which `a` depends
    have hsep : Separated U config handoff.steps a b := by
      have hpairs := List.pairwise_iff_getElem.mp (hr.separated U hnum) i j
      obtain ⟨hil, hi⟩ := List.getElem?_eq_some_iff.mp hi
      obtain ⟨hjl, hj⟩ := List.getElem?_eq_some_iff.mp hj
      refine hpairs (by simpa using hil) (by simpa using hjl) hij a ?_ b ?_
      · rwa [List.getElem_map, hi]
      · rwa [List.getElem_map, hj]
    rcases hsep with hsep | hsep
    · exact hsep hkey
    · cases hrespect : config.respectDependencies with
      | true =>
        rw [if_pos hrespect] at hsep
        exact hsep.1 hdep
      | false =>
        rw [if_neg (by simp [hrespect])] at hsep
        have hnodup : handoff.steps.Nodup := hnum.of_map _
        have hab : a ≠ b := by
          rintro rfl
          exact not_sublist_swap hnodup hsep hsep
        exact not_sublist_swap hnodup hsep (hback hrespect a ha' b hb' hab hkey hdep)
  · exact .inl ⟨hkey, a, ha', b, hb', rfl, rfl, hdep⟩

/-- A step of each project, and one more of the first: each depends on the one before. -/
def circleHandoff : ParsedHandoff where
  title := "Ship".toList
  problem := "p".toList
  intent := "i".toList
  steps := [{ number := 1, title := "a".toList, project := some "A".toList },
    { number := 2, title := "b".toList, project := some "B".toList,
      dependsOn := ["Step 1".toList] },
    { number := 3, title := "c".toList, project := some "A".toList,
      dependsOn := ["Step 2".toList] }]

theorem circleHandoff_result : ∃ r,
    decompose .asciiTables {} (fun _ => .inOrder) circleHandoff = some (.ok r) ∧
      r.dependencyGraph = [(0, 1), (1, 0)] :=
  ok_of_reads (by decide +kernel)

/-- A step that depends on a later one, which depends on the step between them. -/
def forwardHandoff : ParsedHandoff where
  title := "Ship".toList
  problem := "p".toList
  intent := "i".toList
  steps := [{ number := 1, title := "a".toList, dependsOn := ["Step 3".toList] },
    { number := 2, title := "b".toList },
    { number := 3, title := "c".toList, dependsOn := ["Step 2".toList] }]

/-- Pieces of `n` steps in the order of the document. -/
def documentOrder (n : ℕ) : DecompositionConfig :=
  { maxStepsPerPiece := n, respectDependencies := false }

theorem forwardHandoff_result : ∃ r,
    decompose .asciiTables (documentOrder 2) (fun _ => .inOrder) forwardHandoff = some (.ok r) ∧
      r.dependencyGraph = [(0, 1), (1, 0)] :=
  ok_of_reads (by decide +kernel)

theorem not_acyclic_circle : ¬ Acyclic fun i j => (i, j) ∈ [(0, 1), (1, 0)] := by
  intro h
  exact h 0 (.tail (.single (by simp : (0, 1) ∈ [(0, 1), (1, 0)])) (by simp))

/-- Contracting steps to the pieces of their projects can close a circle, and so can the order of the
document where the projects are in order. -/
theorem pieces_in_a_circle :
    (¬ ∀ config orders handoff r, decompose .asciiTables config orders handoff = some (.ok r) →
      (handoff.steps.map (·.number)).Nodup →
      Acyclic (fun a b => a ∈ handoff.steps ∧ b ∈ handoff.steps ∧ DependsOn .asciiTables a b) →
      Acyclic fun i j => (i, j) ∈ r.dependencyGraph) ∧
    ¬ ∀ config orders handoff r, decompose .asciiTables config orders handoff = some (.ok r) →
      (handoff.steps.map (·.number)).Nodup →
      Acyclic (fun a b => a ∈ handoff.steps ∧ b ∈ handoff.steps ∧ DependsOn .asciiTables a b) →
      Acyclic (GroupDepends .asciiTables config handoff.steps) →
      Acyclic fun i j => (i, j) ∈ r.dependencyGraph := by
  constructor
  · intro h
    obtain ⟨r, hrun, hgraph⟩ := circleHandoff_result
    have hdown : ∀ a ∈ circleHandoff.steps, ∀ b ∈ circleHandoff.steps,
        DependsOn .asciiTables a b → b.number.toNat < a.number.toNat := by decide +kernel
    have hcircle := h {} _ circleHandoff r hrun (by decide)
      (acyclic_of_rank (·.number.toNat) fun a b hab => hdown a hab.1 b hab.2.1 hab.2.2)
    rw [hgraph] at hcircle
    exact not_acyclic_circle hcircle
  · intro h
    obtain ⟨r, hrun, hgraph⟩ := forwardHandoff_result
    -- step 1 depends on step 3, and step 3 on step 2
    have hdown : ∀ a ∈ forwardHandoff.steps, ∀ b ∈ forwardHandoff.steps,
        DependsOn .asciiTables a b →
          ([0, 2, 0, 1].getD b.number.toNat 0) < [0, 2, 0, 1].getD a.number.toNat 0 := by
      decide +kernel
    have hone : ∀ a ∈ forwardHandoff.steps, ∀ b ∈ forwardHandoff.steps,
        groupKey (documentOrder 2) a = groupKey (documentOrder 2) b := by decide +kernel
    have hgroups : Acyclic
        (GroupDepends .asciiTables (documentOrder 2) forwardHandoff.steps) := by
      refine acyclic_of_rank (fun _ => 0) ?_
      rintro k l ⟨hne, a, ha, b, hb, rfl, rfl, -⟩
      exact absurd (hone a ha b hb) hne
    have hcircle := h _ _ forwardHandoff r hrun (by decide)
      (acyclic_of_rank (fun s => [0, 2, 0, 1].getD s.number.toNat 0)
        fun a b hab => hdown a hab.1 b hab.2.1 hab.2.2) hgroups
    rw [hgraph] at hcircle
    exact not_acyclic_circle hcircle

/-- The steps of `circleHandoff`, where the third does not depend on the second. -/
def orderedHandoff : ParsedHandoff where
  title := "Ship".toList
  problem := "p".toList
  intent := "i".toList
  steps := [{ number := 1, title := "a".toList, project := some "A".toList },
    { number := 2, title := "b".toList, project := some "B".toList,
      dependsOn := ["Step 1".toList, "Step 3".toList] },
    { number := 3, title := "c".toList, project := some "A".toList,
      dependsOn := ["Step 1".toList] }]

theorem graph_acyclic_ordered : ∃ r,
    decompose .asciiTables (documentOrder 1) (fun _ => .inOrder) orderedHandoff = some (.ok r) ∧
      r.dependencyGraph = [(1, 0), (2, 0), (2, 1)] ∧
      Acyclic fun i j => (i, j) ∈ r.dependencyGraph := by
  obtain ⟨r, hrun, hgraph⟩ : ∃ r,
      decompose .asciiTables (documentOrder 1) (fun _ => .inOrder) orderedHandoff = some (.ok r) ∧
      r.dependencyGraph = [(1, 0), (2, 0), (2, 1)] := ok_of_reads (by decide +kernel)
  refine ⟨r, hrun, hgraph, graph_acyclic .asciiTables hrun (by decide) ?_ ?_⟩
  · -- only the project `B` depends on another one
    have hdown : ∀ a ∈ orderedHandoff.steps, ∀ b ∈ orderedHandoff.steps,
        groupKey {} a ≠ groupKey {} b → DependsOn .asciiTables a b →
          (groupKey {} b).head? = some 'A' ∧ (groupKey {} a).head? = some 'B' := by decide +kernel
    refine acyclic_of_rank (fun k => if k.head? = some 'B' then 1 else 0) ?_
    rintro k l ⟨hne, a, ha, b, hb, rfl, rfl, hdep⟩
    obtain ⟨hA, hB⟩ := hdown a ha b hb hne hdep
    show (if (groupKey {} b).head? = some 'B' then 1 else 0) <
      if (groupKey {} a).head? = some 'B' then 1 else 0
    rw [hA, hB]
    decide
  · -- step 3 depends on step 1 of its project, which comes before it
    intro _
    decide +kernel

/-! ## Projects -/

/-- Steps without a project are grouped as steps of the project `default`. -/
theorem projectKey_eq_iff (a b : ParsedStep) : projectKey a = projectKey b ↔
    a.project = b.project ∨ a.project = none ∧ b.project = some "default".toList ∨
      a.project = some "default".toList ∧ b.project = none := by
  unfold projectKey
  cases a.project with
  | none =>
    cases b.project with
    | none => simp
    | some q => simp [eq_comm]
  | some p =>
    cases b.project with
    | none => simp
    | some q => simp

/-- **Project boundaries.** Two steps of a piece have the same project, or one has none and the other
has the project `default`. -/
theorem pieces_in_projects {config : DecompositionConfig} {orders : ℕ → HashOrder}
    {handoff : ParsedHandoff} {r : DecompositionResult}
    (hrespect : config.respectProjectBoundaries = true)
    (hrun : decompose U config orders handoff = some (.ok r)) {p : HandoffPiece}
    (hp : p ∈ r.pieces) {a b : ParsedStep} (ha : a ∈ p.steps) (hb : b ∈ p.steps) :
    a.project = b.project ∨ a.project = none ∧ b.project = some "default".toList ∨
      a.project = some "default".toList ∧ b.project = none := by
  have hkey (s : ParsedStep) : groupKey config s = projectKey s := if_pos hrespect
  have hgroup := (decomposed_of_ok U hrun).groupKey_eq U hp ha hb
  rw [hkey, hkey] at hgroup
  exact (projectKey_eq_iff a b).mp hgroup

theorem pieces_in_projects_circle : ∃ r p,
    decompose .asciiTables {} (fun _ => .inOrder) circleHandoff = some (.ok r) ∧ p ∈ r.pieces ∧
      p.steps.map (·.number) = [1, 3] ∧ ∀ a ∈ p.steps, ∀ b ∈ p.steps, a.project = b.project ∨
        a.project = none ∧ b.project = some "default".toList ∨
        a.project = some "default".toList ∧ b.project = none := by
  obtain ⟨r, hrun, hnumbers⟩ : ∃ r, decompose .asciiTables {} (fun _ => .inOrder) circleHandoff =
      some (.ok r) ∧ (r.pieces.map fun p => p.steps.map (·.number)) = [[1, 3], [2]] :=
    ok_of_reads (by decide +kernel)
  have hmem : [1, 3] ∈ r.pieces.map fun p => p.steps.map (·.number) := by
    rw [hnumbers]
    exact List.mem_cons_self
  obtain ⟨p, hp, hsteps⟩ := List.mem_map.mp hmem
  exact ⟨r, p, hrun, hp, hsteps, fun a ha b hb =>
    pieces_in_projects .asciiTables rfl hrun hp ha hb⟩

/-- A step without a project, and one of the project `default`. -/
def defaultHandoff : ParsedHandoff where
  title := "Ship".toList
  problem := "p".toList
  intent := "i".toList
  steps := [{ number := 1, title := "a".toList },
    { number := 2, title := "b".toList, project := some "default".toList }]

theorem pieces_across_projects :
    ¬ ∀ config orders handoff r, config.respectProjectBoundaries = true →
      decompose .asciiTables config orders handoff = some (.ok r) →
      ∀ p ∈ r.pieces, ∀ a ∈ p.steps, ∀ b ∈ p.steps, a.project = b.project := by
  intro hclaim
  obtain ⟨r, hrun, hsteps⟩ : ∃ r, decompose .asciiTables {} (fun _ => .inOrder) defaultHandoff =
      some (.ok r) ∧ r.pieces.map (·.steps) = [defaultHandoff.steps] :=
    ok_of_reads (by decide +kernel)
  have hmem : defaultHandoff.steps ∈ r.pieces.map (·.steps) := by
    rw [hsteps]
    exact List.mem_cons_self
  obtain ⟨p, hp, hpsteps⟩ := List.mem_map.mp hmem
  have hproject := hclaim {} _ defaultHandoff r rfl hrun p hp
  rw [hpsteps] at hproject
  exact absurd (hproject _ List.mem_cons_self _ (List.mem_cons_of_mem _ List.mem_cons_self)) nofun

end Hymenium
