import Hymenium.Decompose.Decompose
import Mathlib.Algebra.Ring.Nat

/-!
# Decomposition is a partition

Every stage of `decompose` hands on the steps it was given, each once: the groups of the projects,
the merged groups of a project, the packed pieces of its chunks. An effort sum can overflow only
when the efforts of all steps together have more than 64 bits.

1. `Packed` describes both packing loops: a piece is closed before a chunk, or the chunk joins it.
2. `groupByRoot_eq`, `mergeDependencyGroups_eq`: merging ends, and groups the steps by the class of
   their number.
3. `Cut.projects_invariant`: what every cut of a piece keeps, a whole decomposition keeps, and
   `cutLists`: the step lists of the pieces, without what is computed about them.
-/

namespace Hymenium

open Text

variable (U : Unicode)

/-! ## Effort sums -/

theorem addSecs_eq_some {a b c : UInt64} (h : addSecs a b = some c) :
    c.toNat = a.toNat + b.toNat := by
  unfold addSecs at h
  split_ifs at h with hlt
  cases h
  rw [UInt64.toNat_add, Nat.mod_eq_of_lt hlt]

theorem addSecs_eq_none {a b : UInt64} (h : addSecs a b = none) : 2 ^ 64 ≤ a.toNat + b.toNat := by
  unfold addSecs at h
  split_ifs at h with hlt
  exact not_lt.mp hlt

/-- The effort of a step, in seconds. -/
def effortOf (step : ParsedStep) : ℕ :=
  match step.effort with
  | none => 0
  | some effort =>
    match parseEffortSecs U effort with
    | .ok secs => secs.toNat
    | .error _ => 0

/-- The effort of all steps together. -/
def effortSum (steps : List ParsedStep) : ℕ := (steps.map (effortOf U)).sum

@[simp] theorem effortSum_nil : effortSum U [] = 0 := rfl

@[simp] theorem effortSum_cons (step : ParsedStep) (steps : List ParsedStep) :
    effortSum U (step :: steps) = effortOf U step + effortSum U steps := rfl

@[simp] theorem effortSum_append (steps steps' : List ParsedStep) :
    effortSum U (steps ++ steps') = effortSum U steps + effortSum U steps' := by
  simp [effortSum]

theorem effortSum_perm {steps steps' : List ParsedStep} (h : steps.Perm steps') :
    effortSum U steps = effortSum U steps' :=
  (h.map _).sum_eq

theorem effortOf_none {step : ParsedStep} (h : step.effort = none) : effortOf U step = 0 := by
  simp [effortOf, h]

theorem effortOf_some {step : ParsedStep} {effort : Text} (h : step.effort = some effort) :
    effortOf U step = match parseEffortSecs U effort with
      | .ok secs => secs.toNat
      | .error _ => 0 := by
  simp [effortOf, h]

/-- The sum of a chunk has the value it should have, if it does not overflow. -/
theorem chunkEffortSecs_eq_some {steps : List ParsedStep} {total secs : UInt64}
    {warnings : List Text} (h : chunkEffortSecs U steps total = some (secs, warnings)) :
    secs.toNat = total.toNat + effortSum U steps := by
  induction steps generalizing total warnings with
  | nil =>
    cases h
    rfl
  | cons step rest ih =>
    rw [effortSum_cons]
    cases heffort : step.effort with
    | none =>
      rw [chunkEffortSecs, heffort] at h
      rw [effortOf_none U heffort, Nat.zero_add]
      exact ih h
    | some effort =>
      rw [effortOf_some U heffort]
      cases hparse : parseEffortSecs U effort with
      | error err =>
        simp only [chunkEffortSecs, heffort, hparse, Option.bind_eq_bind] at h
        obtain ⟨⟨total', more⟩, hrest, hret⟩ := Option.bind_eq_some_iff.mp h
        cases hret
        rw [Nat.zero_add]
        exact ih hrest
      | ok n =>
        simp only [chunkEffortSecs, heffort, hparse, Option.bind_eq_bind] at h
        obtain ⟨total', hadd, hrest⟩ := Option.bind_eq_some_iff.mp h
        rw [ih hrest, addSecs_eq_some hadd, Nat.add_assoc]

theorem chunkEffortSecs_eq_none {steps : List ParsedStep} {total : UInt64}
    (h : chunkEffortSecs U steps total = none) : 2 ^ 64 ≤ total.toNat + effortSum U steps := by
  induction steps generalizing total with
  | nil => cases h
  | cons step rest ih =>
    rw [effortSum_cons]
    cases heffort : step.effort with
    | none =>
      rw [chunkEffortSecs, heffort] at h
      rw [effortOf_none U heffort, Nat.zero_add]
      exact ih h
    | some effort =>
      rw [effortOf_some U heffort]
      cases hparse : parseEffortSecs U effort with
      | error err =>
        simp only [chunkEffortSecs, heffort, hparse] at h
        rw [Nat.zero_add]
        cases hrest : chunkEffortSecs U rest total with
        | none => exact ih hrest
        | some result =>
          rw [hrest] at h
          cases h
      | ok n =>
        simp only [chunkEffortSecs, heffort, hparse] at h
        dsimp only
        cases hadd : addSecs total n with
        | none =>
          have := addSecs_eq_none hadd
          omega
        | some total' =>
          rw [hadd] at h
          have := ih h
          rw [addSecs_eq_some hadd] at this
          omega

/-- The step has an effort that can be parsed. -/
def Estimated (step : ParsedStep) : Prop :=
  ∃ effort secs, step.effort = some effort ∧ parseEffortSecs U effort = .ok secs

theorem exists_estimated_cons {step : ParsedStep} {steps : List ParsedStep}
    (h : ¬ Estimated U step) :
    (∃ s ∈ step :: steps, Estimated U s) ↔ ∃ s ∈ steps, Estimated U s := by
  simp [h]

/-- The effort of a piece is the sum that chunks are packed by, with the same warnings, if one of its
steps has an effort that can be parsed. -/
theorem totalEffortSecs_eq (steps : List ParsedStep) (total : UInt64) (anyParsed : Bool) :
    ∃ parsed : Bool, (parsed = true ↔ anyParsed = true ∨ ∃ s ∈ steps, Estimated U s) ∧
      totalEffortSecs U steps total anyParsed = (chunkEffortSecs U steps total).map fun result =>
        (if parsed then some result.1 else none, result.2) := by
  induction steps generalizing total anyParsed with
  | nil => exact ⟨anyParsed, by simp, rfl⟩
  | cons step rest ih =>
    cases heffort : step.effort with
    | none =>
      have hnone : ¬ Estimated U step := by
        rintro ⟨effort, secs, hsome, -⟩
        cases heffort.symm.trans hsome
      obtain ⟨parsed, hparsed, hrun⟩ := ih total anyParsed
      refine ⟨parsed, by rw [hparsed, exists_estimated_cons U hnone], ?_⟩
      simp only [totalEffortSecs, chunkEffortSecs, heffort, hrun]
    | some text =>
      cases hparse : parseEffortSecs U text with
      | error err =>
        have hnone : ¬ Estimated U step := by
          rintro ⟨effort, secs, hsome, hok⟩
          cases heffort.symm.trans hsome
          cases hparse.symm.trans hok
        obtain ⟨parsed, hparsed, hrun⟩ := ih total anyParsed
        refine ⟨parsed, by rw [hparsed, exists_estimated_cons U hnone], ?_⟩
        simp only [totalEffortSecs, chunkEffortSecs, heffort, hparse, hrun]
        cases chunkEffortSecs U rest total with
        | none => rfl
        | some result => rfl
      | ok n =>
        have hstep : ∃ s ∈ step :: rest, Estimated U s :=
          ⟨step, List.mem_cons_self, text, n, heffort, hparse⟩
        simp only [totalEffortSecs, chunkEffortSecs, heffort, hparse]
        cases addSecs total n with
        | none => exact ⟨true, iff_of_true rfl (.inr hstep), rfl⟩
        | some total' =>
          obtain ⟨parsed, hparsed, hrun⟩ := ih total' true
          exact ⟨parsed, iff_of_true (hparsed.mpr (.inl rfl)) (.inr hstep), hrun⟩

theorem totalEffortSecs_eq_none {steps : List ParsedStep} {total : UInt64} {anyParsed : Bool}
    (h : totalEffortSecs U steps total anyParsed = none) :
    2 ^ 64 ≤ total.toNat + effortSum U steps := by
  obtain ⟨parsed, -, hrun⟩ := totalEffortSecs_eq U steps total anyParsed
  rw [hrun, Option.map_eq_none_iff] at h
  exact chunkEffortSecs_eq_none U h

/-- The sum of a piece has the value it should have, if it does not overflow. -/
theorem totalEffortSecs_eq_some {steps : List ParsedStep} {total : UInt64} {anyParsed : Bool}
    {effort : Option UInt64} {warnings : List Text}
    (h : totalEffortSecs U steps total anyParsed = some (effort, warnings)) :
    (∀ secs, effort = some secs → secs.toNat = total.toNat + effortSum U steps) ∧
      (effort.isSome = true ↔ anyParsed = true ∨ ∃ s ∈ steps, Estimated U s) := by
  obtain ⟨parsed, hparsed, hrun⟩ := totalEffortSecs_eq U steps total anyParsed
  rw [hrun] at h
  obtain ⟨⟨sum, more⟩, hchunk, heq⟩ := Option.map_eq_some_iff.mp h
  cases heq
  rw [← hparsed]
  cases parsed with
  | true =>
    refine ⟨?_, iff_of_true rfl rfl⟩
    rintro secs ⟨⟩
    exact chunkEffortSecs_eq_some U hchunk
  | false =>
    refine ⟨?_, iff_of_false Bool.false_ne_true Bool.false_ne_true⟩
    rintro secs ⟨⟩

/-! ## Packing -/

/-- Chunks packed behind a current piece: before each chunk the piece may be closed. -/
inductive Packed : List (List ParsedStep) → List ParsedStep → List (List ParsedStep) → Prop
  | empty : Packed [] [] []
  | last {current} : current ≠ [] → Packed [] current [current]
  | close {chunk rest current pieces} :
    current ≠ [] → Packed rest chunk pieces → Packed (chunk :: rest) current (current :: pieces)
  | join {chunk rest current pieces} :
    Packed rest (current ++ chunk) pieces → Packed (chunk :: rest) current pieces

theorem Packed.nil (current : List ParsedStep) :
    Packed [] current (if current = [] then [] else [current]) := by
  split_ifs with h
  · exact h ▸ .empty
  · exact .last h

theorem packed_packByCount (config : DecompositionConfig) (chunks : List (List ParsedStep))
    (current : List ParsedStep) (currentCount : ℕ) :
    Packed chunks current (packByCount config chunks current currentCount) := by
  induction chunks generalizing current currentCount with
  | nil => exact .nil current
  | cons chunk rest ih =>
    unfold packByCount
    split_ifs with h
    · exact .close h.1 (ih chunk _)
    · exact .join (ih (current ++ chunk) _)

theorem packed_packByEffort {config : DecompositionConfig} {chunks : List (List ParsedStep)}
    {current : List ParsedStep} {currentSecs : UInt64} {pieces : List (List ParsedStep)}
    {warnings : List Text}
    (h : packByEffort U config chunks current currentSecs = some (pieces, warnings)) :
    Packed chunks current pieces := by
  induction chunks generalizing current currentSecs pieces warnings with
  | nil =>
    cases h
    exact .nil current
  | cons chunk rest ih =>
    simp only [packByEffort, Option.bind_eq_bind] at h
    obtain ⟨⟨chunkSecs, chunkWarnings⟩, -, h⟩ := Option.bind_eq_some_iff.mp h
    obtain ⟨close, hclose, h⟩ := Option.bind_eq_some_iff.mp h
    cases close with
    | true =>
      obtain ⟨secs, -, h⟩ := Option.bind_eq_some_iff.mp h
      obtain ⟨⟨pieces', more⟩, hrest, hret⟩ := Option.bind_eq_some_iff.mp h
      cases hret
      refine .close ?_ (ih hrest)
      rintro rfl
      cases hclose
    | false =>
      obtain ⟨secs, -, h⟩ := Option.bind_eq_some_iff.mp h
      obtain ⟨⟨pieces', more⟩, hrest, hret⟩ := Option.bind_eq_some_iff.mp h
      cases hret
      exact .join (ih hrest)

/-- Packing by effort can overflow only when the efforts of the chunks have more than 64 bits. -/
theorem packByEffort_eq_none {config : DecompositionConfig} {chunks : List (List ParsedStep)}
    {current : List ParsedStep} {currentSecs : UInt64}
    (h : packByEffort U config chunks current currentSecs = none) :
    2 ^ 64 ≤ currentSecs.toNat + effortSum U chunks.flatten := by
  induction chunks generalizing current currentSecs with
  | nil => cases h
  | cons chunk rest ih =>
    rw [List.flatten_cons, effortSum_append]
    unfold packByEffort at h
    cases hsecs : chunkEffortSecs U chunk 0 with
    | none =>
      have := chunkEffortSecs_eq_none U hsecs
      rw [UInt64.toNat_zero] at this
      omega
    | some result =>
      obtain ⟨chunkSecs, chunkWarnings⟩ := result
      have hchunk := chunkEffortSecs_eq_some U hsecs
      rw [UInt64.toNat_zero, Nat.zero_add] at hchunk
      rw [hsecs] at h
      cases hsum : addSecs currentSecs chunkSecs with
      | none =>
        have := addSecs_eq_none hsum
        omega
      | some sum =>
        have hsum' := addSecs_eq_some hsum
        cases hclose : closesBefore config current currentSecs chunkSecs with
        | none =>
          unfold closesBefore at hclose
          rw [hsum] at hclose
          split_ifs at hclose
          cases hclose
        | some close =>
          simp only [hclose, Option.bind_eq_bind, Option.bind_some, hsum] at h
          cases close with
          | true =>
            obtain ⟨secs, hsecs0⟩ : ∃ secs, addSecs 0 chunkSecs = some secs := by
              have := chunkSecs.toNat_lt
              exact ⟨_, if_pos (by rw [UInt64.toNat_zero]; omega)⟩
            have hsecs' := addSecs_eq_some hsecs0
            rw [UInt64.toNat_zero] at hsecs'
            cases hrest : packByEffort U config rest chunk secs with
            | none =>
              have := ih hrest
              omega
            | some result => simp [hsecs0, hrest] at h
          | false =>
            cases hrest : packByEffort U config rest (current ++ chunk) sum with
            | none =>
              have := ih hrest
              omega
            | some result => simp [hrest] at h

theorem packed_packChunks {config : DecompositionConfig} {chunks pieces : List (List ParsedStep)}
    {warnings : List Text} (h : packChunks U config chunks = some (pieces, warnings)) :
    Packed chunks [] pieces := by
  unfold packChunks at h
  split_ifs at h with hchunks heffort
  · cases h
    exact hchunks ▸ .empty
  · exact packed_packByEffort U h
  · cases h
    exact packed_packByCount config chunks [] 0

theorem packChunks_eq_none {config : DecompositionConfig} {chunks : List (List ParsedStep)}
    (h : packChunks U config chunks = none) : 2 ^ 64 ≤ effortSum U chunks.flatten := by
  unfold packChunks at h
  split_ifs at h
  have := packByEffort_eq_none U h
  rwa [UInt64.toNat_zero, Nat.zero_add] at this

/-- Packing keeps the steps in order. -/
theorem Packed.flatten_eq {chunks : List (List ParsedStep)} {current : List ParsedStep}
    {pieces : List (List ParsedStep)} (h : Packed chunks current pieces) :
    pieces.flatten = current ++ chunks.flatten := by
  induction h with
  | empty => rfl
  | last _ => simp
  | close _ _ ih => simp [ih]
  | join _ ih => simp [ih]

theorem Packed.ne_nil {chunks : List (List ParsedStep)} {current : List ParsedStep}
    {pieces : List (List ParsedStep)} (h : Packed chunks current pieces) :
    ∀ piece ∈ pieces, piece ≠ [] := by
  induction h with
  | empty => simp
  | last hne => simpa using hne
  | close hne _ ih => simpa using ⟨hne, ih⟩
  | join _ ih => exact ih

/-! ## Merging -/

theorem mem_mapInsert {κ ν : Type} [DecidableEq κ] {key : κ} {value : ν} {map : List (κ × ν)}
    {e : κ × ν} : e ∈ mapInsert key value map ↔ e = (key, value) ∨ e ∈ map ∧ e.1 ≠ key := by
  simp [mapInsert]

/-- An entry of the dependency map comes from a step. -/
theorem exists_of_mem_buildStepDeps {steps : List ParsedStep} {e : UInt32 × List UInt32}
    (h : e ∈ buildStepDeps U steps) : ∃ s ∈ steps, e = (s.number, stepDeps U s) := by
  suffices hs : ∀ (steps : List ParsedStep) (map : List (UInt32 × List UInt32)), e ∈ steps.foldl
      (fun map step => mapInsert step.number (stepDeps U step) map) map →
      e ∈ map ∨ ∃ s ∈ steps, e = (s.number, stepDeps U s) by
    exact (hs steps [] h).resolve_left List.not_mem_nil
  intro steps
  induction steps with
  | nil => exact fun map h => .inl h
  | cons step rest ih =>
    intro map h
    rcases ih _ h with h | ⟨s, hs, he⟩
    · rcases mem_mapInsert.mp h with rfl | ⟨h, -⟩
      · exact .inr ⟨step, List.mem_cons_self, rfl⟩
      · exact .inl h
    · exact .inr ⟨s, List.mem_cons_of_mem _ hs, he⟩

theorem mem_numbers {steps : List ParsedStep} {n : UInt32} :
    n ∈ (steps.map (·.number)).dedup ↔ ∃ s ∈ steps, s.number = n := by
  simp

/-- The united pairs are pairs of steps. -/
theorem mem_dependencyEdges {steps : List ParsedStep} {order : HashOrder} {e : UInt32 × UInt32}
    (h : e ∈ dependencyEdges (steps.map (·.number)).dedup (order.arrange (buildStepDeps U steps))) :
    (∃ s ∈ steps, e.1 = s.number ∧ e.2 ∈ stepDeps U s) ∧
      e.2 ∈ (steps.map (·.number)).dedup := by
  obtain ⟨⟨n, deps⟩, hentry, he⟩ := List.mem_flatMap.mp h
  obtain ⟨dep, hdep, rfl⟩ := List.mem_map.mp he
  rw [List.mem_filter, decide_eq_true_iff] at hdep
  obtain ⟨s, hs, hns⟩ := exists_of_mem_buildStepDeps U ((order.perm _).mem_iff.mp hentry)
  cases hns
  exact ⟨⟨s, hs, rfl, hdep.1⟩, hdep.2⟩

/-- The steps are grouped by the root of their number. -/
theorem groupByRoot_eq {nodes : Finset UInt32} {parent : UnionFind.Parents UInt32}
    {rep : UInt32 → UInt32} (hf : UnionFind.Forest nodes parent rep) {fuel : ℕ}
    (hfuel : nodes.card ≤ fuel) {steps : List ParsedStep} (hsteps : ∀ s ∈ steps, s.number ∈ nodes)
    (groups : List (ℕ × List ParsedStep)) :
    groupByRoot fuel steps parent groups = some (steps.foldl
      (fun groups s => Grouped.insert (rep s.number).toNat s groups) groups) := by
  induction steps generalizing parent groups with
  | nil => rfl
  | cons step rest ih =>
    obtain ⟨parent', hfind, hf'⟩ := hf.find (hsteps step List.mem_cons_self) hfuel
    rw [groupByRoot, hfind]
    exact ih hf' (fun s hs => hsteps s (List.mem_cons_of_mem _ hs)) _

/-- Merged groups: the steps of each class, sorted by number, and the classes by first number. -/
def mergedGroups (rep : UInt32 → UInt32) (steps : List ParsedStep) : List (List ParsedStep) :=
  let groups := Grouped.group (fun s : ParsedStep => (rep s.number).toNat) steps
  let sorted := groups.map fun g => g.2.insertionSort fun s t => s.number.toNat ≤ t.number.toNat
  sorted.insertionSort fun g h => firstNumber g ≤ firstNumber h

/-- Merging ends, for every order of its hash map, with the classes of the united pairs. -/
theorem mergeDependencyGroups_eq (order : HashOrder) (steps : List ParsedStep) :
    ∃ rep : UInt32 → UInt32,
      mergeDependencyGroups U order steps = some (mergedGroups rep steps) ∧
      ∀ x y, rep x = rep y ↔ UnionFind.Joined id
        (dependencyEdges (steps.map (·.number)).dedup (order.arrange (buildStepDeps U steps))) x y := by
  let numbers := (steps.map (·.number)).dedup
  have hnodes : ∀ n, n ∈ numbers.toFinset ↔ n ∈ numbers := fun n => List.mem_toFinset
  have hcard : numbers.toFinset.card ≤ numbers.length :=
    (List.toFinset_card_of_nodup (List.nodup_dedup _)).le
  have hself := UnionFind.forest_self numbers.toFinset
  simp only [hnodes] at hself
  have hedges : ∀ e ∈ dependencyEdges numbers (order.arrange (buildStepDeps U steps)),
      e.1 ∈ numbers.toFinset ∧ e.2 ∈ numbers.toFinset := by
    intro e he
    obtain ⟨⟨s, hs, h1, -⟩, h2⟩ := mem_dependencyEdges U he
    exact ⟨(hnodes _).mpr (mem_numbers.mpr ⟨s, hs, h1.symm⟩), (hnodes _).mpr h2⟩
  obtain ⟨parent, rep, hunion, hf, hrep⟩ := hself.unionAll hedges hcard
  refine ⟨rep, ?_, hrep⟩
  unfold mergeDependencyGroups
  split_ifs with hsteps
  · subst hsteps
    rfl
  · have hgroups := groupByRoot_eq hf hcard
      (fun s hs => (hnodes _).mpr (mem_numbers.mpr ⟨s, hs, rfl⟩)) []
    change (UnionFind.unionAll numbers.length
      (dependencyEdges numbers (order.arrange (buildStepDeps U steps)))
      fun n => if n ∈ numbers then some n else none).bind _ = _
    rw [hunion, Option.bind_some]
    change (groupByRoot numbers.length steps parent []).bind _ = _
    rw [hgroups]
    rfl

theorem flatten_mergedGroups (rep : UInt32 → UInt32) (steps : List ParsedStep) :
    (mergedGroups rep steps).flatten.Perm steps := by
  unfold mergedGroups
  refine ((List.perm_insertionSort _ _).flatten).trans ?_
  refine List.Perm.trans ?_ (Grouped.elements_group (fun s : ParsedStep => (rep s.number).toNat) steps)
  rw [← List.flatMap_def]
  exact List.Perm.flatMap_left _ fun g _ => List.perm_insertionSort _ _

/-- The chunks of a project hold its steps. -/
theorem exists_atomicChunks (config : DecompositionConfig) (order : HashOrder)
    (steps : List ParsedStep) :
    ∃ chunks, atomicChunks U config order steps = some chunks ∧ chunks.flatten.Perm steps := by
  unfold atomicChunks
  split_ifs
  · obtain ⟨rep, hmerge, -⟩ := mergeDependencyGroups_eq U order steps
    exact ⟨_, hmerge, flatten_mergedGroups rep steps⟩
  · refine ⟨_, rfl, ?_⟩
    rw [← List.flatMap_def, List.flatMap_singleton']

/-! ## Cutting -/

section Invariant

variable {config : DecompositionConfig} {parentSlug : Text} {orders : ℕ → HashOrder}
  {P : Cut → Prop}

theorem Cut.pieces_invariant
    (hpiece : ∀ cut sub cut', P cut → cut.piece U parentSlug sub = some cut' → P cut')
    {packed : List (List ParsedStep)} {cut cut' : Cut} (hP : P cut)
    (h : packed.foldlM (Cut.piece U parentSlug) cut = some cut') : P cut' := by
  induction packed generalizing cut with
  | nil =>
    cases h
    exact hP
  | cons sub rest ih =>
    obtain ⟨cut₁, hcut₁, hrest⟩ := Option.bind_eq_some_iff.mp h
    exact ih (hpiece cut sub cut₁ hP hcut₁) hrest

/-- What cutting a piece keeps, and the warnings of packing do not touch, holds after all projects. -/
theorem Cut.projects_invariant
    (hpiece : ∀ cut sub cut', P cut → cut.piece U parentSlug sub = some cut' → P cut')
    (hpack : ∀ (cut : Cut) chunks packed warnings, P cut →
      packChunks U config chunks = some (packed, warnings) →
        P { cut with warnings := cut.warnings ++ warnings })
    {groups : List (List ParsedStep × ℕ)} {cut cut' : Cut} (hP : P cut)
    (h : Cut.projects U config parentSlug orders groups cut = some cut') : P cut' := by
  induction groups generalizing cut with
  | nil =>
    cases h
    exact hP
  | cons g rest ih =>
    obtain ⟨steps, k⟩ := g
    obtain ⟨cut₁, hcut₁, hrest⟩ := Option.bind_eq_some_iff.mp h
    refine ih ?_ hrest
    unfold Cut.project at hcut₁
    obtain ⟨chunks, -, hcut₁⟩ := Option.bind_eq_some_iff.mp hcut₁
    obtain ⟨⟨packed, warnings⟩, hpacked, hcut₁⟩ := Option.bind_eq_some_iff.mp hcut₁
    exact Cut.pieces_invariant U hpiece (hpack cut chunks packed warnings hP hpacked) hcut₁

end Invariant

/-- The step lists that grouping, merging and packing cut from a document. -/
def cutLists (config : DecompositionConfig) (orders : ℕ → HashOrder) :
    List (List ParsedStep × ℕ) → Option (List (List ParsedStep))
  | [] => some []
  | (steps, k) :: rest => do
    let chunks ← atomicChunks U config (orders k) steps
    let (packed, _) ← packChunks U config chunks
    let more ← cutLists config orders rest
    return packed ++ more

section Lists

variable {config : DecompositionConfig} {parentSlug : Text} {orders : ℕ → HashOrder}

theorem Cut.steps_pieces {packed : List (List ParsedStep)} {cut cut' : Cut}
    (h : packed.foldlM (Cut.piece U parentSlug) cut = some cut') :
    cut'.pieces.map (·.steps) = cut.pieces.map (·.steps) ++ packed := by
  induction packed generalizing cut with
  | nil =>
    cases h
    rw [List.append_nil]
  | cons sub rest ih =>
    obtain ⟨cut₁, hcut₁, hrest⟩ := Option.bind_eq_some_iff.mp h
    unfold Cut.piece at hcut₁
    obtain ⟨⟨effort, warnings⟩, -, hret⟩ := Option.bind_eq_some_iff.mp hcut₁
    cases hret
    rw [ih hrest]
    simp

/-- The pieces of a run hold the lists that were cut. -/
theorem Cut.steps_projects {groups : List (List ParsedStep × ℕ)} {cut cut' : Cut}
    (h : Cut.projects U config parentSlug orders groups cut = some cut') : ∃ pieces,
      cutLists U config orders groups = some pieces ∧
        cut'.pieces.map (·.steps) = cut.pieces.map (·.steps) ++ pieces := by
  induction groups generalizing cut with
  | nil =>
    cases h
    exact ⟨[], rfl, (List.append_nil _).symm⟩
  | cons g rest ih =>
    obtain ⟨steps, k⟩ := g
    obtain ⟨cut₁, hcut₁, hrest⟩ := Option.bind_eq_some_iff.mp h
    unfold Cut.project at hcut₁
    obtain ⟨chunks, hchunks, hcut₁⟩ := Option.bind_eq_some_iff.mp hcut₁
    obtain ⟨⟨packed, warnings⟩, hpacked, hcut₁⟩ := Option.bind_eq_some_iff.mp hcut₁
    obtain ⟨pieces, hpieces, hsteps⟩ := ih hrest
    refine ⟨packed ++ pieces, ?_, ?_⟩
    · simp only [cutLists, hchunks, hpacked, hpieces, Option.bind_eq_bind, Option.bind_some]
      rfl
    · rw [hsteps, Cut.steps_pieces U hcut₁, List.append_assoc]

end Lists

theorem lookup_mapInsert {κ ν : Type} [DecidableEq κ] (key k : κ) (value : ν)
    (map : List (κ × ν)) :
    (mapInsert key value map).lookup k = if k = key then some value else map.lookup k := by
  rw [mapInsert, List.lookup_cons]
  split_ifs with hk
  · rw [hk, BEq.rfl]
  · rw [beq_false_of_ne hk]
    -- the removed entries are not those of `k`
    induction map with
    | nil => rfl
    | cons e rest ih =>
      obtain ⟨k', v⟩ := e
      by_cases hkey : k' = key
      · rw [List.filter_cons_of_neg (by simpa using hkey), List.lookup_cons,
          beq_false_of_ne fun h => hk (h.trans hkey)]
        exact ih
      · rw [List.filter_cons_of_pos (by simpa using hkey), List.lookup_cons, List.lookup_cons]
        cases k == k' with
        | true => rfl
        | false => exact ih

/-- A piece takes over the numbers of its steps. -/
theorem lookup_foldl_mapInsert (n : UInt32) (i : ℕ) (sub : List ParsedStep)
    (map : List (UInt32 × ℕ)) :
    (sub.foldl (fun map step => mapInsert step.number i map) map).lookup n =
      if n ∈ sub.map (·.number) then some i else map.lookup n := by
  induction sub generalizing map with
  | nil => rfl
  | cons s rest ih =>
    rw [List.foldl_cons, ih, lookup_mapInsert]
    by_cases hn : n = s.number
    · simp [hn]
    · simp [hn]

/-- The name of the piece with index `i`. -/
def pieceSlug (parentSlug : Text) (i : ℕ) : Text := parentSlug ++ "-".toList ++ ofNat (i + 1)

/-- What holds of the pieces cut so far. -/
structure Cut.WellFormed (parentSlug : Text) (cut : Cut) : Prop where
  slugs : cut.pieces.map (·.suggestedSlug) =
    (List.range cut.pieces.length).map (pieceSlug parentSlug)
  titles : ∀ p ∈ cut.pieces, p.title = pieceTitle p.steps
  index : ∀ n i, cut.stepToPiece.lookup n = some i →
    ∃ p, cut.pieces[i]? = some p ∧ ∃ s ∈ p.steps, s.number = n

theorem Cut.wellFormed_empty (parentSlug : Text) : Cut.WellFormed parentSlug {} where
  slugs := rfl
  titles _ h := by cases h
  index _ _ h := by cases h

/-- Cutting a piece appends it. -/
theorem Cut.WellFormed.piece {parentSlug : Text} {cut cut' : Cut} {sub : List ParsedStep}
    (hwf : cut.WellFormed parentSlug) (h : cut.piece U parentSlug sub = some cut') :
    cut'.WellFormed parentSlug := by
  unfold Cut.piece at h
  simp only [Option.bind_eq_bind] at h
  obtain ⟨⟨effort, warnings⟩, -, hret⟩ := Option.bind_eq_some_iff.mp h
  cases hret
  refine ⟨?_, fun p hp => ?_, fun n i hlookup => ?_⟩
  · rw [List.map_append, hwf.slugs, List.length_append, List.length_singleton, List.range_succ,
      List.map_append]
    rfl
  · rcases List.mem_append.mp hp with hp | hp
    · exact hwf.titles p hp
    · rw [List.mem_singleton] at hp
      subst hp
      rfl
  · -- the map sends the numbers of `sub` to the new piece, the others where they were
    dsimp only at hlookup
    rw [lookup_foldl_mapInsert] at hlookup
    split_ifs at hlookup with hn
    · cases hlookup
      obtain ⟨s, hs, hsn⟩ := List.mem_map.mp hn
      exact ⟨_, List.getElem?_concat_length, s, hs, hsn⟩
    · obtain ⟨p, hp, hs⟩ := hwf.index n i hlookup
      refine ⟨p, ?_, hs⟩
      dsimp only
      rw [List.getElem?_append_left (List.getElem?_eq_some_iff.mp hp).1, hp]

theorem Cut.piece_eq_none {parentSlug : Text} {cut : Cut} {sub : List ParsedStep}
    (h : cut.piece U parentSlug sub = none) : 2 ^ 64 ≤ effortSum U sub := by
  unfold Cut.piece at h
  cases htotal : totalEffortSecs U sub 0 false with
  | none => simpa using totalEffortSecs_eq_none U htotal
  | some result =>
    rw [htotal] at h
    cases h

theorem Cut.pieces_eq_none {parentSlug : Text} {cut : Cut} {packed : List (List ParsedStep)}
    (h : packed.foldlM (Cut.piece U parentSlug) cut = none) :
    ∃ sub ∈ packed, 2 ^ 64 ≤ effortSum U sub := by
  induction packed generalizing cut with
  | nil => cases h
  | cons sub rest ih =>
    rw [List.foldlM_cons] at h
    cases hcut : cut.piece U parentSlug sub with
    | none => exact ⟨sub, List.mem_cons_self, Cut.piece_eq_none U hcut⟩
    | some cut₁ =>
      rw [hcut] at h
      obtain ⟨sub', hsub', hsum⟩ := ih h
      exact ⟨sub', List.mem_cons_of_mem _ hsub', hsum⟩

theorem effortSum_le_flatten {packed : List (List ParsedStep)} {sub : List ParsedStep}
    (h : sub ∈ packed) : effortSum U sub ≤ effortSum U packed.flatten := by
  obtain ⟨before, after, rfl⟩ := List.append_of_mem h
  simp only [List.flatten_append, List.flatten_cons, effortSum_append]
  omega

/-- The pieces of one project: its chunks, packed. -/
def PiecesOf (config : DecompositionConfig) (order : HashOrder) (steps : List ParsedStep)
    (packed : List (List ParsedStep)) : Prop :=
  ∃ chunks, atomicChunks U config order steps = some chunks ∧ Packed chunks [] packed

theorem PiecesOf.perm {config : DecompositionConfig} {order : HashOrder} {steps : List ParsedStep}
    {packed : List (List ParsedStep)} (h : PiecesOf U config order steps packed) :
    packed.flatten.Perm steps := by
  obtain ⟨chunks, hchunks, hpacked⟩ := h
  obtain ⟨chunks', hchunks', hperm⟩ := exists_atomicChunks U config order steps
  rw [hchunks, Option.some.injEq] at hchunks'
  rw [hpacked.flatten_eq, List.nil_append, hchunks']
  exact hperm

theorem PiecesOf.mem_steps {config : DecompositionConfig} {order : HashOrder} {steps : List ParsedStep}
    {packed : List (List ParsedStep)} (h : PiecesOf U config order steps packed)
    {p : List ParsedStep} (hp : p ∈ packed) {a : ParsedStep} (ha : a ∈ p) : a ∈ steps :=
  h.perm.mem_iff.mp (List.mem_flatten.mpr ⟨p, hp, ha⟩)

theorem Cut.project_eq_none {config : DecompositionConfig} {parentSlug : Text} {cut : Cut}
    {order : HashOrder} {steps : List ParsedStep}
    (h : cut.project U config parentSlug order steps = none) : 2 ^ 64 ≤ effortSum U steps := by
  obtain ⟨chunks, hchunks, hperm⟩ := exists_atomicChunks U config order steps
  rw [← effortSum_perm U hperm]
  unfold Cut.project at h
  rw [hchunks] at h
  cases hpacked : packChunks U config chunks with
  | none => exact packChunks_eq_none U hpacked
  | some result =>
    obtain ⟨packed, warnings⟩ := result
    have hflatten := (packed_packChunks U hpacked).flatten_eq
    rw [List.nil_append] at hflatten
    simp only [hpacked, Option.bind_eq_bind, Option.bind_some] at h
    rw [← hflatten]
    obtain ⟨sub, hsub, hsum⟩ := Cut.pieces_eq_none U h
    exact hsum.trans (effortSum_le_flatten U hsub)

/-- The lists that are cut are the pieces of all projects. -/
theorem pieces_of_cutLists {config : DecompositionConfig} {orders : ℕ → HashOrder}
    {groups : List (List ParsedStep × ℕ)} {pieces : List (List ParsedStep)}
    (h : cutLists U config orders groups = some pieces) : ∃ packs,
      List.Forall₂ (fun g packed => PiecesOf U config (orders g.2) g.1 packed) groups packs ∧
        pieces = packs.flatten := by
  induction groups generalizing pieces with
  | nil =>
    cases h
    exact ⟨[], .nil, rfl⟩
  | cons g rest ih =>
    obtain ⟨steps, k⟩ := g
    obtain ⟨chunks, hchunks, h⟩ := Option.bind_eq_some_iff.mp h
    obtain ⟨⟨packed, warnings⟩, hpacked, h⟩ := Option.bind_eq_some_iff.mp h
    obtain ⟨more, hmore, hret⟩ := Option.bind_eq_some_iff.mp h
    cases hret
    obtain ⟨packs, hpacks, rfl⟩ := ih hmore
    exact ⟨packed :: packs, .cons ⟨chunks, hchunks, packed_packChunks U hpacked⟩ hpacks, rfl⟩

/-- The pieces of all projects. -/
theorem Cut.projects_eq_some {config : DecompositionConfig} {parentSlug : Text}
    {orders : ℕ → HashOrder} {groups : List (List ParsedStep × ℕ)} {cut cut' : Cut}
    (hwf : cut.WellFormed parentSlug)
    (h : Cut.projects U config parentSlug orders groups cut = some cut') :
    cut'.WellFormed parentSlug ∧ ∃ packs,
      List.Forall₂ (fun g packed => PiecesOf U config (orders g.2) g.1 packed) groups packs ∧
      cut'.pieces.map (·.steps) = cut.pieces.map (·.steps) ++ packs.flatten := by
  obtain ⟨pieces, hlists, hsteps⟩ := Cut.steps_projects U h
  obtain ⟨packs, hpacks, rfl⟩ := pieces_of_cutLists U hlists
  refine ⟨?_, packs, hpacks, hsteps⟩
  exact Cut.projects_invariant U (fun _ _ _ hwf hpiece => hwf.piece U hpiece)
    (fun _ _ _ _ hwf _ => ⟨hwf.slugs, hwf.titles, hwf.index⟩) hwf h

theorem Cut.projects_eq_none {config : DecompositionConfig} {parentSlug : Text}
    {orders : ℕ → HashOrder} {groups : List (List ParsedStep × ℕ)} {cut : Cut}
    (h : Cut.projects U config parentSlug orders groups cut = none) :
    2 ^ 64 ≤ effortSum U (groups.map Prod.fst).flatten := by
  induction groups generalizing cut with
  | nil => cases h
  | cons g rest ih =>
    obtain ⟨steps, k⟩ := g
    rw [List.map_cons, List.flatten_cons, effortSum_append]
    dsimp only
    rw [Cut.projects] at h
    cases hcut : cut.project U config parentSlug (orders k) steps with
    | none =>
      have := Cut.project_eq_none U hcut
      omega
    | some cut₁ =>
      rw [hcut] at h
      have := ih h
      omega

/-! ## The whole decomposition -/

theorem groupByProject_perm (steps : List ParsedStep) (respectBoundaries : Bool) :
    ((groupByProject steps respectBoundaries).map Prod.snd).flatten.Perm steps := by
  unfold groupByProject
  split_ifs
  · rw [← List.flatMap_def]
    exact Grouped.elements_group projectKey steps
  · simp

theorem map_fst_zipIdx {α : Type} (l : List α) : l.zipIdx.map Prod.fst = l := by simp

/-- The dependencies of a piece are other pieces, found under the numbers its steps name. -/
theorem mem_pieceDeps {numbers : List UInt32} {stepToPiece : List (UInt32 × ℕ)} {pieceIdx j : ℕ}
    {steps : List ParsedStep} :
    j ∈ pieceDeps U numbers stepToPiece pieceIdx steps ↔ j ≠ pieceIdx ∧ ∃ a ∈ steps,
      ∃ dep ∈ stepDeps U a, dep ∈ numbers ∧ stepToPiece.lookup dep = some j := by
  have hentry (dep : UInt32) : (if dep ∈ numbers
      then (stepToPiece.lookup dep).filter (· ≠ pieceIdx) else none) = some j ↔
      j ≠ pieceIdx ∧ dep ∈ numbers ∧ stepToPiece.lookup dep = some j := by
    split_ifs with hdep
    · rw [Option.filter_eq_some_iff, decide_eq_true_eq]
      tauto
    · simp [hdep]
  unfold pieceDeps
  simp only [List.mem_insertionSort, List.mem_dedup, List.mem_flatMap, List.mem_filterMap, hentry]
  constructor
  · rintro ⟨a, ha, dep, hdep, hne, hfound⟩
    exact ⟨hne, a, ha, dep, hdep, hfound⟩
  · rintro ⟨hne, a, ha, dep, hdep, hfound⟩
    exact ⟨a, ha, dep, hdep, hne, hfound⟩

theorem map_fillDeps {β : Type} (deps : HandoffPiece → ℕ → List ℕ) (pieces : List HandoffPiece)
    (g : HandoffPiece → β) (hg : ∀ piece dependsOn, g { piece with dependsOn } = g piece) :
    (fillDeps deps pieces).map g = pieces.map g := by
  conv_rhs => rw [← map_fst_zipIdx pieces, List.map_map]
  rw [fillDeps, List.map_map]
  exact List.map_congr_left fun e _ => hg e.1 _

theorem length_fillDeps (deps : HandoffPiece → ℕ → List ℕ) (pieces : List HandoffPiece) :
    (fillDeps deps pieces).length = pieces.length := by
  simp [fillDeps]

theorem getElem?_fillDeps (deps : HandoffPiece → ℕ → List ℕ) {pieces : List HandoffPiece} {i : ℕ}
    {piece : HandoffPiece} (h : pieces[i]? = some piece) :
    (fillDeps deps pieces)[i]? = some { piece with dependsOn := deps piece i } := by
  rw [fillDeps, List.getElem?_map, List.getElem?_zipIdx, h]
  simp

theorem mem_pieceGraph {deps : HandoffPiece → ℕ → List ℕ} {pieces : List HandoffPiece} {i j : ℕ} :
    (i, j) ∈ pieceGraph deps pieces ↔ ∃ piece, pieces[i]? = some piece ∧ j ∈ deps piece i := by
  unfold pieceGraph
  rw [List.mem_flatMap]
  constructor
  · rintro ⟨⟨piece, i'⟩, hmem, hj⟩
    obtain ⟨j', hj, heq⟩ := List.mem_map.mp hj
    cases heq
    exact ⟨piece, List.mem_zipIdx_iff_getElem?.mp hmem, hj⟩
  · rintro ⟨piece, hpiece, hj⟩
    exact ⟨(piece, i), List.mem_zipIdx_iff_getElem?.mpr hpiece, List.mem_map_of_mem hj⟩

/-- What a decomposition returns: the pieces that were cut, in order, and the dependencies between
them. -/
structure Decomposed (config : DecompositionConfig) (orders : ℕ → HashOrder)
    (handoff : ParsedHandoff) (r : DecompositionResult) : Prop where
  pieces : ∃ packs, List.Forall₂ (fun g packed => PiecesOf U config (orders g.2) g.1 packed)
      ((groupByProject handoff.steps config.respectProjectBoundaries).map Prod.snd).zipIdx packs ∧
    r.pieces.map (·.steps) = packs.flatten
  slugs : r.pieces.map (·.suggestedSlug) =
    (List.range r.pieces.length).map (pieceSlug (slugify U handoff.title))
  titles : ∀ p ∈ r.pieces, p.title = pieceTitle p.steps
  graph : ∀ i j, (i, j) ∈ r.dependencyGraph → i ≠ j ∧ ∃ p q, r.pieces[i]? = some p ∧
    r.pieces[j]? = some q ∧ ∃ a ∈ p.steps, ∃ b ∈ q.steps, b.number ∈ stepDeps U a

/-- Decomposition overflows, or returns a result. -/
theorem decompose_cases (config : DecompositionConfig) (orders : ℕ → HashOrder)
    {handoff : ParsedHandoff} (h : handoff.steps ≠ []) :
    decompose U config orders handoff = none ∧ 2 ^ 64 ≤ effortSum U handoff.steps ∨
      ∃ r, decompose U config orders handoff = some (.ok r) ∧
        Decomposed U config orders handoff r := by
  let groups := (groupByProject handoff.steps config.respectProjectBoundaries).map Prod.snd
  unfold decompose
  rw [if_neg h]
  dsimp only
  cases hcut : Cut.projects U config (slugify U handoff.title) orders groups.zipIdx {} with
  | none =>
    have hsum := Cut.projects_eq_none U hcut
    rw [map_fst_zipIdx, effortSum_perm U (groupByProject_perm _ _)] at hsum
    exact .inl ⟨rfl, hsum⟩
  | some cut =>
    obtain ⟨hwf, packs, hpacks, hsteps⟩ := Cut.projects_eq_some U (Cut.wellFormed_empty _) hcut
    have hsteps : cut.pieces.map (·.steps) = packs.flatten := hsteps
    refine .inr ⟨_, rfl, ⟨packs, hpacks, ?_⟩, ?_, ?_, ?_⟩
    · rw [map_fillDeps _ _ (·.steps) fun _ _ => rfl, hsteps]
    · dsimp only
      rw [map_fillDeps _ _ (·.suggestedSlug) fun _ _ => rfl, hwf.slugs, length_fillDeps]
    · intro p hp
      obtain ⟨⟨piece, i⟩, hmem, rfl⟩ := List.mem_map.mp hp
      exact hwf.titles piece (List.fst_mem_of_mem_zipIdx hmem)
    · intro i j hij
      dsimp only at hij
      obtain ⟨piece, hpiece, hj⟩ := mem_pieceGraph.mp hij
      obtain ⟨hne, a, ha, dep, hdep, -, hlookup⟩ := (mem_pieceDeps U).mp hj
      obtain ⟨q, hq, b, hb, rfl⟩ := hwf.index _ _ hlookup
      have hfill {k : ℕ} {piece : HandoffPiece} (hk : cut.pieces[k]? = some piece) :=
        getElem?_fillDeps (fun piece pieceIdx => pieceDeps U
          (handoff.steps.map (·.number)).dedup cut.stepToPiece pieceIdx piece.steps) hk
      exact ⟨hne.symm, _, _, hfill hpiece, hfill hq, a, ha, b, hb, hdep⟩

theorem decomposed_of_ok {config : DecompositionConfig} {orders : ℕ → HashOrder}
    {handoff : ParsedHandoff} {r : DecompositionResult}
    (h : decompose U config orders handoff = some (.ok r)) : Decomposed U config orders handoff r := by
  have hne : handoff.steps ≠ [] := by
    intro he
    rw [decompose, if_pos he] at h
    cases h
  obtain ⟨hnone, -⟩ | ⟨r', hsome, hr'⟩ := decompose_cases U config orders hne
  · rw [h] at hnone
    cases hnone
  · rw [h] at hsome
    cases hsome
    exact hr'

/-- The steps of the pieces are the steps of the handoff. -/
theorem Decomposed.perm {config : DecompositionConfig} {orders : ℕ → HashOrder}
    {handoff : ParsedHandoff} {r : DecompositionResult}
    (h : Decomposed U config orders handoff r) :
    (r.pieces.map (·.steps)).flatten.Perm handoff.steps := by
  obtain ⟨packs, hpacks, hsteps⟩ := h.pieces
  rw [hsteps]
  refine List.Perm.trans ?_ (groupByProject_perm handoff.steps config.respectProjectBoundaries)
  rw [← map_fst_zipIdx ((groupByProject _ _).map Prod.snd)]
  generalize ((groupByProject _ _).map Prod.snd).zipIdx = groups at hpacks
  clear hsteps
  induction hpacks with
  | nil => exact .nil
  | cons hpacked _ ih =>
    rw [List.flatten_cons, List.flatten_append, List.map_cons, List.flatten_cons]
    exact hpacked.perm.append ih

theorem Decomposed.mem_steps {config : DecompositionConfig} {orders : ℕ → HashOrder}
    {handoff : ParsedHandoff} {r : DecompositionResult} (h : Decomposed U config orders handoff r)
    {p : HandoffPiece} (hp : p ∈ r.pieces) {a : ParsedStep} (ha : a ∈ p.steps) :
    a ∈ handoff.steps :=
  h.perm.mem_iff.mp (List.mem_flatten.mpr ⟨p.steps, List.mem_map_of_mem hp, ha⟩)

theorem exists_of_mem_packs {config : DecompositionConfig} {orders : ℕ → HashOrder}
    {groups : List (List ParsedStep × ℕ)} {packs : List (List (List ParsedStep))}
    (h : List.Forall₂ (fun g packed => PiecesOf U config (orders g.2) g.1 packed) groups packs)
    {packed : List (List ParsedStep)} (hpacked : packed ∈ packs) :
    ∃ g ∈ groups, PiecesOf U config (orders g.2) g.1 packed := by
  induction h with
  | nil => cases hpacked
  | @cons g packed' _ _ hg _ ih =>
    rcases List.mem_cons.mp hpacked with rfl | hmem
    · exact ⟨g, List.mem_cons_self, hg⟩
    · obtain ⟨g', hg', hpieces⟩ := ih hmem
      exact ⟨g', List.mem_cons_of_mem _ hg', hpieces⟩

/-- No piece is empty. -/
theorem Decomposed.ne_nil {config : DecompositionConfig} {orders : ℕ → HashOrder}
    {handoff : ParsedHandoff} {r : DecompositionResult}
    (h : Decomposed U config orders handoff r) : ∀ p ∈ r.pieces, p.steps ≠ [] := by
  obtain ⟨packs, hpacks, hsteps⟩ := h.pieces
  intro p hp
  have hmem : p.steps ∈ packs.flatten := hsteps ▸ List.mem_map_of_mem hp
  obtain ⟨packed, hpacked, hmem⟩ := List.mem_flatten.mp hmem
  obtain ⟨g, -, chunks, -, hpack⟩ := exists_of_mem_packs U hpacks hpacked
  exact hpack.ne_nil p.steps hmem

/-- The names of the pieces differ. -/
theorem Decomposed.nodup_slugs {config : DecompositionConfig} {orders : ℕ → HashOrder}
    {handoff : ParsedHandoff} {r : DecompositionResult}
    (h : Decomposed U config orders handoff r) : (r.pieces.map (·.suggestedSlug)).Nodup := by
  rw [h.slugs]
  refine List.Nodup.map (fun i j hij => ?_) List.nodup_range
  unfold pieceSlug at hij
  have := ofNat_injective (List.append_cancel_left hij)
  omega

/-- Decomposition loses and duplicates nothing: an effort sum overflows only when the efforts of
all steps have more than 64 bits together, and otherwise the steps of the handoff are dealt out to
pieces that are not empty and have different names. -/
theorem decompose_partitions (config : DecompositionConfig) (orders : ℕ → HashOrder)
    (handoff : ParsedHandoff) (h : handoff.steps ≠ []) :
    (decompose U config orders handoff = none → 2 ^ 64 ≤ effortSum U handoff.steps) ∧
      ∀ outcome, decompose U config orders handoff = some outcome → ∃ r, outcome = .ok r ∧
        (r.pieces.map (·.steps)).flatten.Perm handoff.steps ∧
        (∀ p ∈ r.pieces, p.steps ≠ []) ∧ (r.pieces.map (·.suggestedSlug)).Nodup := by
  obtain ⟨hnone, hsum⟩ | ⟨r, hsome, hr⟩ := decompose_cases U config orders h
  · exact ⟨fun _ => hsum, fun outcome hout => by simp [hnone] at hout⟩
  · refine ⟨fun hnone => by simp [hsome] at hnone, fun outcome hout => ?_⟩
    rw [hsome, Option.some.injEq] at hout
    exact ⟨r, hout.symm, hr.perm, hr.ne_nil, hr.nodup_slugs⟩

/-- Two steps of one number, with and without effort. -/
def repeatedHandoff : ParsedHandoff where
  title := "Ship".toList
  problem := "p".toList
  intent := "i".toList
  steps := [{ number := 1, title := "a".toList, effort := some "2-3 hours".toList },
    { number := 1, title := "b".toList, dependsOn := ["Step 1".toList] }]

theorem decompose_partitions_repeated :
    ∃ r, decompose .asciiTables {} (fun _ => .inOrder) repeatedHandoff = some (.ok r) ∧
      (r.pieces.map (·.steps)).flatten.Perm repeatedHandoff.steps ∧
      (∀ p ∈ r.pieces, p.steps ≠ []) ∧ (r.pieces.map (·.suggestedSlug)).Nodup := by
  obtain ⟨hnone, hsome⟩ := decompose_partitions .asciiTables {} (fun _ => .inOrder)
    repeatedHandoff (by decide)
  have hsum : effortSum .asciiTables repeatedHandoff.steps < 2 ^ 64 := by decide +kernel
  obtain ⟨outcome, hout⟩ :=
    Option.ne_none_iff_exists'.mp fun h => absurd (hnone h) (not_le.mpr hsum)
  obtain ⟨r, rfl, hr⟩ := hsome outcome hout
  exact ⟨r, hout, hr⟩

end Hymenium
