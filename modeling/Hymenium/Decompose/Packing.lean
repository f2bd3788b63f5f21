import Hymenium.Decompose.Components
import Hymenium.Decompose.Graph
import Hymenium.Foundations.NextFit

/-!
# Packing is next-fit

`pack_chunks` packs chunks into pieces by their effort, or by the number of their steps. Both loops
are next-fit packing of whole chunks (`packChunks_nextFit`), where the one over efforts adds 64-bit
numbers: it overflows exactly when next-fit packing over unbounded numbers looks at a load that does
not fit (`packByEffort_cases`).

The efforts of a decomposition are exact when that happens in no project (`effortsExact_iff`).
-/

namespace Hymenium

open Text

variable (U : Unicode)

/-! ## Weights -/

theorem load_effortSum (bin : List (List ParsedStep)) :
    NextFit.load (effortSum U) bin = effortSum U bin.flatten := by
  induction bin with
  | nil => rfl
  | cons chunk rest ih =>
    rw [List.flatten_cons, effortSum_append, ← ih]
    rfl

theorem load_length (bin : List (List ParsedStep)) :
    NextFit.load List.length bin = bin.flatten.length :=
  List.length_flatten.symm

theorem flatten_eq_nil_iff {bin : List (List ParsedStep)} (h : ∀ c ∈ bin, c ≠ []) :
    bin.flatten = [] ↔ bin = [] := by
  rw [List.flatten_eq_nil_iff]
  constructor
  · intro hnil
    cases bin with
    | nil => rfl
    | cons c rest => exact absurd (hnil c List.mem_cons_self) (h c List.mem_cons_self)
  · rintro rfl
    exact nofun

/-! ## The two loops -/

section Loops

variable {config : DecompositionConfig} {chunks bin : List (List ParsedStep)}

/-- The loop over the numbers of steps. -/
theorem packByCount_eq (hchunks : ∀ c ∈ chunks, c ≠ []) (hbin : ∀ c ∈ bin, c ≠ []) :
    packByCount config chunks bin.flatten bin.flatten.length =
      (NextFit.packFrom List.length config.maxStepsPerPiece chunks bin).map List.flatten := by
  induction chunks generalizing bin with
  | nil =>
    rw [packByCount, NextFit.packFrom]
    simp only [flatten_eq_nil_iff hbin]
    split_ifs
    · rfl
    · rfl
  | cons chunk rest ih =>
    obtain ⟨hchunk, hrest⟩ := List.forall_mem_cons.mp hchunks
    rw [packByCount, ← load_length]
    rcases NextFit.close_or_join List.length config.maxStepsPerPiece bin chunk with
      ⟨hne, hlt⟩ | hle
    · rw [if_pos ⟨(flatten_eq_nil_iff hbin).not.mpr hne, hlt⟩, NextFit.packFrom_close hne hlt,
        List.map_cons]
      have hopened : ∀ c ∈ [chunk], c ≠ [] := by simpa using hchunk
      have hnext := ih hrest hopened
      rw [List.flatten_singleton] at hnext
      rw [hnext]
    · have hjoined : ∀ c ∈ bin ++ [chunk], c ≠ [] := by
        simpa [or_imp, forall_and] using ⟨hbin, hchunk⟩
      rw [if_neg fun h => absurd (hle ((flatten_eq_nil_iff hbin).not.mp h.1)) (not_le.mpr h.2),
        NextFit.packFrom_join hle, ← ih hrest hjoined, List.flatten_append, List.flatten_singleton,
        List.length_append, load_length]

/-- A closed piece: the sum is above the limit. -/
theorem closesBefore_true {secs chunkSecs sum : UInt64} (hbin : ∀ c ∈ bin, c ≠ [])
    (hne : bin ≠ []) (hadd : addSecs secs chunkSecs = some sum)
    (hlt : config.maxEffortPerPieceSecs.toNat < sum.toNat) :
    closesBefore config bin.flatten secs chunkSecs = some true := by
  rw [closesBefore, if_neg ((flatten_eq_nil_iff hbin).not.mpr hne), hadd, Option.map_some]
  exact congrArg some (decide_eq_true (UInt64.lt_iff_toNat_lt.mpr hlt))

/-- A piece that takes the chunk: it is empty, or the sum is within the limit. -/
theorem closesBefore_false {secs chunkSecs sum : UInt64} (hbin : ∀ c ∈ bin, c ≠ [])
    (hadd : addSecs secs chunkSecs = some sum)
    (hle : bin ≠ [] → sum.toNat ≤ config.maxEffortPerPieceSecs.toNat) :
    closesBefore config bin.flatten secs chunkSecs = some false := by
  unfold closesBefore
  split_ifs with hnil
  · rfl
  · rw [hadd, Option.map_some]
    have hle := hle ((flatten_eq_nil_iff hbin).not.mp hnil)
    refine congrArg some (decide_eq_false fun hlt => ?_)
    exact absurd (UInt64.lt_iff_toNat_lt.mp hlt) (not_lt.mpr hle)

theorem addSecs_of_lt {a b : UInt64} (h : a.toNat + b.toNat < 2 ^ 64) :
    ∃ sum, addSecs a b = some sum ∧ sum.toNat = a.toNat + b.toNat :=
  ⟨a + b, if_pos h, addSecs_eq_some (if_pos h)⟩

/-- The loop over the efforts stops at a load that does not have 64 bits. -/
theorem packByEffort_overflow {chunk : List ParsedStep} {rest : List (List ParsedStep)}
    (hbin : ∀ c ∈ bin, c ≠ []) {secs : UInt64}
    (hsecs : secs.toNat = NextFit.load (effortSum U) bin)
    (h : 2 ^ 64 ≤ NextFit.load (effortSum U) bin + effortSum U chunk) :
    packByEffort U config (chunk :: rest) bin.flatten secs = none := by
  rw [packByEffort]
  cases hchunk : chunkEffortSecs U chunk 0 with
  | none => rfl
  | some result =>
    obtain ⟨chunkSecs, warnings⟩ := result
    have hvalue := chunkEffortSecs_eq_some U hchunk
    rw [UInt64.toNat_zero, Nat.zero_add] at hvalue
    have hne : bin ≠ [] := by
      rintro rfl
      rw [NextFit.load_nil] at h
      have hlt := chunkSecs.toNat_lt
      omega
    have hclose : closesBefore config bin.flatten secs chunkSecs = none := by
      rw [closesBefore, if_neg ((flatten_eq_nil_iff hbin).not.mpr hne), addSecs, if_neg (by omega),
        Option.map_none]
    simp only [Option.bind_eq_bind, Option.bind_some, hclose, Option.bind_none]

/-- A chunk whose efforts have 64 bits together has their sum. -/
theorem exists_chunkEffortSecs {chunk : List ParsedStep} (h : effortSum U chunk < 2 ^ 64) :
    ∃ secs warnings, chunkEffortSecs U chunk 0 = some (secs, warnings) ∧
      secs.toNat = effortSum U chunk := by
  cases hchunk : chunkEffortSecs U chunk 0 with
  | none =>
    have hle := chunkEffortSecs_eq_none U hchunk
    rw [UInt64.toNat_zero] at hle
    omega
  | some result =>
    obtain ⟨secs, warnings⟩ := result
    have hvalue := chunkEffortSecs_eq_some U hchunk
    rw [UInt64.toNat_zero, Nat.zero_add] at hvalue
    exact ⟨secs, warnings, rfl, hvalue⟩

/-- The loop closes a piece that the chunk would take over the limit. -/
theorem packByEffort_close {chunk : List ParsedStep} {secs : UInt64} (hbin : ∀ c ∈ bin, c ≠ [])
    (hne : bin ≠ []) (hfit : secs.toNat + effortSum U chunk < 2 ^ 64)
    (hlt : config.maxEffortPerPieceSecs.toNat < secs.toNat + effortSum U chunk)
    (rest : List (List ParsedStep)) : ∃ first chunkWarnings, first.toNat = effortSum U chunk ∧
      packByEffort U config (chunk :: rest) bin.flatten secs =
        (packByEffort U config rest chunk first).map fun result =>
          (bin.flatten :: result.1, chunkWarnings ++ result.2) := by
  have hchunk : effortSum U chunk < 2 ^ 64 := by omega
  obtain ⟨chunkSecs, chunkWarnings, hsome, hvalue⟩ := exists_chunkEffortSecs U hchunk
  obtain ⟨sum, hadd, hsum⟩ := addSecs_of_lt (a := secs) (b := chunkSecs) (by omega)
  obtain ⟨first, hfirst, hfirstValue⟩ := addSecs_of_lt (a := 0) (b := chunkSecs)
    (by rw [UInt64.toNat_zero]; omega)
  rw [UInt64.toNat_zero, Nat.zero_add, hvalue] at hfirstValue
  have hclose : closesBefore config bin.flatten secs chunkSecs = some true :=
    closesBefore_true hbin hne hadd (by omega)
  refine ⟨first, chunkWarnings, hfirstValue, ?_⟩
  rw [packByEffort, hsome]
  simp only [Option.bind_eq_bind, Option.bind_some, hclose, if_true, hfirst]
  cases packByEffort U config rest chunk first with
  | none => rfl
  | some result => rfl

/-- The loop adds a chunk to an empty piece, or to one that stays within the limit. -/
theorem packByEffort_join {chunk : List ParsedStep} {secs : UInt64} (hbin : ∀ c ∈ bin, c ≠ [])
    (hfit : secs.toNat + effortSum U chunk < 2 ^ 64)
    (hle : bin ≠ [] → secs.toNat + effortSum U chunk ≤ config.maxEffortPerPieceSecs.toNat)
    (rest : List (List ParsedStep)) :
    ∃ sum chunkWarnings, sum.toNat = secs.toNat + effortSum U chunk ∧
      packByEffort U config (chunk :: rest) bin.flatten secs =
        (packByEffort U config rest (bin.flatten ++ chunk) sum).map fun result =>
          (result.1, chunkWarnings ++ result.2) := by
  have hchunk : effortSum U chunk < 2 ^ 64 := by omega
  obtain ⟨chunkSecs, chunkWarnings, hsome, hvalue⟩ := exists_chunkEffortSecs U hchunk
  obtain ⟨sum, hadd, hsum⟩ := addSecs_of_lt (a := secs) (b := chunkSecs) (by omega)
  have hclose : closesBefore config bin.flatten secs chunkSecs = some false := by
    refine closesBefore_false hbin hadd fun hne => ?_
    have hlimit := hle hne
    omega
  refine ⟨sum, chunkWarnings, by rw [hsum, hvalue], ?_⟩
  rw [packByEffort, hsome]
  simp only [Option.bind_eq_bind, Option.bind_some, hclose, Bool.false_eq_true, if_false, hadd]
  cases packByEffort U config rest (bin.flatten ++ chunk) sum with
  | none => rfl
  | some result => rfl

/-- The loop over the efforts: next-fit packing when all loads it looks at have 64 bits, and
otherwise an overflow. -/
theorem packByEffort_cases (config : DecompositionConfig) (hchunks : ∀ c ∈ chunks, c ≠ [])
    (hbin : ∀ c ∈ bin, c ≠ []) {secs : UInt64}
    (hsecs : secs.toNat = NextFit.load (effortSum U) bin) :
    let bins := NextFit.packFrom (effortSum U) config.maxEffortPerPieceSecs.toNat chunks bin
    (NextFit.LoadsBelow (effortSum U) (2 ^ 64) bins ∧ ∃ warnings,
      packByEffort U config chunks bin.flatten secs = some (bins.map List.flatten, warnings)) ∨
    (¬ NextFit.LoadsBelow (effortSum U) (2 ^ 64) bins ∧
      packByEffort U config chunks bin.flatten secs = none) := by
  intro bins
  induction chunks generalizing bin secs with
  | nil =>
    refine .inl ⟨NextFit.loadsBelow_packFrom_nil (hsecs ▸ secs.toNat_lt), [], ?_⟩
    unfold bins
    rw [packByEffort, NextFit.packFrom]
    simp only [flatten_eq_nil_iff hbin]
    split_ifs
    · rfl
    · rfl
  | cons chunk rest ih =>
    obtain ⟨hchunk, hrest⟩ := List.forall_mem_cons.mp hchunks
    by_cases hfit : NextFit.load (effortSum U) bin + effortSum U chunk < 2 ^ 64
    · unfold bins
      rcases NextFit.close_or_join (effortSum U) config.maxEffortPerPieceSecs.toNat bin chunk with
        ⟨hne, hlt⟩ | hle
      · -- the piece is closed, and the chunk opens the next one
        obtain ⟨first, chunkWarnings, hfirst, hrun⟩ :=
          packByEffort_close U hbin hne (by rwa [hsecs]) (by rwa [hsecs]) rest
        have hopened : ∀ c ∈ [chunk], c ≠ [] := by simpa using hchunk
        have hnext := ih hrest hopened
          (hfirst.trans (NextFit.load_singleton (effortSum U) chunk).symm)
        rw [List.flatten_singleton] at hnext
        rw [NextFit.loadsBelow_packFrom_close hne hlt, NextFit.packFrom_close hne hlt, hrun]
        rcases hnext with ⟨hbelow, more, hpacked⟩ | ⟨hbelow, hnone⟩
        · exact .inl ⟨⟨hfit, hbelow⟩, chunkWarnings ++ more, by rw [hpacked]; rfl⟩
        · exact .inr ⟨fun h => hbelow h.2, by rw [hnone]; rfl⟩
      · obtain ⟨sum, chunkWarnings, hsum, hrun⟩ :=
          packByEffort_join U hbin (by rwa [hsecs]) (by rwa [hsecs]) rest
        have hjoined : ∀ c ∈ bin ++ [chunk], c ≠ [] := by
          simpa [or_imp, forall_and] using ⟨hbin, hchunk⟩
        have hload : sum.toNat = NextFit.load (effortSum U) (bin ++ [chunk]) := by
          rw [hsum, hsecs, NextFit.load_append, NextFit.load_singleton]
        have hnext := ih hrest hjoined hload
        rw [List.flatten_append, List.flatten_singleton] at hnext
        rw [NextFit.packFrom_join hle, hrun]
        rcases hnext with ⟨hbelow, more, hpacked⟩ | ⟨hbelow, hnone⟩
        · exact .inl ⟨hbelow, chunkWarnings ++ more, by rw [hpacked]; rfl⟩
        · exact .inr ⟨hbelow, by rw [hnone]; rfl⟩
    · exact .inr ⟨fun h => hfit h.add_lt, packByEffort_overflow U hbin hsecs (not_lt.mp hfit)⟩

end Loops

/-! ## Packing -/

/-- One of the steps to pack has an effort. -/
def HasEffort (chunks : List (List ParsedStep)) : Prop :=
  chunks.flatten.any (·.effort.isSome) = true

instance : DecidablePred HasEffort := fun chunks =>
  inferInstanceAs (Decidable (chunks.flatten.any (·.effort.isSome) = true))

/-- The total of a piece: the seconds of its steps when one of the steps to pack has an effort, and
otherwise their number. -/
def pieceTotal (chunks : List (List ParsedStep)) : List ParsedStep → ℕ :=
  if HasEffort chunks then effortSum U else List.length

/-- The limit on the total of a piece. -/
def pieceLimit (config : DecompositionConfig) (chunks : List (List ParsedStep)) : ℕ :=
  if HasEffort chunks then config.maxEffortPerPieceSecs.toNat else config.maxStepsPerPiece

theorem effortOf_of_not_hasEffort {chunks : List (List ParsedStep)} (h : ¬ HasEffort chunks)
    {s : ParsedStep} (hs : s ∈ chunks.flatten) : effortOf U s = 0 := by
  apply effortOf_none
  cases heffort : s.effort with
  | none => rfl
  | some effort =>
    refine absurd (List.any_eq_true.mpr ⟨s, hs, ?_⟩) h
    rw [heffort]
    rfl

theorem effortSum_eq_zero {steps : List ParsedStep} (h : ∀ s ∈ steps, effortOf U s = 0) :
    effortSum U steps = 0 := by
  induction steps with
  | nil => rfl
  | cons s rest ih =>
    obtain ⟨hs, hrest⟩ := List.forall_mem_cons.mp h
    rw [effortSum_cons, hs, ih hrest]

section Pack

variable {config : DecompositionConfig} {chunks : List (List ParsedStep)}

theorem packChunks_of_hasEffort (h : HasEffort chunks) :
    packChunks U config chunks = packByEffort U config chunks [] 0 := by
  have hnil : chunks ≠ [] := by
    rintro rfl
    cases h
  rw [packChunks, if_neg hnil]
  exact if_pos h

theorem packChunks_of_not_hasEffort (h : ¬ HasEffort chunks) :
    packChunks U config chunks = some (packByCount config chunks [] 0, []) := by
  unfold packChunks
  split_ifs with hnil heffort
  · subst hnil
    rfl
  · exact absurd heffort h
  · rfl

/-- Packing returns next-fit bins when all loads have 64 bits, and overflows otherwise. -/
theorem packChunks_cases (config : DecompositionConfig) (hchunks : ∀ c ∈ chunks, c ≠ []) :
    NextFit.LoadsBelow (effortSum U) (2 ^ 64)
        (NextFit.pack (effortSum U) config.maxEffortPerPieceSecs.toNat chunks) ∧
      (∃ warnings, packChunks U config chunks = some ((NextFit.pack (pieceTotal U chunks)
        (pieceLimit config chunks) chunks).map List.flatten, warnings)) ∨
    ¬ NextFit.LoadsBelow (effortSum U) (2 ^ 64)
        (NextFit.pack (effortSum U) config.maxEffortPerPieceSecs.toNat chunks) ∧
      packChunks U config chunks = none := by
  by_cases h : HasEffort chunks
  · have hempty : ∀ c ∈ ([] : List (List ParsedStep)), c ≠ [] := nofun
    have hcases := packByEffort_cases U config hchunks hempty UInt64.toNat_zero
    rw [packChunks_of_hasEffort U h, pieceTotal, pieceLimit, if_pos h, if_pos h]
    exact hcases
  · -- without efforts the loads are 0, and nothing is added
    have hzero : NextFit.load (effortSum U) chunks = 0 := by
      rw [load_effortSum]
      exact effortSum_eq_zero U fun s hs => effortOf_of_not_hasEffort U h hs
    have hempty : ∀ c ∈ ([] : List (List ParsedStep)), c ≠ [] := nofun
    rw [packChunks_of_not_hasEffort U h, pieceTotal, pieceLimit, if_neg h, if_neg h]
    refine .inl ⟨NextFit.loadsBelow_pack (by rw [hzero]; decide), [], ?_⟩
    exact congrArg (fun pieces => some (pieces, [])) (packByCount_eq hchunks hempty)

end Pack

/-- **Packing.** Chunks whose efforts have 64 bits together are packed into pieces of whole chunks in
order; a piece is a single chunk or its total is within the limit, and no piece has room for the
first chunk of the next one. -/
theorem packChunks_nextFit (config : DecompositionConfig) (chunks : List (List ParsedStep))
    (hchunks : ∀ c ∈ chunks, c ≠ []) (hsum : effortSum U chunks.flatten < 2 ^ 64) :
    ∃ (groups : List (List (List ParsedStep))) (warnings : List Text),
      packChunks U config chunks = some (groups.map List.flatten, warnings) ∧
      groups.flatten = chunks ∧ (∀ g ∈ groups, g ≠ []) ∧
      (∀ g ∈ groups, g.length = 1 ∨ pieceTotal U chunks g.flatten ≤ pieceLimit config chunks) ∧
      groups.IsChain fun g h => ∀ c ∈ h.head?,
        pieceLimit config chunks < pieceTotal U chunks (g.flatten ++ c) := by
  have hload (bin : List (List ParsedStep)) :
      NextFit.load (pieceTotal U chunks) bin = pieceTotal U chunks bin.flatten := by
    unfold pieceTotal
    split_ifs
    · exact load_effortSum U bin
    · exact load_length bin
  have hadd (a b : List ParsedStep) :
      pieceTotal U chunks (a ++ b) = pieceTotal U chunks a + pieceTotal U chunks b := by
    unfold pieceTotal
    split_ifs
    · exact effortSum_append U a b
    · exact List.length_append
  have hfit := NextFit.isNextFit_pack (pieceTotal U chunks) (pieceLimit config chunks) chunks
  rcases packChunks_cases U config hchunks with ⟨-, warnings, hpacked⟩ | ⟨hbelow, -⟩
  · refine ⟨_, warnings, hpacked, hfit.flatten, hfit.ne_nil, fun g hg => ?_, ?_⟩
    · rw [← hload]
      exact hfit.fits g hg
    · refine hfit.maximal.imp fun g h hgh c hc => ?_
      rw [hadd, ← hload]
      exact hgh c hc
  · rw [← load_effortSum] at hsum
    exact absurd (NextFit.loadsBelow_pack hsum) hbelow

/-- Three steps with efforts. -/
def hourChunks : List (List ParsedStep) := [
  [{ number := 1, title := "a".toList, effort := some "1 hour".toList }],
  [{ number := 2, title := "b".toList, effort := some "3 hours".toList }],
  [{ number := 3, title := "c".toList, effort := some "3 hours".toList }]]

theorem packChunks_nextFit_hours : ∃ (groups : List (List (List ParsedStep)))
    (warnings : List Text),
    packChunks .asciiTables {} hourChunks = some (groups.map List.flatten, warnings) ∧
    groups.flatten = hourChunks ∧ groups.IsChain fun g h => ∀ c ∈ h.head?,
      4 * 3600 < effortSum .asciiTables (g.flatten ++ c) := by
  have heffort : HasEffort hourChunks := by decide +kernel
  obtain ⟨groups, warnings, hpacked, hflatten, -, -, hmaximal⟩ := packChunks_nextFit .asciiTables {}
    hourChunks (by decide) (by decide +kernel)
  rw [pieceTotal, pieceLimit, if_pos heffort, if_pos heffort] at hmaximal
  exact ⟨groups, warnings, hpacked, hflatten, hmaximal⟩

/-! ## Efforts -/

/-- The effort of a piece is the sum of the efforts of its steps, if one of them can be parsed. -/
structure HasTrueEffort (piece : HandoffPiece) : Prop where
  sum : ∀ secs, piece.estimatedEffortSecs = some secs → secs.toNat = effortSum U piece.steps
  isSome_iff : piece.estimatedEffortSecs.isSome = true ↔ ∃ s ∈ piece.steps, Estimated U s

section Efforts

variable {config : DecompositionConfig} {orders : ℕ → HashOrder}

/-- Where decomposition returns, the efforts of its pieces are the true ones. -/
theorem hasTrueEffort_of_ok {handoff : ParsedHandoff} {r : DecompositionResult}
    (h : decompose U config orders handoff = some (.ok r)) :
    ∀ p ∈ r.pieces, HasTrueEffort U p := by
  obtain ⟨cut, hcut, deps, -, hpieces, -, -⟩ := exists_cut U h
  have htrue : ∀ p ∈ cut.pieces, HasTrueEffort U p := by
    refine Cut.projects_invariant (P := fun cut => ∀ p ∈ cut.pieces, HasTrueEffort U p) U
      (fun cut sub cut' hcut hpiece => ?_) (fun _ _ _ _ hcut _ => hcut)
      (fun _ hp => absurd hp List.not_mem_nil) hcut
    unfold Cut.piece at hpiece
    obtain ⟨⟨effort, warnings⟩, htotal, hret⟩ := Option.bind_eq_some_iff.mp hpiece
    cases hret
    obtain ⟨hsum, hsome⟩ := totalEffortSecs_eq_some U htotal
    rw [UInt64.toNat_zero, Nat.zero_add] at hsum
    intro p hp
    rcases List.mem_append.mp hp with hp | hp
    · exact hcut p hp
    · rw [List.mem_singleton] at hp
      subst hp
      exact ⟨hsum, hsome.trans (or_iff_right Bool.false_ne_true)⟩
  intro p hp
  rw [hpieces] at hp
  obtain ⟨⟨piece, i⟩, hmem, rfl⟩ := List.mem_map.mp hp
  obtain ⟨hsum, hsome⟩ := htrue piece (List.fst_mem_of_mem_zipIdx hmem)
  exact ⟨hsum, hsome⟩

/-- The chunks of a project are not empty. -/
theorem ne_nil_of_atomicChunks {order : HashOrder} {steps : List ParsedStep}
    {chunks : List (List ParsedStep)} (h : atomicChunks U config order steps = some chunks) :
    ∀ c ∈ chunks, c ≠ [] := by
  unfold atomicChunks at h
  split_ifs at h
  · obtain ⟨rep, hmerge, -⟩ := mergeDependencyGroups_eq U order steps
    cases h.symm.trans hmerge
    exact fun c hc => (mem_mergedGroups hc).1
  · cases h
    simp

/-- Packing that does not overflow leaves pieces whose efforts have 64 bits. -/
theorem effortSum_piece_lt {chunks : List (List ParsedStep)}
    (hbelow : NextFit.LoadsBelow (effortSum U) (2 ^ 64)
      (NextFit.pack (effortSum U) config.maxEffortPerPieceSecs.toNat chunks))
    {sub : List ParsedStep} (hsub : sub ∈ (NextFit.pack (pieceTotal U chunks)
      (pieceLimit config chunks) chunks).map List.flatten) : effortSum U sub < 2 ^ 64 := by
  obtain ⟨bin, hbin, rfl⟩ := List.mem_map.mp hsub
  by_cases h : HasEffort chunks
  · rw [pieceTotal, pieceLimit, if_pos h, if_pos h] at hbin
    rw [← load_effortSum]
    exact hbelow.loads bin hbin
  · have hzero : effortSum U bin.flatten = 0 := by
      refine effortSum_eq_zero U fun s hs => effortOf_of_not_hasEffort U h ?_
      obtain ⟨chunk, hchunk, hs⟩ := List.mem_flatten.mp hs
      refine List.mem_flatten.mpr ⟨chunk, ?_, hs⟩
      rw [← (NextFit.isNextFit_pack (pieceTotal U chunks) (pieceLimit config chunks) chunks).flatten]
      exact List.mem_flatten.mpr ⟨bin, hbin, hchunk⟩
    rw [hzero]
    decide

/-- In next-fit packing of the chunks of a project over unbounded numbers, every piece has less than
`2 ^ 64` seconds, also together with the first chunk of the next piece. -/
def EffortsFit (config : DecompositionConfig) (order : HashOrder) (steps : List ParsedStep) : Prop :=
  ∀ chunks, atomicChunks U config order steps = some chunks →
    NextFit.LoadsBelow (effortSum U) (2 ^ 64)
      (NextFit.pack (effortSum U) config.maxEffortPerPieceSecs.toNat chunks)

theorem Cut.project_eq_none_iff {parentSlug : Text} {cut : Cut} {order : HashOrder}
    {steps : List ParsedStep} :
    cut.project U config parentSlug order steps = none ↔ ¬ EffortsFit U config order steps := by
  obtain ⟨chunks, hchunks, -⟩ := exists_atomicChunks U config order steps
  have hfit : EffortsFit U config order steps ↔ NextFit.LoadsBelow (effortSum U) (2 ^ 64)
      (NextFit.pack (effortSum U) config.maxEffortPerPieceSecs.toNat chunks) := by
    constructor
    · exact fun h => h chunks hchunks
    · intro h chunks' hchunks'
      cases hchunks.symm.trans hchunks'
      exact h
  unfold Cut.project
  rw [hfit, hchunks]
  simp only [Option.bind_eq_bind, Option.bind_some]
  rcases packChunks_cases U config (ne_nil_of_atomicChunks U hchunks) with
    ⟨hbelow, warnings, hpacked⟩ | ⟨hbelow, hnone⟩
  · refine iff_of_false (fun hproject => ?_) (not_not.mpr hbelow)
    rw [hpacked, Option.bind_some] at hproject
    obtain ⟨sub, hsub, hsum⟩ := Cut.pieces_eq_none U hproject
    exact absurd (effortSum_piece_lt U hbelow hsub) (not_lt.mpr hsum)
  · rw [hnone]
    exact iff_of_true rfl hbelow

theorem Cut.projects_eq_none_iff {parentSlug : Text} {groups : List (List ParsedStep × ℕ)}
    {cut : Cut} : Cut.projects U config parentSlug orders groups cut = none ↔
      ∃ g ∈ groups, ¬ EffortsFit U config (orders g.2) g.1 := by
  induction groups generalizing cut with
  | nil =>
    refine iff_of_false (Option.some_ne_none _) ?_
    rintro ⟨g, hg, -⟩
    exact List.not_mem_nil hg
  | cons g rest ih =>
    obtain ⟨steps, k⟩ := g
    rw [Cut.projects]
    simp only [List.mem_cons, exists_eq_or_imp]
    cases hcut : cut.project U config parentSlug (orders k) steps with
    | none => exact iff_of_true rfl (.inl ((Cut.project_eq_none_iff U).mp hcut))
    | some cut₁ =>
      have hfit : EffortsFit U config (orders k) steps := by
        by_contra hfit
        cases hcut.symm.trans ((Cut.project_eq_none_iff U).mpr hfit)
      simp only [Option.bind_eq_bind, Option.bind_some, ih, hfit, not_true_eq_false, false_or]

end Efforts

/-- **Effort sums.** Decomposition does not overflow, and the efforts of all pieces are the true
ones, if and only if the efforts of every project fit. -/
theorem effortsExact_iff (config : DecompositionConfig) (orders : ℕ → HashOrder)
    (handoff : ParsedHandoff) :
    ((decompose U config orders handoff).isSome = true ∧
      ∀ r, decompose U config orders handoff = some (.ok r) → ∀ p ∈ r.pieces, HasTrueEffort U p) ↔
    ∀ g ∈ numberedGroups config handoff.steps, EffortsFit U config (orders g.2) g.1 := by
  have hcut : (decompose U config orders handoff).isSome = true ↔
      Cut.projects U config (slugify U handoff.title) orders
        (numberedGroups config handoff.steps) {} ≠ none := by
    unfold decompose
    split_ifs with hnil
    · refine iff_of_true rfl fun hnone => ?_
      have hsum := Cut.projects_eq_none U hnone
      rw [numberedGroups, map_fst_zipIdx, effortSum_perm U (groupByProject_perm _ _), hnil,
        effortSum_nil] at hsum
      exact absurd hsum (by decide)
    · change Option.isSome (Option.bind (Cut.projects U config (slugify U handoff.title) orders
        (numberedGroups config handoff.steps) {}) _) = true ↔ _
      cases Cut.projects U config (slugify U handoff.title) orders
        (numberedGroups config handoff.steps) {} with
      | none => exact iff_of_false Bool.false_ne_true fun h => h rfl
      | some cut => exact iff_of_true rfl nofun
  rw [and_iff_left fun r hr => hasTrueEffort_of_ok U hr, hcut, ne_eq, Cut.projects_eq_none_iff]
  simp only [not_exists, not_and, not_not]

/-- Two independent steps whose efforts saturate at the largest 64-bit number. -/
def saturatedSteps : ParsedHandoff where
  title := "a".toList
  problem := "p".toList
  intent := "i".toList
  steps := [
    { number := 1, title := "a".toList, effort := some "1000000000000000 days".toList },
    { number := 2, title := "b".toList, effort := some "1000000000000000 days".toList }]

theorem not_effortsExact_saturated :
    ¬ ((decompose .asciiTables {} (fun _ => .inOrder) saturatedSteps).isSome = true ∧
      ∀ r, decompose .asciiTables {} (fun _ => .inOrder) saturatedSteps = some (.ok r) →
        ∀ p ∈ r.pieces, HasTrueEffort .asciiTables p) := by
  have hnone : (decompose .asciiTables {} (fun _ => .inOrder) saturatedSteps).isSome = false := by
    decide +kernel
  rw [hnone]
  exact fun h => Bool.false_ne_true h.1

end Hymenium
