import Hymenium.Decompose.Order

/-!
# The graph of the pieces

What the dependency graph of a decomposition says about the dependencies of the steps. The graph is
read from a map of step numbers to pieces, and a number that several pieces hold is mapped to the
last one (`Cut.Indexed`). An entry that does not parse names nothing, and is not reported either.

1. `Cut.Indexed`: what the map of step numbers says after a whole decomposition.
2. `accounted_of_parsed`: an entry that parses is found, or reported.
3. `graphExact_iff`: the graph is exact when every dependency between two pieces is one on a number
   whose last piece it is, and every entry parses.
-/

namespace Hymenium

open Text

variable (U : Unicode)

/-! ## Numbers and pieces -/

/-- The groups of the projects of a document, numbered. -/
def numberedGroups (config : DecompositionConfig) (steps : List ParsedStep) :
    List (List ParsedStep × ℕ) :=
  ((groupByProject steps config.respectProjectBoundaries).map Prod.snd).zipIdx

/-- The list at `j` has a step with the number `n`. -/
def HoldsAt (pieces : List (List ParsedStep)) (n : UInt32) (j : ℕ) : Prop :=
  ∃ piece, pieces[j]? = some piece ∧ n ∈ piece.map (·.number)

/-- The last list that has a step with the number `n` is the one at `j`. -/
def LastIn (pieces : List (List ParsedStep)) (n : UInt32) (j : ℕ) : Prop :=
  HoldsAt pieces n j ∧ ∀ k, HoldsAt pieces n k → k ≤ j

theorem HoldsAt.lt {pieces : List (List ParsedStep)} {n : UInt32} {j : ℕ}
    (h : HoldsAt pieces n j) : j < pieces.length := by
  obtain ⟨piece, hpiece, -⟩ := h
  exact (List.getElem?_eq_some_iff.mp hpiece).1

theorem holdsAt_append (pieces : List (List ParsedStep)) (sub : List ParsedStep) (n : UInt32)
    (j : ℕ) : HoldsAt (pieces ++ [sub]) n j ↔
      HoldsAt pieces n j ∨ j = pieces.length ∧ n ∈ sub.map (·.number) := by
  constructor
  · rintro ⟨piece, hpiece, hn⟩
    by_cases hj : j < pieces.length
    · rw [List.getElem?_append_left hj] at hpiece
      exact .inl ⟨piece, hpiece, hn⟩
    · have hlt := (List.getElem?_eq_some_iff.mp hpiece).1
      rw [List.length_append, List.length_singleton] at hlt
      obtain rfl : j = pieces.length := by omega
      rw [List.getElem?_concat_length] at hpiece
      cases hpiece
      exact .inr ⟨rfl, hn⟩
  · rintro (h | ⟨rfl, hn⟩)
    · have hlt := h.lt
      obtain ⟨piece, hpiece, hn⟩ := h
      exact ⟨piece, (List.getElem?_append_left hlt).trans hpiece, hn⟩
    · exact ⟨sub, List.getElem?_concat_length, hn⟩

/-- The map of a cut sends every number to the last piece that has it. -/
def Cut.Indexed (cut : Cut) : Prop :=
  ∀ n j, cut.stepToPiece.lookup n = some j ↔ LastIn (cut.pieces.map (·.steps)) n j

theorem Cut.indexed_empty : Cut.Indexed {} := by
  intro n j
  refine iff_of_false nofun fun h => ?_
  exact Nat.not_lt_zero _ h.1.lt

theorem Cut.Indexed.piece {cut cut' : Cut} {parentSlug : Text} {sub : List ParsedStep}
    (hindexed : cut.Indexed) (h : cut.piece U parentSlug sub = some cut') : cut'.Indexed := by
  unfold Cut.piece at h
  obtain ⟨⟨effort, warnings⟩, -, hret⟩ := Option.bind_eq_some_iff.mp h
  cases hret
  intro n j
  dsimp only
  rw [lookup_foldl_mapInsert, List.map_append, List.map_singleton]
  unfold LastIn
  simp only [holdsAt_append, List.length_map]
  split_ifs with hn
  · -- the new piece is the last one with this number
    constructor
    · rintro ⟨⟩
      refine ⟨.inr ⟨rfl, hn⟩, fun k hk => ?_⟩
      rcases hk with hk | ⟨rfl, -⟩
      · have hlt := hk.lt
        rw [List.length_map] at hlt
        exact hlt.le
      · exact le_rfl
    · rintro ⟨hj | ⟨rfl, -⟩, hlast⟩
      · have hlt := hj.lt
        have hle := hlast _ (.inr ⟨rfl, hn⟩)
        rw [List.length_map] at hlt
        omega
      · rfl
  · rw [hindexed n j]
    simp only [hn, and_false, or_false]
    rfl

theorem pairwise_insertionSort_dedup (l : List ℕ) :
    (l.dedup.insertionSort (· ≤ ·)).Pairwise (· < ·) := by
  have hnodup : (l.dedup.insertionSort (· ≤ ·)).Nodup :=
    (List.perm_insertionSort _ _).nodup_iff.mpr (List.nodup_dedup l)
  exact ((List.pairwise_insertionSort _ _).and hnodup).imp fun h => lt_of_le_of_ne h.1 h.2

/-- The pieces of a decomposition before their dependencies are filled in. -/
theorem exists_cut {config : DecompositionConfig} {orders : ℕ → HashOrder}
    {handoff : ParsedHandoff} {r : DecompositionResult}
    (h : decompose U config orders handoff = some (.ok r)) : ∃ cut : Cut,
      Cut.projects U config (slugify U handoff.title) orders
        (numberedGroups config handoff.steps) {} = some cut ∧
      ∃ deps : HandoffPiece → ℕ → List ℕ,
        (∀ piece i, deps piece i = pieceDeps U (handoff.steps.map (·.number)).dedup cut.stepToPiece i
          piece.steps) ∧
        r.pieces = fillDeps deps cut.pieces ∧ r.dependencyGraph = pieceGraph deps cut.pieces ∧
        r.warnings = cut.warnings ++ cut.pieces.flatMap fun piece =>
          missingDeps U (handoff.steps.map (·.number)).dedup piece.steps := by
  unfold decompose at h
  split_ifs at h
  · cases h
  · obtain ⟨cut, hcut, hret⟩ := Option.bind_eq_some_iff.mp h
    cases hret
    exact ⟨cut, hcut, _, fun _ _ => rfl, rfl, rfl, rfl⟩

/-! ## Warnings -/

/-- The warning that a step names `name`, and no step is called so. -/
def notFoundWarning (step : ParsedStep) (name : Text) : Text :=
  "step ".toList ++ ofNat step.number.toNat ++ ": dependency '".toList ++ name ++
    "' not found in handoff steps".toList

/-- A step number as a dependency names it. -/
def stepName (n : UInt32) : Text := "Step ".toList ++ ofNat n.toNat

theorem missingWarning_eq (step : ParsedStep) (dep : UInt32) :
    missingWarning step dep = notFoundWarning step (stepName dep) := by
  have hsplit : ": dependency 'Step ".toList = ": dependency '".toList ++ "Step ".toList := by decide
  unfold missingWarning notFoundWarning stepName
  rw [hsplit]
  simp only [List.append_assoc]

/-- What stands behind the step of a warning. -/
theorem of_step_append_eq {n m : ℕ} {x y : Text}
    (h : "step ".toList ++ ofNat n ++ ':' :: x = "step ".toList ++ ofNat m ++ ':' :: y) : x = y := by
  rw [List.append_assoc, List.append_assoc] at h
  have hdrop (n : ℕ) (x : Text) : (ofNat n ++ ':' :: x).dropWhile (· ≠ ':') = ':' :: x := by
    rw [List.dropWhile_append_of_pos, List.dropWhile_cons_of_neg (by decide)]
    intro c hc
    have hcolon : ':' ∉ ofNat n := notMem_ofNat (by decide) n
    exact decide_eq_true fun heq => hcolon (heq ▸ hc)
  have hrest := congrArg (List.dropWhile (· ≠ ':')) (List.append_cancel_left h)
  rw [hdrop, hdrop] at hrest
  exact (List.cons.inj hrest).2

theorem notFoundWarning_inj {s t : ParsedStep} {a b : Text}
    (h : notFoundWarning s a = notFoundWarning t b) : a = b := by
  have hbehind : " dependency '".toList ++ a ++ "' not found in handoff steps".toList =
      " dependency '".toList ++ b ++ "' not found in handoff steps".toList := by
    apply of_step_append_eq (n := s.number.toNat) (m := t.number.toNat)
    have hsplit : ": dependency '".toList = ':' :: " dependency '".toList := by decide
    unfold notFoundWarning at h
    rw [hsplit] at h
    simpa only [List.append_assoc, List.cons_append] using h
  exact List.append_cancel_left (List.append_cancel_right hbehind)

/-- An effort that cannot be parsed is reported in other words. -/
theorem effortWarning_ne (s t : ParsedStep) (err : DecompositionError) (name : Text) :
    effortWarning s err ≠ notFoundWarning t name := by
  intro h
  have hbehind : ' ' :: err.message =
      " dependency '".toList ++ name ++ "' not found in handoff steps".toList := by
    apply of_step_append_eq (n := s.number.toNat) (m := t.number.toNat)
    have hsplit : ": dependency '".toList = ':' :: " dependency '".toList := by decide
    have hcolon : ": ".toList = [':', ' '] := by decide
    unfold effortWarning notFoundWarning at h
    rw [hsplit, hcolon] at h
    simpa only [List.append_assoc, List.cons_append, List.nil_append] using h
  have hthree := congrArg (List.take 4) hbehind
  cases err <;> cases hthree

/-- Every warning of the list is about an effort. -/
def EffortWarnings (warnings : List Text) : Prop :=
  ∀ w ∈ warnings, ∃ step err, w = effortWarning step err

theorem effortWarnings_nil : EffortWarnings [] := fun _ h => nomatch h

theorem EffortWarnings.cons {warnings : List Text} (h : EffortWarnings warnings)
    (step : ParsedStep) (err : DecompositionError) :
    EffortWarnings (effortWarning step err :: warnings) := by
  intro w hw
  rcases List.mem_cons.mp hw with rfl | hw
  · exact ⟨step, err, rfl⟩
  · exact h w hw

theorem EffortWarnings.append {warnings more : List Text} (h : EffortWarnings warnings)
    (hmore : EffortWarnings more) : EffortWarnings (warnings ++ more) := by
  intro w hw
  rcases List.mem_append.mp hw with hw | hw
  · exact h w hw
  · exact hmore w hw

theorem effortWarnings_chunk {steps : List ParsedStep} {total secs : UInt64}
    {warnings : List Text} (h : chunkEffortSecs U steps total = some (secs, warnings)) :
    EffortWarnings warnings := by
  induction steps generalizing total warnings with
  | nil =>
    cases h
    exact effortWarnings_nil
  | cons step rest ih =>
    unfold chunkEffortSecs at h
    split at h
    · exact ih h
    · split at h
      · obtain ⟨total', -, hrest⟩ := Option.bind_eq_some_iff.mp h
        exact ih hrest
      · obtain ⟨⟨secs', more⟩, hrest, hret⟩ := Option.bind_eq_some_iff.mp h
        cases hret
        exact (ih hrest).cons step _

theorem effortWarnings_total {steps : List ParsedStep} {total : UInt64} {anyParsed : Bool}
    {effort : Option UInt64} {warnings : List Text}
    (h : totalEffortSecs U steps total anyParsed = some (effort, warnings)) :
    EffortWarnings warnings := by
  obtain ⟨parsed, -, hrun⟩ := totalEffortSecs_eq U steps total anyParsed
  rw [hrun] at h
  obtain ⟨⟨sum, more⟩, hchunk, heq⟩ := Option.map_eq_some_iff.mp h
  cases heq
  exact effortWarnings_chunk U hchunk

theorem effortWarnings_packByEffort {config : DecompositionConfig}
    {chunks : List (List ParsedStep)} {current : List ParsedStep} {currentSecs : UInt64}
    {pieces : List (List ParsedStep)} {warnings : List Text}
    (h : packByEffort U config chunks current currentSecs = some (pieces, warnings)) :
    EffortWarnings warnings := by
  induction chunks generalizing current currentSecs pieces warnings with
  | nil =>
    cases h
    exact effortWarnings_nil
  | cons chunk rest ih =>
    simp only [packByEffort, Option.bind_eq_bind] at h
    obtain ⟨⟨chunkSecs, chunkWarnings⟩, hchunk, h⟩ := Option.bind_eq_some_iff.mp h
    obtain ⟨close, -, h⟩ := Option.bind_eq_some_iff.mp h
    cases close with
    | true | false =>
      obtain ⟨secs, -, h⟩ := Option.bind_eq_some_iff.mp h
      obtain ⟨⟨pieces', more⟩, hrest, hret⟩ := Option.bind_eq_some_iff.mp h
      cases hret
      exact (effortWarnings_chunk U hchunk).append (ih hrest)

theorem effortWarnings_packChunks {config : DecompositionConfig}
    {chunks pieces : List (List ParsedStep)} {warnings : List Text}
    (h : packChunks U config chunks = some (pieces, warnings)) : EffortWarnings warnings := by
  unfold packChunks at h
  split_ifs at h
  · cases h
    exact effortWarnings_nil
  · exact effortWarnings_packByEffort U h
  · cases h
    exact effortWarnings_nil

/-- Cutting warns about efforts only. -/
theorem effortWarnings_projects {config : DecompositionConfig} {parentSlug : Text}
    {orders : ℕ → HashOrder} {groups : List (List ParsedStep × ℕ)} {cut : Cut}
    (h : Cut.projects U config parentSlug orders groups {} = some cut) :
    EffortWarnings cut.warnings := by
  refine Cut.projects_invariant (P := fun cut => EffortWarnings cut.warnings) U
    (fun cut sub cut' hcut hpiece => ?_)
    (fun cut chunks packed warnings hcut hpacked =>
      hcut.append (effortWarnings_packChunks U hpacked)) effortWarnings_nil h
  unfold Cut.piece at hpiece
  obtain ⟨⟨effort, warnings⟩, htotal, hret⟩ := Option.bind_eq_some_iff.mp hpiece
  cases hret
  exact hcut.append (effortWarnings_total U htotal)

/-! ## Entries -/

/-- An entry that names a step parses to its number. -/
theorem parseDepStepNumber_of_stepName {entry : Text} {n : UInt32} (h : trim entry = stepName n) :
    parseDepStepNumber U entry = some n := by
  have hstep : Ascii "Step ".toList := by decide +kernel
  have hascii : Ascii (stepName n) := by
    intro c hc
    rcases List.mem_append.mp hc with hc | hc
    · exact hstep c hc
    · have hrange := toNat_of_isDigit (isDigit_of_mem_ofNat hc)
      omega
  have hlower : U.toLowercase (stepName n) = "step".toList ++ ' ' :: ofNat n.toNat := by
    rw [U.ascii _ hascii, stepName, List.map_append,
      List.map_congr_left (fun c hc => toLower_of_isDigit (isDigit_of_mem_ofNat hc)), List.map_id']
    rfl
  unfold parseDepStepNumber
  rw [h, hlower, stripPrefix_eq_some.mpr rfl, Option.bind_some,
    trim_cons_of_isWhitespace _ (by decide), trim_word (isWord_ofNat _), parseU32_ofNat]

/-- The entry is given, and does not say that there is no dependency. -/
def Given (entry : Text) : Prop := entry ≠ [] ∧ entry ≠ "none".toList

instance : DecidablePred Given := fun entry =>
  inferInstanceAs (Decidable (entry ≠ [] ∧ entry ≠ "none".toList))

/-- A step of the list at `i` names the number of a step in another list `j`. -/
def Names (pieces : List (List ParsedStep)) (i j : ℕ) : Prop :=
  i ≠ j ∧ ∃ piece, pieces[i]? = some piece ∧ ∃ a ∈ piece, ∃ n ∈ stepDeps U a, HoldsAt pieces n j

/-- The same, and the list at `j` is the last one that has the number. -/
def NamesLast (pieces : List (List ParsedStep)) (i j : ℕ) : Prop :=
  i ≠ j ∧ ∃ piece, pieces[i]? = some piece ∧ ∃ a ∈ piece, ∃ n ∈ stepDeps U a, LastIn pieces n j

/-- The entry of a step resolves to a step of the handoff, or a warning names it. -/
def Accounted (handoff : ParsedHandoff) (r : DecompositionResult) (step : ParsedStep)
    (entry : Text) : Prop :=
  (∃ n, parseDepStepNumber U entry = some n ∧ ∃ t ∈ handoff.steps, t.number = n) ∨
    ∃ name, notFoundWarning step name ∈ r.warnings ∧
      (name = trim entry ∨ ∃ n, parseDepStepNumber U entry = some n ∧ name = stepName n)

/-- The graph and the dependencies of the pieces are those of their steps, and no entry is lost. -/
structure GraphExact (handoff : ParsedHandoff) (r : DecompositionResult) : Prop where
  edges : ∀ i j, (i, j) ∈ r.dependencyGraph ↔ Names U (r.pieces.map (·.steps)) i j
  listed : ∀ i p, r.pieces[i]? = some p → p.dependsOn.Pairwise (· < ·) ∧
    ∀ j, j ∈ p.dependsOn ↔ Names U (r.pieces.map (·.steps)) i j
  accounted : ∀ step ∈ handoff.steps, ∀ entry ∈ step.dependsOn, Given entry →
    Accounted U handoff r step entry

/-- Every dependency between two of the lists is one on a number whose last list it is, and every
entry that is given parses. -/
structure Legible (handoff : ParsedHandoff) (pieces : List (List ParsedStep)) : Prop where
  last : ∀ i j, Names U pieces i j → NamesLast U pieces i j
  entries : ∀ step ∈ handoff.steps, ∀ entry ∈ step.dependsOn, Given entry →
    (parseDepStepNumber U entry).isSome = true

section Exact

variable {config : DecompositionConfig} {orders : ℕ → HashOrder} {handoff : ParsedHandoff}
  {r : DecompositionResult}

theorem NamesLast.names {pieces : List (List ParsedStep)} {i j : ℕ} (h : NamesLast U pieces i j) :
    Names U pieces i j := by
  obtain ⟨hne, piece, hpiece, a, ha, n, hn, hlast⟩ := h
  exact ⟨hne, piece, hpiece, a, ha, n, hn, hlast.1⟩

theorem steps_fillDeps (deps : HandoffPiece → ℕ → List ℕ) (pieces : List HandoffPiece) :
    (fillDeps deps pieces).map (·.steps) = pieces.map (·.steps) :=
  map_fillDeps deps pieces (·.steps) fun _ _ => rfl

/-- The numbers that the pieces hold are those of the handoff. -/
theorem mem_numbers_of_holdsAt (hr : Decomposed U config orders handoff r) {n : UInt32} {j : ℕ}
    (h : HoldsAt (r.pieces.map (·.steps)) n j) : n ∈ (handoff.steps.map (·.number)).dedup := by
  obtain ⟨piece, hpiece, hn⟩ := h
  obtain ⟨s, hs, rfl⟩ := List.mem_map.mp hn
  rw [mem_numbers]
  refine ⟨s, ?_, rfl⟩
  exact hr.perm.mem_iff.mp (List.mem_flatten.mpr ⟨piece, List.mem_of_getElem? hpiece, hs⟩)

/-- The pieces a piece depends on, as they are computed. -/
theorem mem_deps_iff {cut : Cut} (hindexed : cut.Indexed)
    (hnumbers : ∀ n j, HoldsAt (cut.pieces.map (·.steps)) n j →
      n ∈ (handoff.steps.map (·.number)).dedup) {i j : ℕ} {piece : HandoffPiece}
    (hpiece : cut.pieces[i]? = some piece) :
    j ∈ pieceDeps U (handoff.steps.map (·.number)).dedup cut.stepToPiece i piece.steps ↔
      NamesLast U (cut.pieces.map (·.steps)) i j := by
  have hget : (cut.pieces.map (·.steps))[i]? = some piece.steps := by
    rw [List.getElem?_map, hpiece]
    rfl
  rw [mem_pieceDeps]
  constructor
  · rintro ⟨hne, a, ha, n, hn, -, hlookup⟩
    exact ⟨hne.symm, piece.steps, hget, a, ha, n, hn, (hindexed n j).mp hlookup⟩
  · rintro ⟨hne, steps, hsteps, a, ha, n, hn, hlast⟩
    cases hget.symm.trans hsteps
    exact ⟨hne.symm, a, ha, n, hn, hnumbers n j hlast.1, (hindexed n j).mpr hlast⟩

/-- What the graph holds: the dependencies on numbers whose last piece it is. -/
theorem mem_dependencyGraph (h : decompose U config orders handoff = some (.ok r)) (i j : ℕ) :
    (i, j) ∈ r.dependencyGraph ↔ NamesLast U (r.pieces.map (·.steps)) i j := by
  have hr := decomposed_of_ok U h
  obtain ⟨cut, hcut, deps, hdeps, hpieces, hgraph, -⟩ := exists_cut U h
  have hindexed : cut.Indexed := Cut.projects_invariant U (fun _ _ _ hcut => hcut.piece U)
    (fun _ _ _ _ hcut _ => hcut) Cut.indexed_empty hcut
  have hsteps : r.pieces.map (·.steps) = cut.pieces.map (·.steps) :=
    hpieces ▸ steps_fillDeps deps cut.pieces
  have hnumbers : ∀ n j, HoldsAt (cut.pieces.map (·.steps)) n j →
      n ∈ (handoff.steps.map (·.number)).dedup :=
    fun n j hn => mem_numbers_of_holdsAt U hr (hsteps ▸ hn)
  rw [hgraph, mem_pieceGraph, hsteps]
  constructor
  · rintro ⟨piece, hpiece, hj⟩
    rw [hdeps] at hj
    exact (mem_deps_iff U hindexed hnumbers hpiece).mp hj
  · intro hnames
    obtain ⟨-, steps, hget, -⟩ := id hnames
    rw [List.getElem?_map, Option.map_eq_some_iff] at hget
    obtain ⟨piece, hpiece, -⟩ := hget
    refine ⟨piece, hpiece, ?_⟩
    rw [hdeps]
    exact (mem_deps_iff U hindexed hnumbers hpiece).mpr hnames

/-- A piece lists its edges, in order. -/
theorem dependsOn_listed (h : decompose U config orders handoff = some (.ok r)) {i : ℕ}
    {p : HandoffPiece} (hp : r.pieces[i]? = some p) :
    p.dependsOn.Pairwise (· < ·) ∧ ∀ j, j ∈ p.dependsOn ↔ (i, j) ∈ r.dependencyGraph := by
  obtain ⟨cut, -, deps, hdeps, hpieces, hgraph, -⟩ := exists_cut U h
  rw [hpieces, fillDeps, List.getElem?_map, Option.map_eq_some_iff] at hp
  obtain ⟨⟨piece, i'⟩, hzip, rfl⟩ := hp
  rw [List.getElem?_zipIdx, Option.map_eq_some_iff] at hzip
  obtain ⟨piece', hpiece, heq⟩ := hzip
  obtain ⟨rfl, rfl⟩ := Prod.mk.inj heq
  rw [Nat.zero_add]
  refine ⟨?_, fun j => ?_⟩
  · dsimp only
    rw [hdeps]
    exact pairwise_insertionSort_dedup _
  · rw [hgraph, mem_pieceGraph]
    constructor
    · exact fun hj => ⟨piece', hpiece, hj⟩
    · rintro ⟨piece, hpiece', hj⟩
      cases hpiece.symm.trans hpiece'
      exact hj

/-- A parsed entry resolves, or is reported. -/
theorem accounted_of_parsed (h : decompose U config orders handoff = some (.ok r))
    {step : ParsedStep} (hstep : step ∈ handoff.steps) {entry : Text}
    (hentry : entry ∈ step.dependsOn) {n : UInt32} (hn : parseDepStepNumber U entry = some n) :
    Accounted U handoff r step entry := by
  have hr := decomposed_of_ok U h
  obtain ⟨cut, -, deps, -, hpieces, -, hwarnings⟩ := exists_cut U h
  by_cases hmem : n ∈ (handoff.steps.map (·.number)).dedup
  · exact .inl ⟨n, hn, mem_numbers.mp hmem⟩
  · refine .inr ⟨stepName n, ?_, .inr ⟨n, hn, rfl⟩⟩
    -- the piece of the step reports the number
    have hsteps := hr.perm.mem_iff.mpr hstep
    rw [hpieces, steps_fillDeps] at hsteps
    obtain ⟨_, hmap, hs⟩ := List.mem_flatten.mp hsteps
    obtain ⟨piece, hpiece, rfl⟩ := List.mem_map.mp hmap
    rw [hwarnings]
    refine List.mem_append_right _ (List.mem_flatMap.mpr ⟨piece, hpiece, ?_⟩)
    refine List.mem_flatMap.mpr ⟨step, hs, List.mem_filterMap.mpr ⟨n, ?_, ?_⟩⟩
    · exact List.mem_filterMap.mpr ⟨entry, hentry, hn⟩
    · rw [if_neg hmem, missingWarning_eq]

/-- An entry that does not parse is not accounted for. -/
theorem parsed_of_accounted (h : decompose U config orders handoff = some (.ok r))
    {step : ParsedStep} {entry : Text} (haccounted : Accounted U handoff r step entry) :
    (parseDepStepNumber U entry).isSome = true := by
  obtain ⟨cut, hcut, deps, -, -, -, hwarnings⟩ := exists_cut U h
  rcases haccounted with ⟨n, hn, -⟩ | ⟨name, hname, rfl | ⟨n, hn, -⟩⟩
  · exact Option.isSome_of_eq_some hn
  · rw [hwarnings] at hname
    rcases List.mem_append.mp hname with hname | hname
    · obtain ⟨s, err, heq⟩ := effortWarnings_projects U hcut _ hname
      exact absurd heq.symm (effortWarning_ne s step err _)
    · obtain ⟨piece, -, hname⟩ := List.mem_flatMap.mp hname
      obtain ⟨s, -, hname⟩ := List.mem_flatMap.mp hname
      obtain ⟨n, -, hname⟩ := List.mem_filterMap.mp hname
      split_ifs at hname
      rw [missingWarning_eq, Option.some.injEq] at hname
      exact Option.isSome_of_eq_some
        (parseDepStepNumber_of_stepName U (notFoundWarning_inj hname).symm)
  · exact Option.isSome_of_eq_some hn

/-- The lists that were cut are the steps of the pieces. -/
theorem steps_of_cutLists (h : decompose U config orders handoff = some (.ok r)) :
    cutLists U config orders (numberedGroups config handoff.steps) =
      some (r.pieces.map (·.steps)) := by
  obtain ⟨cut, hcut, deps, -, hpieces, -, -⟩ := exists_cut U h
  obtain ⟨pieces, hlists, hsteps⟩ := Cut.steps_projects U hcut
  rw [hpieces, steps_fillDeps, hsteps, hlists]
  rfl

end Exact

/-- **Piece graph.** The graph of a decomposition is exact if and only if, in the lists that were
cut, every dependency between two lists is one on a number whose last list it is, and every entry
that is given parses. -/
theorem graphExact_iff {config : DecompositionConfig} {orders : ℕ → HashOrder}
    {handoff : ParsedHandoff} {r : DecompositionResult}
    (h : decompose U config orders handoff = some (.ok r)) :
    GraphExact U handoff r ↔ ∃ pieces,
      cutLists U config orders (numberedGroups config handoff.steps) = some pieces ∧
        Legible U handoff pieces := by
  constructor
  · rintro ⟨hedges, -, haccounted⟩
    refine ⟨_, steps_of_cutLists U h, fun i j hnames => ?_, fun step hstep entry hentry hgiven => ?_⟩
    · exact (mem_dependencyGraph U h i j).mp ((hedges i j).mpr hnames)
    · exact parsed_of_accounted U h (haccounted step hstep entry hentry hgiven)
  · rintro ⟨pieces, hpieces, hlast, hentries⟩
    cases hpieces.symm.trans (steps_of_cutLists U h)
    have hedges : ∀ i j, (i, j) ∈ r.dependencyGraph ↔ Names U (r.pieces.map (·.steps)) i j := by
      intro i j
      rw [mem_dependencyGraph U h]
      exact ⟨fun hnames => hnames.names U, hlast i j⟩
    refine ⟨hedges, fun i p hp => ?_, fun step hstep entry hentry hgiven => ?_⟩
    · obtain ⟨hsorted, hlisted⟩ := dependsOn_listed U h hp
      exact ⟨hsorted, fun j => (hlisted j).trans (hedges i j)⟩
    · obtain ⟨n, hn⟩ := Option.isSome_iff_exists.mp (hentries step hstep entry hentry hgiven)
      exact accounted_of_parsed U h hstep hentry hn

/-- A number of its own per step leaves one list for each number. -/
theorem lastIn_of_nodup {pieces : List (List ParsedStep)}
    (hnum : (pieces.flatten.map (·.number)).Nodup) {n : UInt32} {j : ℕ} (h : HoldsAt pieces n j) :
    LastIn pieces n j := by
  rw [List.map_flatten, List.nodup_flatten] at hnum
  have hdisjoint := List.pairwise_iff_getElem.mp hnum.2
  refine ⟨h, fun k hk => not_lt.mp fun hjk => ?_⟩
  obtain ⟨p, hp, hn⟩ := h
  obtain ⟨q, hq, hn'⟩ := hk
  obtain ⟨hj, rfl⟩ := List.getElem?_eq_some_iff.mp hp
  obtain ⟨hk, rfl⟩ := List.getElem?_eq_some_iff.mp hq
  have hpq := hdisjoint j k (by simpa using hj) (by simpa using hk) hjk
  simp only [List.getElem_map] at hpq
  exact hpq hn hn'

/-- The ordered handoff gives every step a number of its own. -/
theorem graphExact_ordered : ∃ r,
    decompose .asciiTables {} (fun _ => .inOrder) orderedHandoff = some (.ok r) ∧
      GraphExact .asciiTables orderedHandoff r := by
  obtain ⟨r, hrun, -⟩ : ∃ r, decompose .asciiTables {} (fun _ => .inOrder) orderedHandoff =
      some (.ok r) ∧ r.pieces.length = 2 := ok_of_reads (by decide +kernel)
  have hr := decomposed_of_ok .asciiTables hrun
  have hnum : ((r.pieces.map (·.steps)).flatten.map (·.number)).Nodup :=
    (hr.perm.map _).nodup_iff.mpr (by decide)
  refine ⟨r, hrun, (graphExact_iff .asciiTables hrun).mpr
    ⟨_, steps_of_cutLists .asciiTables hrun, ?_, by decide +kernel⟩⟩
  rintro i j ⟨hne, piece, hpiece, a, ha, n, hn, hholds⟩
  exact ⟨hne, piece, hpiece, a, ha, n, hn, lastIn_of_nodup hnum hholds⟩

/-- Two steps of one number, and a step that names it in two spellings. -/
def relabelledHandoff : ParsedHandoff where
  title := "Ship".toList
  problem := "p".toList
  intent := "i".toList
  steps := [{ number := 1, title := "a".toList }, { number := 1, title := "b".toList },
    { number := 2, title := "c".toList, dependsOn := ["Step 1".toList, "1".toList] }]

/-- The edge to the first of the two is lost, and so is the entry `1`. -/
theorem not_graphExact_relabelled : ∃ r,
    decompose .asciiTables { maxStepsPerPiece := 1, respectDependencies := false }
        (fun _ => .inOrder) relabelledHandoff = some (.ok r) ∧
      r.dependencyGraph = [(2, 1)] ∧ r.warnings = [] ∧
      ¬ GraphExact .asciiTables relabelledHandoff r := by
  obtain ⟨r, hrun, hread⟩ : ∃ r, decompose .asciiTables
      { maxStepsPerPiece := 1, respectDependencies := false } (fun _ => .inOrder)
      relabelledHandoff = some (.ok r) ∧ (r.dependencyGraph, r.warnings) = ([(2, 1)], []) :=
    ok_of_reads (by decide +kernel)
  obtain ⟨hgraph, hwarnings⟩ := Prod.mk.inj hread
  have hlists : cutLists .asciiTables { maxStepsPerPiece := 1, respectDependencies := false }
      (fun _ => .inOrder) (numberedGroups { maxStepsPerPiece := 1, respectDependencies := false }
        relabelledHandoff.steps) = some (relabelledHandoff.steps.map fun s => [s]) := by
    decide +kernel
  have hsteps := Option.some.inj ((steps_of_cutLists .asciiTables hrun).symm.trans hlists)
  refine ⟨r, hrun, hgraph, hwarnings, fun hexact => ?_⟩
  have hnames : Names .asciiTables (r.pieces.map (·.steps)) 2 0 := by
    rw [hsteps]
    exact ⟨by decide, _, rfl, _, List.mem_cons_self, 1, by decide +kernel, _, rfl, by decide⟩
  have hedge := (hexact.edges 2 0).mpr hnames
  rw [hgraph] at hedge
  exact absurd hedge (by decide)

end Hymenium
