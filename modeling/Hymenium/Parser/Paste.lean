import Hymenium.Parser.Headings

/-!
# Pasted evidence

What `parse_verification_block` makes of the lines between two paste markers. The loop tracks code
fences and paste regions by flags that do not know of each other: a fence between the markers is a
fence, its lines are a command, and a closing marker inside of it is part of that command.

1. Commands: `commandSpans` are the positions of the lines that each command is made of.
2. Markers: the markers that later lines do not change are `frozen`.
3. `pasteKept_iff`: a paste is recognised and not run exactly when it is plain.
-/

namespace Hymenium

open Text

/-! ## Fences -/

/-- The lines, each with whether it stands inside a fence. -/
def withFence (inFence : Bool) : List Text → List (Text × Bool)
  | [] => []
  | line :: rest => (line, inFence) :: withFence (nextFence inFence line) rest

theorem withFence_append (inFence : Bool) (a b : List Text) :
    withFence inFence (a ++ b) = withFence inFence a ++ withFence (a.foldl nextFence inFence) b := by
  induction a generalizing inFence with
  | nil => rfl
  | cons line rest ih =>
    rw [List.cons_append, withFence, ih]
    rfl

theorem length_withFence (inFence : Bool) (ls : List Text) :
    (withFence inFence ls).length = ls.length := by
  induction ls generalizing inFence with
  | nil => rfl
  | cons line rest ih => rw [withFence, List.length_cons, List.length_cons, ih]

theorem nextFence_fence {line : Text} (h : startsWith line "```") (inFence : Bool) :
    nextFence inFence line = !inFence := if_pos h

theorem nextFence_text {line : Text} (h : ¬ startsWith line "```") (inFence : Bool) :
    nextFence inFence line = inFence := if_neg h

/-! ## Markers and pastes -/

def IsPasteStart (line : Text) : Prop :=
  ¬ startsWith line "```" ∧ contains line "<!-- PASTE START -->"

def IsPasteEnd (line : Text) : Prop :=
  ¬ startsWith line "```" ∧ ¬ contains line "<!-- PASTE START -->" ∧
    contains line "<!-- PASTE END -->"

instance (line : Text) : Decidable (IsPasteStart line) :=
  inferInstanceAs (Decidable (¬ startsWith line "```" ∧ contains line "<!-- PASTE START -->"))

instance (line : Text) : Decidable (IsPasteEnd line) :=
  inferInstanceAs (Decidable (¬ startsWith line "```" ∧ ¬ contains line "<!-- PASTE START -->" ∧
    contains line "<!-- PASTE END -->"))

/-- The lines `mid` are pasted: they stand between a start marker outside fences and an end marker,
and no marker outside fences stands between these. -/
structure Pasted (block pre : List Text) (start : Text) (mid : List Text) (stop : Text)
    (post : List Text) : Prop where
  split : block = pre ++ start :: (mid ++ stop :: post)
  outside : pre.foldl nextFence false = false
  start : IsPasteStart start
  between : ∀ e ∈ withFence false mid, e.2 = false → ¬ IsPasteStart e.1 ∧ ¬ IsPasteEnd e.1
  stop : IsPasteEnd stop

/-- The flag of the marker at a line. -/
def contentAt (block : VerificationBlock) (lineNumber : ℕ) : Option Bool :=
  (block.pasteMarkers.find? (·.lineNumber = lineNumber)).map (·.hasContent)

/-- The positions of the lines of each command; `current` are those of the fence that is open. -/
def commandSpans : List Text → (idx : ℕ) → (current : Option (List ℕ)) → List (List ℕ)
  | [], _, current => (current.toList).filter (· ≠ [])
  | line :: rest, idx, none =>
    if startsWith line "```" then commandSpans rest (idx + 1) (some [])
    else commandSpans rest (idx + 1) none
  | line :: rest, idx, some span =>
    if startsWith line "```" then [span].filter (· ≠ []) ++ commandSpans rest (idx + 1) none
    else commandSpans rest (idx + 1) (some (span ++ [idx]))

/-- Both markers of a paste have content exactly when some line between them is not blank, and no
line between them is part of a command. -/
structure PasteKept (block pre mid : List Text) : Prop where
  start : contentAt (parseVerificationBlock block) pre.length = some true ↔ ∃ l ∈ mid, ¬ Blank l
  stop : contentAt (parseVerificationBlock block) (pre.length + 1 + mid.length) = some true ↔
    ∃ l ∈ mid, ¬ Blank l
  notRun : ∀ span ∈ commandSpans block 0 none, ∀ i ∈ span,
    ¬ (pre.length < i ∧ i < pre.length + 1 + mid.length)

/-- The pasted lines hold no fence, or only empty ones and text besides. -/
structure PlainPaste (mid : List Text) : Prop where
  closed : mid.foldl nextFence false = false
  empty : ∀ e ∈ withFence false mid, e.2 = true → startsWith e.1 "```"
  text : (∃ l ∈ mid, startsWith l "```") → ∃ l ∈ mid, ¬ startsWith l "```" ∧ ¬ Blank l

/-! ## Commands -/

/-- The loop of `parse_verification_block` over the lines from `idx` on. -/
def BlockScan.run (s : BlockScan) (idx : ℕ) (ls : List Text) : BlockScan :=
  (ls.zipIdx idx).foldl (fun s (line, idx) => BlockScan.line s idx line) s

theorem BlockScan.run_cons (s : BlockScan) (idx : ℕ) (line : Text) (rest : List Text) :
    s.run idx (line :: rest) = (s.line idx line).run (idx + 1) rest := rfl

theorem BlockScan.run_append (s : BlockScan) (idx : ℕ) (a b : List Text) :
    s.run idx (a ++ b) = (s.run idx a).run (idx + a.length) b := by
  rw [BlockScan.run, List.zipIdx_append, List.foldl_append]
  rfl

theorem parseVerificationBlock_eq (block : List Text) : parseVerificationBlock block =
    { commands := (BlockScan.run {} 0 block).flush.commands
      pasteMarkers := (BlockScan.run {} 0 block).flush.pasteMarkers } := rfl

section Lines

variable {s : BlockScan} {line : Text}

theorem BlockScan.line_open (h : startsWith line "```") (hcode : s.inCodeBlock = false) (idx : ℕ) :
    s.line idx line = { s with inCodeBlock := true, currentCmd := [] } := by
  rw [BlockScan.line, if_pos h, if_neg (by simp [hcode])]

theorem BlockScan.line_close (h : startsWith line "```") (hcode : s.inCodeBlock = true) (idx : ℕ) :
    s.line idx line = { s.flush with inCodeBlock := false } := by
  rw [BlockScan.line, if_pos h, if_pos hcode]

theorem BlockScan.line_code (h : ¬ startsWith line "```") (hcode : s.inCodeBlock = true) (idx : ℕ) :
    s.line idx line = { s with currentCmd := s.currentCmd ++ [line] } := by
  rw [BlockScan.line, if_neg h, if_pos hcode]

/-- A line outside fences leaves the commands. -/
theorem BlockScan.line_outside (h : ¬ startsWith line "```") (hcode : s.inCodeBlock = false)
    (idx : ℕ) : (s.line idx line).commands = s.commands ∧
      (s.line idx line).currentCmd = s.currentCmd ∧ (s.line idx line).inCodeBlock = false := by
  rw [BlockScan.line, if_neg h, if_neg (by simp [hcode])]
  by_cases hstart : contains line "<!-- PASTE START -->"
  · rw [if_pos hstart]
    exact ⟨rfl, rfl, hcode⟩
  by_cases hend : contains line "<!-- PASTE END -->"
  · rw [if_neg hstart, if_pos hend]
    exact ⟨rfl, rfl, hcode⟩
  rw [if_neg hstart, if_neg hend]
  split_ifs
  · exact ⟨rfl, rfl, hcode⟩
  · exact ⟨rfl, rfl, hcode⟩

end Lines

/-- The text of the command at some positions. -/
def commandText (block : List Text) (span : List ℕ) : Text :=
  join "\n" (span.map fun i => block.getD i [])

theorem BlockScan.flush_commands {block : List Text} {s : BlockScan} {span : List ℕ}
    (h : s.currentCmd = span.map fun i => block.getD i []) :
    s.flush.commands = s.commands ++ ([span].filter (· ≠ [])).map (commandText block) := by
  rw [BlockScan.flush, h]
  cases span with
  | nil => exact (List.append_nil _).symm
  | cons i span => rfl

/-- Each command is made of the lines at its positions. -/
theorem BlockScan.run_commands {block pre : List Text} {ls : List Text} {s : BlockScan}
    {current : Option (List ℕ)} (hblock : block = pre ++ ls)
    (hcode : s.inCodeBlock = current.isSome)
    (hcmd : s.currentCmd = (current.getD []).map fun i => block.getD i []) :
    (s.run pre.length ls).flush.commands =
      s.commands ++ (commandSpans ls pre.length current).map (commandText block) := by
  induction ls generalizing pre s current with
  | nil =>
    cases current with
    | none => exact BlockScan.flush_commands hcmd
    | some span => exact BlockScan.flush_commands hcmd
  | cons line rest ih =>
    have hrest : block = (pre ++ [line]) ++ rest := by
      rw [hblock, List.append_assoc]
      rfl
    have hline : block.getD pre.length [] = line := by
      simp [hblock]
    have hlength : (pre ++ [line]).length = pre.length + 1 := List.length_append
    have ih (s : BlockScan) (current : Option (List ℕ)) := @ih _ s current hrest
    rw [hlength] at ih
    rw [BlockScan.run_cons]
    cases current with
    | none =>
      rw [commandSpans]
      by_cases hfence : startsWith line "```"
      · rw [if_pos hfence, BlockScan.line_open hfence hcode, ih _ (some []) rfl rfl]
      · obtain ⟨hcommands, hsame, hout⟩ := BlockScan.line_outside hfence hcode pre.length
        rw [if_neg hfence, ih _ none hout (hsame.trans hcmd), hcommands]
    | some span =>
      rw [commandSpans]
      by_cases hfence : startsWith line "```"
      · have hflush := BlockScan.flush_commands hcmd
        have hnil : s.flush.currentCmd = [] := by
          rw [BlockScan.flush]
          split_ifs with h
          · exact h
          · rfl
        rw [if_pos hfence, BlockScan.line_close hfence hcode,
          ih { s.flush with inCodeBlock := false } none rfl hnil, List.map_append,
          ← List.append_assoc]
        exact congrArg (· ++ _) hflush
      · have hcmd' : s.currentCmd ++ [line] =
            (span ++ [pre.length]).map fun i => block.getD i [] := by
          rw [List.map_append, List.map_singleton, hline, hcmd]
          rfl
        rw [if_neg hfence, BlockScan.line_code hfence hcode,
          ih { s with currentCmd := s.currentCmd ++ [line] } (some (span ++ [pre.length])) hcode
            hcmd']

theorem parseVerificationBlock_commands (block : List Text) :
    (parseVerificationBlock block).commands =
      (commandSpans block 0 none).map (commandText block) :=
  @BlockScan.run_commands block [] block {} none rfl rfl rfl

/-- A line is part of a command when it stands inside a fence. -/
theorem exists_mem_commandSpans {ls : List Text} {idx : ℕ} {current : Option (List ℕ)} {i : ℕ} :
    (∃ span ∈ commandSpans ls idx current, i ∈ span) ↔ (∃ span ∈ current, i ∈ span) ∨
      ∃ e ∈ (withFence current.isSome ls).zipIdx idx,
        e.2 = i ∧ e.1.2 = true ∧ ¬ startsWith e.1.1 "```" := by
  induction ls generalizing idx current with
  | nil =>
    rw [commandSpans]
    simp only [withFence, List.zipIdx_nil, List.not_mem_nil, false_and, exists_false, or_false,
      List.mem_filter, Option.mem_toList]
    refine exists_congr fun span => ⟨fun h => ⟨h.1.1, h.2⟩, fun h => ⟨⟨h.1, ?_⟩, h.2⟩⟩
    exact decide_eq_true (List.ne_nil_of_mem h.2)
  | cons line rest ih =>
    rw [withFence, List.zipIdx_cons]
    simp only [List.mem_cons, or_and_right, exists_or, exists_eq_left]
    cases current with
    | none =>
      rw [commandSpans]
      by_cases hfence : startsWith line "```"
      · rw [if_pos hfence, ih, nextFence_fence hfence]
        simp
      · rw [if_neg hfence, ih, nextFence_text hfence]
        simp
    | some span =>
      rw [commandSpans]
      by_cases hfence : startsWith line "```"
      · have hspan : (∃ span' ∈ [span].filter (· ≠ []), i ∈ span') ↔ i ∈ span := by
          simp only [List.mem_filter, List.mem_singleton]
          constructor
          · rintro ⟨span', ⟨rfl, -⟩, hi⟩
            exact hi
          · exact fun hi => ⟨span, ⟨rfl, decide_eq_true (List.ne_nil_of_mem hi)⟩, hi⟩
        have hrest := @ih (idx + 1) none
        simp only [Option.not_mem_none, false_and, exists_false, false_or] at hrest
        rw [if_pos hfence, nextFence_fence hfence]
        simp only [List.mem_append, or_and_right, exists_or, hspan, hrest, Option.mem_some_iff,
          exists_eq_left', hfence, not_true, and_false, false_or]
        rfl
      · rw [if_neg hfence, ih, nextFence_text hfence]
        simp only [Option.mem_some_iff, exists_eq_left', List.mem_append, List.mem_singleton,
          hfence, not_false_iff, and_true, Option.isSome_some, or_assoc]
        exact or_congr_right (or_congr_left eq_comm)

/-! ## Markers -/

theorem dropLast_prefix_setLastContent (hasContent : Bool) (markers : List PasteMarker) :
    markers.dropLast <+: setLastContent hasContent markers := by
  induction markers with
  | nil => exact List.prefix_rfl
  | cons marker rest ih =>
    cases rest with
    | nil => exact List.nil_prefix
    | cons next rest => exact List.cons_prefix_cons.mpr ⟨rfl, ih⟩

theorem setLastContent_lineNumbers (hasContent : Bool) (markers : List PasteMarker) :
    (setLastContent hasContent markers).map (·.lineNumber) = markers.map (·.lineNumber) := by
  induction markers with
  | nil => rfl
  | cons marker rest ih =>
    cases rest with
    | nil => rfl
    | cons next rest => exact congrArg (marker.lineNumber :: ·) ih

theorem setLastContent_concat (hasContent : Bool) (markers : List PasteMarker)
    (marker : PasteMarker) : setLastContent hasContent (markers ++ [marker]) =
      markers ++ [{ marker with hasContent }] := by
  induction markers with
  | nil => rfl
  | cons first rest ih =>
    have hne : rest ++ [marker] ≠ [] :=
      List.append_ne_nil_of_right_ne_nil rest (List.cons_ne_nil marker [])
    obtain ⟨next, tail, htail⟩ := List.exists_cons_of_ne_nil hne
    rw [htail] at ih
    rw [List.cons_append, htail]
    exact congrArg (first :: ·) ih

/-- The markers that later lines leave as they are: the last one is open inside a paste region. -/
def BlockScan.frozen (s : BlockScan) : List PasteMarker :=
  if s.inPasteRegion then s.pasteMarkers.dropLast else s.pasteMarkers

theorem BlockScan.frozen_prefix (s : BlockScan) : s.frozen <+: s.pasteMarkers := by
  rw [BlockScan.frozen]
  split_ifs
  · exact List.dropLast_prefix _
  · exact List.prefix_rfl

theorem BlockScan.flush_pasteMarkers (s : BlockScan) : s.flush.pasteMarkers = s.pasteMarkers := by
  rw [BlockScan.flush]
  split_ifs
  · rfl
  · rfl

theorem BlockScan.flush_inPasteRegion (s : BlockScan) :
    s.flush.inPasteRegion = s.inPasteRegion := by
  rw [BlockScan.flush]
  split_ifs
  · rfl
  · rfl

/-- What one line does to the markers and to the paste region. -/
theorem BlockScan.line_markers (s : BlockScan) (idx : ℕ) (line : Text) :
    ((s.line idx line).pasteMarkers = s.pasteMarkers ∧
        (s.line idx line).inPasteRegion = s.inPasteRegion) ∨
      ((s.line idx line).pasteMarkers = s.pasteMarkers ++ [⟨idx, false⟩] ∧
        (s.line idx line).inPasteRegion = true) ∨
      ((s.line idx line).pasteMarkers =
          (if s.inPasteRegion then setLastContent s.pasteHasContent s.pasteMarkers
            else s.pasteMarkers) ++ [⟨idx, s.pasteHasContent⟩] ∧
        (s.line idx line).inPasteRegion = false) := by
  by_cases hfence : startsWith line "```"
  · cases hcode : s.inCodeBlock with
    | true =>
      rw [BlockScan.line_close hfence hcode]
      exact .inl ⟨s.flush_pasteMarkers, s.flush_inPasteRegion⟩
    | false =>
      rw [BlockScan.line_open hfence hcode]
      exact .inl ⟨rfl, rfl⟩
  cases hcode : s.inCodeBlock with
  | true =>
    rw [BlockScan.line_code hfence hcode]
    exact .inl ⟨rfl, rfl⟩
  | false =>
    rw [BlockScan.line, if_neg hfence, if_neg (by simp [hcode])]
    by_cases hstart : contains line "<!-- PASTE START -->"
    · rw [if_pos hstart]
      exact .inr (.inl ⟨rfl, rfl⟩)
    by_cases hend : contains line "<!-- PASTE END -->"
    · rw [if_neg hstart, if_pos hend]
      exact .inr (.inr ⟨rfl, rfl⟩)
    rw [if_neg hstart, if_neg hend]
    left
    split_ifs
    · exact ⟨rfl, rfl⟩
    · exact ⟨rfl, rfl⟩

theorem BlockScan.frozen_line (s : BlockScan) (idx : ℕ) (line : Text) :
    s.frozen <+: (s.line idx line).frozen := by
  rcases s.line_markers idx line with ⟨hmarkers, hregion⟩ | ⟨hmarkers, hregion⟩ | ⟨hmarkers, hregion⟩
  · rw [BlockScan.frozen, BlockScan.frozen, hmarkers, hregion]
  · have hfrozen : (s.line idx line).frozen = s.pasteMarkers := by
      rw [BlockScan.frozen, hregion, if_pos rfl, hmarkers, List.dropLast_concat]
    rw [hfrozen]
    exact s.frozen_prefix
  · have hfrozen : (s.line idx line).frozen = (s.line idx line).pasteMarkers := by
      rw [BlockScan.frozen, hregion, if_neg Bool.false_ne_true]
    rw [hfrozen, hmarkers, BlockScan.frozen]
    split_ifs
    · exact (dropLast_prefix_setLastContent _ _).trans (List.prefix_append _ _)
    · exact List.prefix_append _ _

theorem BlockScan.frozen_run (s : BlockScan) (idx : ℕ) (ls : List Text) :
    s.frozen <+: (s.run idx ls).pasteMarkers := by
  induction ls generalizing s idx with
  | nil => exact s.frozen_prefix
  | cons line rest ih => exact (s.frozen_line idx line).trans (ih _ _)

/-- Markers are recorded at the lines that are read. -/
theorem BlockScan.run_lineNumbers (s : BlockScan) (idx : ℕ) (ls : List Text) :
    ∃ numbers, (s.run idx ls).pasteMarkers.map (·.lineNumber) =
      s.pasteMarkers.map (·.lineNumber) ++ numbers ∧
        ∀ n ∈ numbers, idx ≤ n ∧ n < idx + ls.length := by
  induction ls generalizing s idx with
  | nil => exact ⟨[], (List.append_nil _).symm, fun _ h => by cases h⟩
  | cons line rest ih =>
    obtain ⟨numbers, hrun, hnumbers⟩ := ih (s.line idx line) (idx + 1)
    obtain ⟨new, hline, hnew⟩ : ∃ new, (s.line idx line).pasteMarkers.map (·.lineNumber) =
        s.pasteMarkers.map (·.lineNumber) ++ new ∧ ∀ n ∈ new, n = idx := by
      rcases s.line_markers idx line with ⟨h, -⟩ | ⟨h, -⟩ | ⟨h, -⟩
      · exact ⟨[], by rw [h, List.append_nil], fun _ h => by cases h⟩
      · exact ⟨[idx], by rw [h, List.map_append]; rfl, fun n hn => List.mem_singleton.mp hn⟩
      · refine ⟨[idx], ?_, fun n hn => List.mem_singleton.mp hn⟩
        rw [h, List.map_append]
        split_ifs
        · rw [setLastContent_lineNumbers]
          rfl
        · rfl
    refine ⟨new ++ numbers, ?_, fun n hn => ?_⟩
    · rw [BlockScan.run_cons, hrun, hline, List.append_assoc]
    · rw [List.length_cons]
      rcases List.mem_append.mp hn with hn | hn
      · rw [hnew n hn]
        omega
      · have := hnumbers n hn
        omega

/-- A line inside or outside a fence leaves the loop inside or outside a fence. -/
theorem BlockScan.line_inCodeBlock (s : BlockScan) (idx : ℕ) (line : Text) :
    (s.line idx line).inCodeBlock = nextFence s.inCodeBlock line := by
  by_cases hfence : startsWith line "```"
  · rw [nextFence_fence hfence]
    cases hcode : s.inCodeBlock with
    | true => rw [BlockScan.line_close hfence hcode]; rfl
    | false => rw [BlockScan.line_open hfence hcode]; rfl
  · rw [nextFence_text hfence]
    cases hcode : s.inCodeBlock with
    | true => rw [BlockScan.line_code hfence hcode]; exact hcode
    | false => exact (BlockScan.line_outside hfence hcode idx).2.2

theorem BlockScan.run_inCodeBlock (s : BlockScan) (idx : ℕ) (ls : List Text) :
    (s.run idx ls).inCodeBlock = ls.foldl nextFence s.inCodeBlock := by
  induction ls generalizing s idx with
  | nil => rfl
  | cons line rest ih => rw [BlockScan.run_cons, ih, BlockScan.line_inCodeBlock, List.foldl_cons]

/-- A line of a paste region: text outside fences gives it content. -/
theorem BlockScan.line_pasted {s : BlockScan} {line : Text} (hregion : s.inPasteRegion = true)
    (hmarker : s.inCodeBlock = false → ¬ IsPasteStart line ∧ ¬ IsPasteEnd line) (idx : ℕ) :
    (s.line idx line).pasteMarkers = s.pasteMarkers ∧ (s.line idx line).inPasteRegion = true ∧
      ((s.line idx line).pasteHasContent = true ↔ s.pasteHasContent = true ∨
        s.inCodeBlock = false ∧ ¬ startsWith line "```" ∧ ¬ Blank line) := by
  by_cases hfence : startsWith line "```"
  · have hno : ¬ (s.inCodeBlock = false ∧ ¬ startsWith line "```" ∧ ¬ Blank line) :=
      fun h => h.2.1 hfence
    rw [or_iff_left hno]
    cases hcode : s.inCodeBlock with
    | true =>
      have hflush : s.flush.pasteHasContent = s.pasteHasContent := by
        rw [BlockScan.flush]
        split_ifs
        · rfl
        · rfl
      rw [BlockScan.line_close hfence hcode]
      exact ⟨s.flush_pasteMarkers, s.flush_inPasteRegion.trans hregion, iff_of_eq (by rw [hflush])⟩
    | false =>
      rw [BlockScan.line_open hfence hcode]
      exact ⟨rfl, hregion, Iff.rfl⟩
  cases hcode : s.inCodeBlock with
  | true =>
    rw [BlockScan.line_code hfence hcode]
    exact ⟨rfl, hregion, by simp⟩
  | false =>
    obtain ⟨hnostart, hnoend⟩ := hmarker hcode
    have hstart : ¬ contains line "<!-- PASTE START -->" := fun h => hnostart ⟨hfence, h⟩
    have hend : ¬ contains line "<!-- PASTE END -->" := fun h => hnoend ⟨hfence, hstart, h⟩
    rw [BlockScan.line, if_neg hfence, if_neg (by simp [hcode]), if_neg hstart, if_neg hend]
    by_cases hblank : Blank line
    · rw [if_neg fun h => h.2 hblank]
      exact ⟨rfl, hregion, by simp [hblank]⟩
    · rw [if_pos ⟨hregion, hblank⟩]
      exact ⟨rfl, hregion, by simp [hfence, hblank]⟩

/-- A run over a paste region records no marker. -/
theorem BlockScan.run_pasted {s : BlockScan} {mid : List Text} (hregion : s.inPasteRegion = true)
    (hmarker : ∀ e ∈ withFence s.inCodeBlock mid, e.2 = false →
      ¬ IsPasteStart e.1 ∧ ¬ IsPasteEnd e.1) (idx : ℕ) :
    (s.run idx mid).pasteMarkers = s.pasteMarkers ∧ (s.run idx mid).inPasteRegion = true ∧
      ((s.run idx mid).pasteHasContent = true ↔ s.pasteHasContent = true ∨
        ∃ e ∈ withFence s.inCodeBlock mid, e.2 = false ∧ ¬ startsWith e.1 "```" ∧ ¬ Blank e.1) := by
  induction mid generalizing s idx with
  | nil => exact ⟨rfl, hregion, by simp [BlockScan.run, withFence]⟩
  | cons line rest ih =>
    rw [withFence, List.forall_mem_cons, ← s.line_inCodeBlock idx] at hmarker
    obtain ⟨hmarkers, hregion', hcontent⟩ := BlockScan.line_pasted hregion hmarker.1 idx
    obtain ⟨hrun, hrunRegion, hrunContent⟩ := ih hregion' hmarker.2 (idx + 1)
    refine ⟨hrun.trans hmarkers, hrunRegion, hrunContent.trans ?_⟩
    rw [hcontent, s.line_inCodeBlock, withFence, or_assoc]
    simp only [List.mem_cons, or_and_right, exists_or, exists_eq_left]

theorem map_fst_withFence (inFence : Bool) (ls : List Text) :
    (withFence inFence ls).map Prod.fst = ls := by
  induction ls generalizing inFence with
  | nil => rfl
  | cons line rest ih => rw [withFence, List.map_cons, ih]

theorem exists_mem_withFence {ls : List Text} {l : Text} (h : l ∈ ls) (inFence : Bool) :
    ∃ b, (l, b) ∈ withFence inFence ls := by
  rw [← map_fst_withFence inFence ls] at h
  obtain ⟨e, he, rfl⟩ := List.mem_map.mp h
  exact ⟨e.2, he⟩

theorem mem_of_mem_withFence {ls : List Text} {inFence : Bool} {e : Text × Bool}
    (h : e ∈ withFence inFence ls) : e.1 ∈ ls := by
  rw [← map_fst_withFence inFence ls]
  exact List.mem_map_of_mem h

theorem foldl_nextFence_text {ls : List Text} (h : ∀ l ∈ ls, ¬ startsWith l "```") (inFence : Bool) :
    ls.foldl nextFence inFence = inFence := by
  induction ls generalizing inFence with
  | nil => rfl
  | cons line rest ih =>
    rw [List.foldl_cons, nextFence_text (h line List.mem_cons_self)]
    exact ih (fun l hl => h l (List.mem_cons_of_mem _ hl)) inFence

theorem not_blank_of_fence {line : Text} (h : startsWith line "```") : ¬ Blank line :=
  not_blank_of_startsWith h ⟨'`', by decide, rfl⟩

/-! ## Pastes -/

/-- A start marker outside fences opens a paste region without content. -/
theorem BlockScan.line_start {s : BlockScan} {line : Text} (hcode : s.inCodeBlock = false)
    (h : IsPasteStart line) (idx : ℕ) :
    s.line idx line = { s with
      inPasteRegion := true
      pasteHasContent := false
      pasteMarkers := s.pasteMarkers ++ [{ lineNumber := idx, hasContent := false }] } := by
  rw [BlockScan.line, if_neg h.1, if_neg (by simp [hcode]), if_pos h.2]

/-- An end marker outside fences closes the paste region. -/
theorem BlockScan.line_stop {s : BlockScan} {line : Text} (hcode : s.inCodeBlock = false)
    (hregion : s.inPasteRegion = true) (h : IsPasteEnd line) (idx : ℕ) :
    s.line idx line = { s with
      pasteMarkers := setLastContent s.pasteHasContent s.pasteMarkers ++
        [{ lineNumber := idx, hasContent := s.pasteHasContent }]
      inPasteRegion := false } := by
  rw [BlockScan.line, if_neg h.1, if_neg (by simp [hcode]), if_neg h.2.1, if_pos h.2.2]
  dsimp only
  rw [if_pos hregion]

section Pasted

variable {block pre mid post : List Text} {start stop : Text}

/-- The loop before the end marker of a paste. -/
structure AtStop (pre mid : List Text) (s : BlockScan) : Prop where
  markers : ∃ before, s.pasteMarkers = before ++ [⟨pre.length, false⟩] ∧
    ∀ m ∈ before, m.lineNumber < pre.length
  region : s.inPasteRegion = true
  code : s.inCodeBlock = mid.foldl nextFence false
  content : s.pasteHasContent = true ↔
    ∃ e ∈ withFence false mid, e.2 = false ∧ ¬ startsWith e.1 "```" ∧ ¬ Blank e.1

theorem Pasted.exists_atStop (h : Pasted block pre start mid stop post) :
    ∃ s : BlockScan, AtStop pre mid s ∧ (parseVerificationBlock block).pasteMarkers =
      (BlockScan.run (s.line (pre.length + 1 + mid.length) stop)
        (pre.length + 1 + mid.length + 1) post).pasteMarkers := by
  let s₀ := BlockScan.run {} 0 pre
  let s₁ := s₀.line pre.length start
  have hcode₀ : s₀.inCodeBlock = false := (BlockScan.run_inCodeBlock {} 0 pre).trans h.outside
  have hs₁ : s₁ = { s₀ with
      inPasteRegion := true
      pasteHasContent := false
      pasteMarkers := s₀.pasteMarkers ++ [{ lineNumber := pre.length, hasContent := false }] } :=
    BlockScan.line_start hcode₀ h.start pre.length
  have hcode₁ : s₁.inCodeBlock = false := by rw [hs₁]; exact hcode₀
  have hmid : ∀ e ∈ withFence s₁.inCodeBlock mid, e.2 = false →
      ¬ IsPasteStart e.1 ∧ ¬ IsPasteEnd e.1 := by
    rw [hcode₁]
    exact h.between
  obtain ⟨hmarkers, hregion, hcontent⟩ :=
    BlockScan.run_pasted (s := s₁) (by rw [hs₁]) hmid (pre.length + 1)
  refine ⟨s₁.run (pre.length + 1) mid, ⟨⟨s₀.pasteMarkers, ?_, ?_⟩, hregion, ?_, ?_⟩, ?_⟩
  · rw [hmarkers, hs₁]
  · obtain ⟨numbers, hnumbers, hlt⟩ := BlockScan.run_lineNumbers {} 0 pre
    intro m hm
    have hmem : m.lineNumber ∈ s₀.pasteMarkers.map (·.lineNumber) := List.mem_map_of_mem hm
    rw [hnumbers] at hmem
    have := (hlt m.lineNumber hmem).2
    omega
  · rw [BlockScan.run_inCodeBlock, hcode₁]
  · rw [hcontent, hcode₁, hs₁]
    simp
  · rw [parseVerificationBlock_eq, BlockScan.flush_pasteMarkers, h.split, BlockScan.run_append,
      BlockScan.run_cons, BlockScan.run_append, BlockScan.run_cons, Nat.zero_add]

theorem find?_lineNumber {before rest : List PasteMarker} (marker : PasteMarker)
    (h : ∀ m ∈ before, m.lineNumber ≠ marker.lineNumber) :
    (before ++ marker :: rest).find? (·.lineNumber = marker.lineNumber) = some marker := by
  rw [List.find?_append, List.find?_eq_none.mpr (by simpa using h), Option.none_or,
    List.find?_cons_of_pos (by simp)]

/-- The markers of a paste whose fences are closed have the same flag. -/
theorem Pasted.contentAt_of_closed (h : Pasted block pre start mid stop post)
    (hclosed : mid.foldl nextFence false = false) : ∃ hasContent : Bool,
    contentAt (parseVerificationBlock block) pre.length = some hasContent ∧
    contentAt (parseVerificationBlock block) (pre.length + 1 + mid.length) = some hasContent ∧
    (hasContent = true ↔
      ∃ e ∈ withFence false mid, e.2 = false ∧ ¬ startsWith e.1 "```" ∧ ¬ Blank e.1) := by
  obtain ⟨s, hs, hmarkers⟩ := h.exists_atStop
  obtain ⟨before, hbefore, hlt⟩ := hs.markers
  have hline := BlockScan.line_stop (hs.code.trans hclosed) hs.region h.stop
    (pre.length + 1 + mid.length)
  have hprefix := BlockScan.frozen_run (s.line (pre.length + 1 + mid.length) stop)
    (pre.length + 1 + mid.length + 1) post
  rw [← hmarkers, BlockScan.frozen, hline, if_neg Bool.false_ne_true, hbefore,
    setLastContent_concat, List.append_assoc] at hprefix
  obtain ⟨rest, hrest⟩ := hprefix
  refine ⟨s.pasteHasContent, ?_, ?_, hs.content⟩
  · rw [contentAt, ← hrest, List.append_assoc]
    have hne : ∀ m ∈ before, m.lineNumber ≠ pre.length := fun m hm => (hlt m hm).ne
    exact congrArg (Option.map _)
      (find?_lineNumber ⟨pre.length, s.pasteHasContent⟩ hne)
  · have hne : ∀ m ∈ before ++ [⟨pre.length, s.pasteHasContent⟩],
        m.lineNumber ≠ pre.length + 1 + mid.length := by
      intro m hm
      rcases List.mem_append.mp hm with hm | hm
      · have := hlt m hm
        omega
      · rw [List.mem_singleton.mp hm]
        dsimp only
        omega
    rw [contentAt, ← hrest, ← List.append_assoc, List.append_assoc (before ++ _)]
    exact congrArg (Option.map _) (find?_lineNumber
      ⟨pre.length + 1 + mid.length, s.pasteHasContent⟩ hne)

/-- An end marker inside a fence is not recorded. -/
theorem Pasted.contentAt_of_open (h : Pasted block pre start mid stop post)
    (hopen : mid.foldl nextFence false = true) :
    contentAt (parseVerificationBlock block) (pre.length + 1 + mid.length) = none := by
  obtain ⟨s, hs, hmarkers⟩ := h.exists_atStop
  obtain ⟨before, hbefore, hlt⟩ := hs.markers
  obtain ⟨numbers, hnumbers, hge⟩ := BlockScan.run_lineNumbers
    (s.line (pre.length + 1 + mid.length) stop) (pre.length + 1 + mid.length + 1) post
  rw [← hmarkers, BlockScan.line_code h.stop.1 (hs.code.trans hopen)] at hnumbers
  have hnone : (parseVerificationBlock block).pasteMarkers.find?
      (·.lineNumber = pre.length + 1 + mid.length) = none := by
    refine List.find?_eq_none.mpr fun m hm heq => ?_
    have heq : m.lineNumber = pre.length + 1 + mid.length := of_decide_eq_true heq
    have hmem : m.lineNumber ∈ (parseVerificationBlock block).pasteMarkers.map (·.lineNumber) :=
      List.mem_map_of_mem hm
    rw [hnumbers, hbefore] at hmem
    rcases List.mem_append.mp hmem with hmem | hmem
    · obtain ⟨m', hm', hm'eq⟩ := List.mem_map.mp hmem
      rcases List.mem_append.mp hm' with hm' | hm'
      · have := hlt m' hm'
        omega
      · rw [List.mem_singleton.mp hm'] at hm'eq
        dsimp only at hm'eq
        omega
    · have := (hge _ hmem).1
      omega
  rw [contentAt, hnone]
  rfl

/-- The lines of a block between two markers, with their fences. -/
theorem Pasted.withFence_getElem? (h : Pasted block pre start mid stop post) {k : ℕ}
    (hk : k < mid.length) :
    (withFence false block)[pre.length + 1 + k]? = (withFence false mid)[k]? := by
  have hstart : nextFence false start = false := nextFence_text h.start.1 false
  rw [h.split, withFence_append, h.outside, withFence, hstart, withFence_append,
    List.getElem?_append_right (by rw [length_withFence]; omega), length_withFence,
    show pre.length + 1 + k - pre.length = k + 1 by omega, List.getElem?_cons_succ,
    List.getElem?_append_left (by rwa [length_withFence])]

/-- A line is part of a command when it is text inside a fence of the block. -/
theorem exists_mem_commandSpans_iff (block : List Text) (i : ℕ) :
    (∃ span ∈ commandSpans block 0 none, i ∈ span) ↔
      ∃ e, (withFence false block)[i]? = some e ∧ e.2 = true ∧ ¬ startsWith e.1 "```" := by
  rw [exists_mem_commandSpans]
  simp only [Option.not_mem_none, false_and, exists_false, false_or, Option.isSome_none,
    List.mem_zipIdx_iff_getElem?]
  constructor
  · rintro ⟨e, he, rfl, hin, hnot⟩
    exact ⟨e.1, he, hin, hnot⟩
  · rintro ⟨e, he, hin, hnot⟩
    exact ⟨(e, i), he, rfl, hin, hnot⟩

/-- No pasted line is run when the fences of the paste are empty. -/
theorem Pasted.notRun_iff (h : Pasted block pre start mid stop post) :
    (∀ span ∈ commandSpans block 0 none, ∀ i ∈ span,
        ¬ (pre.length < i ∧ i < pre.length + 1 + mid.length)) ↔
      ∀ e ∈ withFence false mid, e.2 = true → startsWith e.1 "```" := by
  constructor
  · intro hnotRun e he hin
    by_contra hnot
    obtain ⟨k, hk⟩ := List.mem_iff_getElem?.mp he
    have hlt : k < mid.length := by
      rw [← length_withFence false mid]
      exact (List.getElem?_eq_some_iff.mp hk).1
    obtain ⟨span, hspan, hi⟩ := (exists_mem_commandSpans_iff block (pre.length + 1 + k)).mpr
      ⟨e, (h.withFence_getElem? hlt).trans hk, hin, hnot⟩
    exact hnotRun span hspan _ hi ⟨by omega, by omega⟩
  · intro hempty span hspan i hi hbetween
    obtain ⟨e, he, hin, hnot⟩ := (exists_mem_commandSpans_iff block i).mp ⟨span, hspan, hi⟩
    obtain ⟨k, rfl⟩ : ∃ k, i = pre.length + 1 + k := ⟨i - (pre.length + 1), by omega⟩
    rw [h.withFence_getElem? (by omega)] at he
    exact hnot (hempty e (List.mem_of_getElem? he) hin)

theorem exists_not_blank_of_fence (h : ∃ l ∈ mid, startsWith l "```") : ∃ l ∈ mid, ¬ Blank l := by
  obtain ⟨l, hl, hline⟩ := h
  exact ⟨l, hl, not_blank_of_fence hline⟩

/-- The closing marker of a paste that is kept stands outside of its fences. -/
theorem PasteKept.closed (hkept : PasteKept block pre mid)
    (h : Pasted block pre start mid stop post) : mid.foldl nextFence false = false := by
  by_contra hopen
  have hopen : mid.foldl nextFence false = true := by simpa using hopen
  have hline : ∃ l ∈ mid, startsWith l "```" := by
    by_contra hnone
    push Not at hnone
    rw [foldl_nextFence_text hnone] at hopen
    cases hopen
  have hcontent := hkept.stop.mpr (exists_not_blank_of_fence hline)
  rw [h.contentAt_of_open hopen] at hcontent
  cases hcontent

/-- The text of a plain paste stands outside of its fences. -/
theorem PlainPaste.text_iff (hplain : PlainPaste mid) :
    (∃ e ∈ withFence false mid, e.2 = false ∧ ¬ startsWith e.1 "```" ∧ ¬ Blank e.1) ↔
      ∃ l ∈ mid, ¬ Blank l := by
  constructor
  · rintro ⟨e, he, -, -, hblank⟩
    exact ⟨e.1, mem_of_mem_withFence he, hblank⟩
  · rintro ⟨l, hl, hblank⟩
    obtain ⟨l', hl', hnot, hblank'⟩ : ∃ l ∈ mid, ¬ startsWith l "```" ∧ ¬ Blank l := by
      by_cases hline : startsWith l "```"
      · exact hplain.text ⟨l, hl, hline⟩
      · exact ⟨l, hl, hline, hblank⟩
    obtain ⟨b, hb⟩ := exists_mem_withFence hl' false
    cases b with
    | true => exact absurd (hplain.empty _ hb rfl) hnot
    | false => exact ⟨_, hb, rfl, hnot, hblank'⟩

/-- **Pasted evidence.** The markers of a paste have content exactly when there is some, and no
pasted line is run, if and only if the paste is plain. -/
theorem pasteKept_iff (h : Pasted block pre start mid stop post) :
    PasteKept block pre mid ↔ PlainPaste mid := by
  constructor
  · intro hkept
    have hclosed := hkept.closed h
    obtain ⟨hasContent, hstart, -, hiff⟩ := h.contentAt_of_closed hclosed
    refine ⟨hclosed, h.notRun_iff.mp hkept.notRun, fun hline => ?_⟩
    have hcontent := hkept.start.mpr (exists_not_blank_of_fence hline)
    rw [hstart, Option.some.injEq, hiff] at hcontent
    obtain ⟨e, he, -, hnot, hblank⟩ := hcontent
    exact ⟨e.1, mem_of_mem_withFence he, hnot, hblank⟩
  · intro hplain
    obtain ⟨hasContent, hstart, hstop, hiff⟩ := h.contentAt_of_closed hplain.closed
    refine ⟨?_, ?_, h.notRun_iff.mpr hplain.empty⟩
    · rw [hstart, Option.some.injEq, hiff, hplain.text_iff]
    · rw [hstop, Option.some.injEq, hiff, hplain.text_iff]

end Pasted

/-- A command, and what was pasted after it. -/
def pasteBlock (mid : List Text) : List Text :=
  ["```".toList, "cargo test".toList, "```".toList] ++ "<!-- PASTE START -->".toList ::
    (mid ++ "<!-- PASTE END -->".toList :: [])

/-- Pasted text is recognised. -/
theorem pasteKept_iff_text :
    PasteKept (pasteBlock ["".toList, "ok".toList])
      ["```".toList, "cargo test".toList, "```".toList] ["".toList, "ok".toList] := by
  have hpasted : Pasted (pasteBlock ["".toList, "ok".toList])
      ["```".toList, "cargo test".toList, "```".toList] "<!-- PASTE START -->".toList
      ["".toList, "ok".toList] "<!-- PASTE END -->".toList [] :=
    ⟨rfl, by decide, by decide, by decide, by decide⟩
  exact (pasteKept_iff hpasted).mpr ⟨by decide, by decide, by decide⟩

/-- A fence in pasted text is run. -/
theorem pasted_fence_run : ¬ ∀ (block pre mid post : List Text) (start stop : Text),
    Pasted block pre start mid stop post → PasteKept block pre mid := by
  intro hclaim
  have hkept := hclaim (pasteBlock ["```".toList, "ok".toList, "```".toList])
    ["```".toList, "cargo test".toList, "```".toList] ["```".toList, "ok".toList, "```".toList] []
    "<!-- PASTE START -->".toList "<!-- PASTE END -->".toList
    ⟨rfl, by decide, by decide, by decide, by decide⟩
  exact hkept.notRun [5] (by decide) 5 (by decide) (by decide)

end Hymenium
