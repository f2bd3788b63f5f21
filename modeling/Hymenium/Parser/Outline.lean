import Hymenium.Foundations.Runs
import Hymenium.Parser.Reading

/-!
# The outline of a document

What the parser takes a document apart into: its title, the lines of its steps and their
subsections, and the lines of its sections. Every loop of the parser is a machine that reads lines,
and a line can be replaced by another one without changing the outline exactly when both take all
of them to the same state (`fencedLine_iff`). Code fences matter to the loop over sections only.

1. Steps: `stepSpans` are the lines handed to `parse_step`, and `nextMode` the machine of the steps.
2. Sections: a `SectionRule` says how one of the section loops starts and ends, and its `marks` are
   the lines that belong to the section.
3. Lines inside a fence.
-/

namespace Hymenium

open Text

variable (U : Unicode)

/-! ## Steps -/

/-- The number and the title of a step heading. -/
def stepHeading (line : Text) : Option (UInt32 × Text) := do
  let number ← headingNumber line
  let title ← extractStepTitle line
  return (number, title)

/-- The mode of the lines after a line that is read in a mode. -/
def Mode.next (mode : Mode) (line : Text) : Mode :=
  (markerMode line).getD
    (if mode = .metadata ∧ ¬ startsWith line "**" ∧ line ≠ [] then .description else mode)

/-- The lines of a step: the line of its heading, the line at which it ends, and the mode after each
line in between. -/
structure StepSpan where
  number : UInt32
  title : Text
  start : ℕ
  stop : ℕ
  modes : List Mode
  deriving DecidableEq

/-- The step that starts at line `idx`, as `stepAt` reads it. -/
def stepSpan (lines : List Text) (line : Text) (idx : ℕ) : Option StepSpan :=
  (stepHeading line).map fun heading =>
    let stepEnd := findNextSectionBoundary lines idx
    { number := heading.1
      title := heading.2
      start := idx
      stop := stepEnd
      modes := Runs.trace Mode.next .metadata ((lines.take stepEnd).drop idx).tail }

def stepSpans (lines : List Text) : List StepSpan :=
  lines.zipIdx.filterMap fun entry => stepSpan lines entry.1 entry.2

/-- The mode in which the line after `line` is read; outside of the steps there is none. -/
def nextMode (mode : Option Mode) (line : Text) : Option Mode :=
  if isBoundary line then (stepHeading line).map fun _ => .metadata
  else mode.map fun mode => mode.next line

theorem stepHeading_eq_none_iff {line : Text} :
    stepHeading line = none ↔ headingNumber line = none := by
  obtain ⟨title, htitle⟩ := Option.ne_none_iff_exists'.mp (extractStepTitle_ne_none line)
  unfold stepHeading
  rw [htitle]
  cases headingNumber line with
  | none => exact iff_of_true rfl rfl
  | some number => exact iff_of_false nofun nofun

theorem stepHeading_of_not_isBoundary {line : Text} (h : ¬ isBoundary line) :
    stepHeading line = none := by
  rw [stepHeading_eq_none_iff, headingNumber, if_neg]
  rintro ⟨hstep, -⟩
  exact h (.inr (.inl (List.IsPrefix.trans (by decide) hstep)))

/-- A key line of the metadata does not end it. -/
theorem Mode.next_key {line : Text} (h : startsWith line "**Project:**" ∨
    startsWith line "**Effort:**" ∨ startsWith line "**Depends on:**") :
    Mode.metadata.next line = .metadata := by
  have hstars : startsWith line "**" := by
    rcases h with h | h | h
    · exact List.IsPrefix.trans (by decide) h
    · exact List.IsPrefix.trans (by decide) h
    · exact List.IsPrefix.trans (by decide) h
  rw [Mode.next, markerMode_key h, Option.getD_none, if_neg fun hnot => hnot.2.1 hstars]

theorem StepScan.mode_body {s t : StepScan} {line : Text} (hmarker : markerMode line = none)
    (h : s.body line = some t) : t.mode = s.mode.next line := by
  rw [Mode.next, hmarker, Option.getD_none]
  have hkept (hmode : s.mode ≠ .metadata) : s.mode =
      if s.mode = .metadata ∧ ¬ startsWith line "**" ∧ line ≠ [] then .description else s.mode :=
    (if_neg fun hnot => hmode hnot.1).symm
  cases StepScan.reads_of_body h with
  | skipped hnot => exact (if_neg hnot).symm
  | opening hmode htext => exact (if_pos ⟨hmode, htext⟩).symm
  | description hmode => exact hkept (by simp [hmode])
  | fenced hmode => exact hkept (by simp [hmode])
  | item hmode _ => exact hkept (by simp [hmode])
  | file hmode _ => exact hkept (by simp [hmode])

/-- `parse_step` reads the lines after `line` in the next mode. -/
theorem scanStep_next {line : Text} (hline : ¬ isBoundary line) {rest : List Text}
    {s s' : StepScan} (h : scanStep (line :: rest) s = some s') :
    ∃ t, t.mode = s.mode.next line ∧ scanStep rest t = some s' := by
  unfold scanStep at h
  split_ifs at h with hproject heffort hdepends hstop
  · obtain ⟨value, -, hrest⟩ := Option.bind_eq_some_iff.mp h
    exact ⟨_, by rw [hproject.1, Mode.next_key (.inl hproject.2)], hrest⟩
  · obtain ⟨value, -, hrest⟩ := Option.bind_eq_some_iff.mp h
    exact ⟨_, by rw [heffort.1, Mode.next_key (.inr (.inl heffort.2))], hrest⟩
  · obtain ⟨value, -, hrest⟩ := Option.bind_eq_some_iff.mp h
    exact ⟨_, by rw [hdepends.1, Mode.next_key (.inr (.inr hdepends.2))], hrest⟩
  · exact absurd (isBoundary_of_stopsStep hstop) hline
  · cases hmarker : markerMode line with
    | some mode =>
      rw [hmarker] at h
      exact ⟨_, by rw [Mode.next, hmarker, Option.getD_some], h⟩
    | none =>
      rw [hmarker] at h
      obtain ⟨t, hbody, hrest⟩ := Option.bind_eq_some_iff.mp h
      exact ⟨t, StepScan.mode_body hmarker hbody, hrest⟩

/-- The modes of a step are those of `parse_step`. -/
theorem mode_scanStep {lines : List Text} (hlines : ∀ l ∈ lines, ¬ isBoundary l) {s s' : StepScan}
    (h : scanStep lines s = some s') : s'.mode = Runs.run Mode.next s.mode lines := by
  induction lines generalizing s with
  | nil =>
    cases h
    rfl
  | cons line rest ih =>
    obtain ⟨hline, hrest⟩ := List.forall_mem_cons.mp hlines
    obtain ⟨t, hmode, hscan⟩ := scanStep_next hline h
    rw [Runs.run_cons, ← hmode]
    exact ih hrest hscan

/-- The step with a heading at line `idx`, before the lines `rest`. -/
def spanAt (idx : ℕ) (rest : List Text) (heading : UInt32 × Text) : StepSpan where
  number := heading.1
  title := heading.2
  start := idx
  stop := idx + 1 + (stepBody rest).length
  modes := Runs.trace Mode.next .metadata (stepBody rest)

/-- The spans of the steps among lines that follow `idx` others. -/
def spansFrom (idx : ℕ) : List Text → List StepSpan
  | [] => []
  | line :: rest => ((stepHeading line).map (spanAt idx rest)).toList ++ spansFrom (idx + 1) rest

theorem stepSpans_eq (lines : List Text) : stepSpans lines = spansFrom 0 lines := by
  suffices h : ∀ ls pre, ((ls.zipIdx pre.length).filterMap fun entry =>
      stepSpan (pre ++ ls) entry.1 entry.2) = spansFrom pre.length ls from h lines []
  intro ls
  induction ls with
  | nil => exact fun _ => rfl
  | cons line rest ih =>
    intro pre
    have ih := ih (pre ++ [line])
    rw [List.length_append, List.length_singleton, List.append_assoc, List.singleton_append] at ih
    have hspan : stepSpan (pre ++ line :: rest) line pre.length =
        (stepHeading line).map (spanAt pre.length rest) := by
      unfold stepSpan
      dsimp only
      rw [stepLines_eq, findNextSectionBoundary_eq]
      rfl
    rw [List.zipIdx_cons, List.filterMap_cons, spansFrom, ← ih]
    dsimp only
    rw [hspan]
    cases stepHeading line with
    | none => rfl
    | some heading => rfl

/-- The steps that are read are those of the spans. -/
theorem readSteps_headings {lines : List Text} {steps : List ParsedStep} (idx : ℕ)
    (h : readSteps lines = some steps) : steps.map (fun step => (step.number, step.title)) =
      (spansFrom idx lines).map fun span => (span.number, span.title) := by
  induction lines generalizing steps idx with
  | nil =>
    cases h
    rfl
  | cons line rest ih =>
    rw [readSteps] at h
    rw [spansFrom, List.map_append]
    cases hnumber : headingNumber line with
    | none =>
      rw [hnumber] at h
      rw [stepHeading_eq_none_iff.mpr hnumber]
      exact ih (idx + 1) h
    | some number =>
      rw [hnumber] at h
      simp only [Option.bind_eq_bind, Option.bind_eq_some_iff, Option.pure_def,
        Option.some.injEq] at h
      obtain ⟨title, htitle, step, hstep, steps', hrest, rfl⟩ := h
      obtain ⟨scan, -, rfl⟩ := Option.map_eq_some_iff.mp hstep
      have hheading : stepHeading line = some (number, title) := by
        rw [stepHeading, hnumber, htitle]
        rfl
      rw [hheading, List.map_cons, ih (idx + 1) hrest]
      rfl

/-! ## The machine of the steps -/

/-- The modes after the lines that are left of the open step. -/
def openModes : Option Mode → List Text → List Mode
  | none, _ => []
  | some mode, lines => Runs.trace Mode.next mode (stepBody lines)

theorem isBoundary_of_stepHeading {line : Text} {heading : UInt32 × Text}
    (h : stepHeading line = some heading) : isBoundary line := by
  by_contra hline
  exact nomatch h.symm.trans (stepHeading_of_not_isBoundary hline)

theorem stepBody_cons {line : Text} (h : ¬ isBoundary line) (rest : List Text) :
    stepBody (line :: rest) = line :: stepBody rest :=
  List.takeWhile_cons_of_pos (by simpa using h)

/-- No line of the open step is left at a boundary. -/
theorem openModes_boundary {line : Text} (h : isBoundary line) (mode : Option Mode)
    (rest : List Text) : openModes mode (line :: rest) = [] := by
  have hbody : stepBody (line :: rest) = [] := List.takeWhile_cons_of_neg (by simpa using h)
  cases mode with
  | none => rfl
  | some mode =>
    rw [openModes, hbody]
    rfl

/-- A line that is no heading is read, and its mode is the first of those that are left. -/
theorem openModes_cons {line : Text} (h : stepHeading line = none) (mode : Option Mode)
    (rest : List Text) : openModes mode (line :: rest) =
      (nextMode mode line).toList ++ openModes (nextMode mode line) rest := by
  by_cases hline : isBoundary line
  · rw [openModes_boundary hline, nextMode, if_pos hline, h]
    rfl
  · rw [nextMode, if_neg hline]
    cases mode with
    | none => rfl
    | some mode =>
      rw [openModes, stepBody_cons hline]
      rfl

/-- The modes that are left tell the next mode. -/
theorem head?_openModes (mode : Option Mode) (rest : List Text) :
    (mode.toList ++ openModes mode rest).head? = mode := by
  cases mode with
  | none => rfl
  | some mode => rfl

/-- A replaced line leaves the modes of the open step when both lines lead to the same mode. -/
theorem openModes_replace_iff {line line' : Text} (hheading : stepHeading line' = stepHeading line)
    (mode : Option Mode) (post : List Text) :
    openModes mode (line' :: post) = openModes mode (line :: post) ↔
      nextMode mode line' = nextMode mode line := by
  cases h : stepHeading line with
  | none =>
    rw [openModes_cons h, openModes_cons (hheading.trans h)]
    constructor
    · intro hmodes
      have hhead := congrArg List.head? hmodes
      rwa [head?_openModes, head?_openModes] at hhead
    · intro hmode
      rw [hmode]
  | some heading =>
    have hline := isBoundary_of_stepHeading h
    have hline' := isBoundary_of_stepHeading (hheading.trans h)
    rw [openModes_boundary hline, openModes_boundary hline', nextMode, nextMode, if_pos hline,
      if_pos hline', hheading]
    exact iff_of_true rfl rfl

/-- Two steps at one line have the same lines when the modes of their lines are the same. -/
theorem spanAt_inj {idx : ℕ} {rest rest' : List Text} {heading heading' : UInt32 × Text} :
    spanAt idx rest' heading' = spanAt idx rest heading ↔
      heading' = heading ∧ openModes (some .metadata) rest' = openModes (some .metadata) rest := by
  constructor
  · intro h
    exact ⟨Prod.ext (congrArg StepSpan.number h) (congrArg StepSpan.title h),
      congrArg StepSpan.modes h⟩
  · rintro ⟨rfl, hmodes⟩
    rw [openModes, openModes] at hmodes
    have hlength := congrArg List.length hmodes
    rw [Runs.length_trace, Runs.length_trace] at hlength
    rw [spanAt, spanAt, hlength, hmodes]

/-- The lines of the steps, and of the step that is open before them, stay the same when a line is
replaced by one with the same heading that leads to the same mode. -/
theorem spansFrom_replace_iff {pre post : List Text} {line line' : Text} (mode : Option Mode)
    (idx : ℕ) :
    openModes mode (pre ++ line' :: post) = openModes mode (pre ++ line :: post) ∧
      spansFrom idx (pre ++ line' :: post) = spansFrom idx (pre ++ line :: post) ↔
    stepHeading line' = stepHeading line ∧
      nextMode (Runs.run nextMode mode pre) line' = nextMode (Runs.run nextMode mode pre) line := by
  induction pre generalizing mode idx with
  | nil =>
    have hspans : spansFrom idx (line' :: post) = spansFrom idx (line :: post) ↔
        stepHeading line' = stepHeading line := by
      rw [spansFrom, spansFrom, List.append_cancel_right_eq]
      constructor
      · intro h
        have hhead := congrArg List.head? h
        rw [Option.head?_toList, Option.head?_toList] at hhead
        exact Option.map_injective (fun _ _ h => (spanAt_inj.mp h).1) hhead
      · intro h
        rw [h]
    rw [List.nil_append, List.nil_append, hspans, and_comm]
    exact and_congr_right fun hheading => openModes_replace_iff hheading mode post
  | cons head pre ih =>
    have ih := ih (nextMode mode head) (idx + 1)
    rw [Runs.run_cons, ← ih, List.cons_append, List.cons_append, spansFrom, spansFrom]
    cases hhead : stepHeading head with
    | none =>
      rw [openModes_cons hhead, openModes_cons hhead, List.append_cancel_left_eq]
      rfl
    | some heading =>
      have hboundary := isBoundary_of_stepHeading hhead
      have hnext : nextMode mode head = some .metadata := by
        rw [nextMode, if_pos hboundary, hhead]
        rfl
      rw [openModes_boundary hboundary, openModes_boundary hboundary, hnext]
      simp only [true_and, Option.map_some, Option.toList_some, List.singleton_append,
        List.cons.injEq, spanAt_inj]

/-- A replaced line leaves the lines of the steps when both lines have the same heading and lead to
the same mode. -/
theorem stepSpans_replace_iff {pre post : List Text} {line line' : Text} :
    stepSpans (pre ++ line' :: post) = stepSpans (pre ++ line :: post) ↔
      stepHeading line' = stepHeading line ∧ nextMode (Runs.run nextMode none pre) line' =
        nextMode (Runs.run nextMode none pre) line := by
  rw [← @spansFrom_replace_iff pre post line line' none 0, stepSpans_eq, stepSpans_eq]
  exact (and_iff_right rfl).symm

/-! ## Lines that can be read -/

/-- The line can be read as the next one of the open step. -/
def Readable (mode : Option Mode) (line : Text) : Prop :=
  ∀ m ∈ mode, ¬ isBoundary line → ¬ Unreadable m line

theorem panicsFrom_next (mode : Mode) (line : Text) (rest : List Text) :
    PanicsFrom ((markerMode line).getD mode) rest ↔ PanicsFrom (mode.next line) rest := by
  unfold Mode.next
  cases markerMode line with
  | some mode' => rfl
  | none =>
    rw [Option.getD_none, Option.getD_none]
    split_ifs with h
    · rw [h.1, panicsFrom_description]
    · rfl

theorem readSteps_ne_none_iff {line : Text} {number : UInt32} (h : headingNumber line = some number)
    (rest : List Text) : readSteps (line :: rest) ≠ none ↔
      ¬ PanicsFrom .metadata (stepBody rest) ∧ readSteps rest ≠ none := by
  obtain ⟨title, htitle⟩ := Option.ne_none_iff_exists'.mp (extractStepTitle_ne_none line)
  have hbody : ∀ l ∈ stepBody rest, ¬ isBoundary l := fun _ => not_isBoundary_of_mem_stepBody
  have hscan := scanStep_eq_none_iff hbody {}
  have hstep : parseStep number title (line :: stepBody rest) =
      (scanStep (stepBody rest) {}).map fun s => s.step number title := rfl
  rw [readSteps, h, htitle, ← hscan]
  dsimp only [Option.bind_eq_bind, Option.bind_some]
  rw [hstep]
  cases scanStep (stepBody rest) {} with
  | none => exact iff_of_false (fun hnot => hnot rfl) fun hnot => hnot.1 rfl
  | some s =>
    cases readSteps rest with
    | none => exact iff_of_false (fun hnot => hnot rfl) fun hnot => hnot.2 rfl
    | some steps =>
      exact iff_of_true (Option.some_ne_none _) ⟨Option.some_ne_none _, Option.some_ne_none _⟩

/-- The steps can be read when each line can be read as the next one of the open step. -/
theorem readSteps_iff_meets (mode : Option Mode) (lines : List Text) :
    (∀ m ∈ mode, ¬ PanicsFrom m (stepBody lines)) ∧ readSteps lines ≠ none ↔
      Runs.Meets nextMode Readable mode lines := by
  induction lines generalizing mode with
  | nil => exact iff_of_true ⟨fun _ _ => id, Option.some_ne_none _⟩ trivial
  | cons line rest ih =>
    rw [Runs.Meets, ← ih]
    by_cases hline : isBoundary line
    · have hreadable : Readable mode line := fun _ _ hnot => absurd hline hnot
      have hbody : stepBody (line :: rest) = [] := List.takeWhile_cons_of_neg (by simpa using hline)
      have hopen : ∀ m ∈ mode, ¬ PanicsFrom m (stepBody (line :: rest)) := by
        rw [hbody]
        exact fun _ _ => id
      rw [and_iff_right hreadable, and_iff_right hopen, nextMode, if_pos hline]
      cases hnumber : headingNumber line with
      | none =>
        rw [stepHeading_eq_none_iff.mpr hnumber, readSteps, hnumber]
        exact (and_iff_right fun m hm => absurd hm (Option.not_mem_none m)).symm
      | some number =>
        have hheading : stepHeading line ≠ none :=
          mt stepHeading_eq_none_iff.mp fun hnone =>
            Option.some_ne_none _ (hnumber.symm.trans hnone)
        obtain ⟨heading, hheading⟩ := Option.ne_none_iff_exists'.mp hheading
        rw [hheading, readSteps_ne_none_iff hnumber]
        simp
    · have hnumber := stepHeading_eq_none_iff.mp (stepHeading_of_not_isBoundary hline)
      rw [stepBody_cons hline, readSteps, hnumber, nextMode, if_neg hline, ← and_assoc]
      refine and_congr_left fun _ => ?_
      cases mode with
      | none => simp [Readable]
      | some mode => simp [Readable, PanicsFrom, hline, panicsFrom_next]

theorem readSteps_ne_none_iff_meets (lines : List Text) :
    readSteps lines ≠ none ↔ Runs.Meets nextMode Readable none lines := by
  rw [← readSteps_iff_meets]
  exact (and_iff_right fun m hm => absurd hm (Option.not_mem_none m)).symm

/-! ## Sections -/

/-- How a loop over sections starts and ends its section, and whether it tracks code fences. -/
structure SectionRule where
  heads : Text → Bool
  ends : Text → Bool
  fences : Bool

/-- Where a loop over sections is. -/
inductive Place where
  | before | inside (inCodeBlock : Bool) | after
  deriving DecidableEq

def Place.isInside : Place → Bool
  | .inside _ => true
  | .before | .after => false

def SectionRule.next (rule : SectionRule) : Place → Text → Place
  | .before, line => if rule.heads line then .inside false else .before
  | .inside inCodeBlock, line =>
    if rule.heads line then .inside inCodeBlock
    else if ¬ inCodeBlock ∧ rule.ends line then .after
    else if rule.fences ∧ startsWith line "```" then .inside !inCodeBlock
    else .inside inCodeBlock
  | .after, _ => .after

/-- The lines of a section, as a mark for each line of the document. -/
def SectionRule.marks (rule : SectionRule) (lines : List Text) : List Bool :=
  (Runs.trace rule.next .before lines).map Place.isInside

/-- A line of the section that is part of its text. -/
def SectionRule.Keeps (rule : SectionRule) (place : Place) (line : Text) : Prop :=
  (rule.next place line).isInside = true ∧ rule.heads line = false ∧
    (place = .inside true ∨ line ≠ [])

instance (rule : SectionRule) (place : Place) (line : Text) : Decidable (rule.Keeps place line) :=
  inferInstanceAs (Decidable (_ ∧ _ ∧ (_ ∨ _)))

/-- The text of the section, line by line. -/
def SectionRule.collected (rule : SectionRule) : Place → List Text → List Text
  | _, [] => []
  | place, line :: rest =>
    if rule.Keeps place line then line :: rule.collected (rule.next place line) rest
    else rule.collected (rule.next place line) rest

/-- The loop of `extract_section_by_type`. -/
def sectionRule (sectionType : SectionType) : SectionRule where
  heads := opens U sectionType
  ends := fun line => isBoundary line
  fences := true

/-- The loop of `extract_list_section_by_type`. -/
def listRule (sectionType : SectionType) : SectionRule where
  heads := opens U sectionType
  ends := fun line => startsWith line "## "
  fences := false

/-- The loop of `extract_metadata`. -/
def metadataRule : SectionRule where
  heads := fun line => line = "## Handoff Metadata".toList
  ends := fun line => startsWith line "## "
  fences := false

/-- The sections of a document, in the order in which they are read. -/
def sectionRules : List SectionRule :=
  [metadataRule, sectionRule U .problem, listRule U .whatExists, sectionRule U .whatNeedsDoing,
    sectionRule U .completionProtocol, sectionRule U .context]

@[simp] theorem SectionRule.collected_after (rule : SectionRule) (lines : List Text) :
    rule.collected .after lines = [] := by
  induction lines with
  | nil => rfl
  | cons line rest ih =>
    have hkeeps : ¬ rule.Keeps .after line := fun h => Bool.false_ne_true h.1
    rw [SectionRule.collected, if_neg hkeeps]
    exact ih

theorem ne_nil_of_fence {line : Text} (h : startsWith line "```") : line ≠ [] := by
  rintro rfl
  exact absurd h (by decide)

theorem SectionRule.collected_before (rule : SectionRule) (line : Text) (rest : List Text) :
    rule.collected .before (line :: rest) =
      if rule.heads line then rule.collected (.inside false) rest
      else rule.collected .before rest := by
  rw [SectionRule.collected]
  by_cases hhead : rule.heads line = true
  · have hkeeps : ¬ rule.Keeps .before line := fun h => Bool.false_ne_true (h.2.1.symm.trans hhead)
    rw [if_neg hkeeps, SectionRule.next, if_pos hhead, if_pos hhead]
  · have hnext : rule.next .before line = .before := if_neg hhead
    have hkeeps : ¬ rule.Keeps .before line := by
      rintro ⟨hinside, -⟩
      rw [hnext] at hinside
      exact Bool.false_ne_true hinside
    rw [if_neg hkeeps, hnext, if_neg hhead]

/-- Inside a section, a line is read as the loop reads it. -/
theorem SectionRule.collected_inside (rule : SectionRule) (inCodeBlock : Bool) (line : Text)
    (rest : List Text) : rule.collected (.inside inCodeBlock) (line :: rest) =
      if rule.heads line then rule.collected (.inside inCodeBlock) rest
      else if ¬ inCodeBlock ∧ rule.ends line then []
      else if rule.fences ∧ startsWith line "```" then
        line :: rule.collected (.inside !inCodeBlock) rest
      else if inCodeBlock ∨ line ≠ [] then line :: rule.collected (.inside inCodeBlock) rest
      else rule.collected (.inside inCodeBlock) rest := by
  rw [SectionRule.collected]
  by_cases hhead : rule.heads line = true
  · have hkeeps : ¬ rule.Keeps (.inside inCodeBlock) line :=
      fun h => Bool.false_ne_true (h.2.1.symm.trans hhead)
    rw [if_neg hkeeps, SectionRule.next, if_pos hhead, if_pos hhead]
  have hfalse : rule.heads line = false := Bool.eq_false_iff.mpr hhead
  by_cases hends : ¬ inCodeBlock = true ∧ rule.ends line = true
  · have hnext : rule.next (.inside inCodeBlock) line = .after := by
      rw [SectionRule.next, if_neg hhead, if_pos hends]
    have hkeeps : ¬ rule.Keeps (.inside inCodeBlock) line := by
      rintro ⟨hinside, -⟩
      rw [hnext] at hinside
      exact Bool.false_ne_true hinside
    rw [if_neg hkeeps, hnext, SectionRule.collected_after, if_neg hhead, if_pos hends]
  by_cases hfence : rule.fences = true ∧ startsWith line "```"
  · have hnext : rule.next (.inside inCodeBlock) line = .inside !inCodeBlock := by
      rw [SectionRule.next, if_neg hhead, if_neg hends, if_pos hfence]
    have hkeeps : rule.Keeps (.inside inCodeBlock) line :=
      ⟨by rw [hnext]; rfl, hfalse, .inr (ne_nil_of_fence hfence.2)⟩
    rw [if_pos hkeeps, hnext, if_neg hhead, if_neg hends, if_pos hfence]
  · have hnext : rule.next (.inside inCodeBlock) line = .inside inCodeBlock := by
      rw [SectionRule.next, if_neg hhead, if_neg hends, if_neg hfence]
    have hkeeps : rule.Keeps (.inside inCodeBlock) line ↔ inCodeBlock = true ∨ line ≠ [] := by
      have hinside : (Place.inside inCodeBlock).isInside = true := rfl
      rw [SectionRule.Keeps, hnext, and_iff_right hinside, and_iff_right hfalse, Place.inside.injEq]
    rw [hnext, if_neg hhead, if_neg hends, if_neg hfence]
    simp only [hkeeps]

theorem sectionRule_ends (sectionType : SectionType) (line : Text) :
    (sectionRule U sectionType).ends line = true ↔ isBoundary line :=
  decide_eq_true_iff

/-- What `extract_section_by_type` collects. -/
theorem sectionLines_eq (sectionType : SectionType) (lines : List Text) :
    (∀ inCodeBlock, sectionLines (opens U sectionType) lines true inCodeBlock =
      (sectionRule U sectionType).collected (.inside inCodeBlock) lines) ∧
    sectionLines (opens U sectionType) lines false false =
      (sectionRule U sectionType).collected .before lines := by
  have hheads : (sectionRule U sectionType).heads = opens U sectionType := rfl
  have hfences : (sectionRule U sectionType).fences = true := rfl
  induction lines with
  | nil => exact ⟨fun _ => rfl, rfl⟩
  | cons line rest ih =>
    obtain ⟨hinside, hbefore⟩ := ih
    constructor
    · intro inCodeBlock
      rw [sectionLines, SectionRule.collected_inside, hinside, hinside, hheads, hfences]
      simp only [sectionRule_ends, if_true, true_and]
    · rw [sectionLines, SectionRule.collected_before, hinside, hbefore, hheads]
      rfl

theorem metadataRule_heads (line : Text) :
    metadataRule.heads line = true ↔ line = "## Handoff Metadata".toList :=
  decide_eq_true_iff

theorem metadataRule_ends (line : Text) :
    metadataRule.ends line = true ↔ startsWith line "## " :=
  decide_eq_true_iff

/-- What `extract_metadata` collects. -/
theorem metadataLines_eq (lines : List Text) :
    metadataLines lines true = metadataRule.collected (.inside false) lines ∧
      metadataLines lines false = metadataRule.collected .before lines := by
  have hfences : metadataRule.fences = false := rfl
  induction lines with
  | nil => exact ⟨rfl, rfl⟩
  | cons line rest ih =>
    obtain ⟨hinside, hbefore⟩ := ih
    constructor
    · rw [metadataLines, SectionRule.collected_inside, hinside, hfences]
      simp only [metadataRule_heads, metadataRule_ends, if_true, Bool.false_eq_true, false_and,
        if_false, not_false_eq_true, true_and, false_or]
    · rw [metadataLines, SectionRule.collected_before, hinside, hbefore]
      simp only [metadataRule_heads, Bool.false_eq_true, if_false]

/-- The items of the lines of a list. -/
def listItems : List Text → Option (List Text)
  | [] => some []
  | line :: rest =>
    match stripPrefix line "- **" with
    | none => listItems rest
    | some item => do
      let item ← listItem item
      let items ← listItems rest
      return item.toList ++ items

theorem listRule_ends (sectionType : SectionType) (line : Text) :
    (listRule U sectionType).ends line = true ↔ startsWith line "## " :=
  decide_eq_true_iff

/-- What `extract_list_section_by_type` collects. -/
theorem collectList_eq {sectionType : SectionType} {aliases : AliasMap}
    (haliases : ∀ line sectionType,
      matchesSection U line sectionType aliases = some (opens U sectionType line))
    (lines result : List Text) :
    collectList U sectionType aliases lines true result =
        (listItems ((listRule U sectionType).collected (.inside false) lines)).map (result ++ ·) ∧
      collectList U sectionType aliases lines false result =
        (listItems ((listRule U sectionType).collected .before lines)).map (result ++ ·) := by
  have hheads : (listRule U sectionType).heads = opens U sectionType := rfl
  have hfences : (listRule U sectionType).fences = false := rfl
  induction lines generalizing result with
  | nil => simp [collectList, SectionRule.collected, listItems]
  | cons line rest ih =>
    have hinside (result : List Text) := (ih result).1
    have hbefore (result : List Text) := (ih result).2
    constructor
    · rw [SectionRule.collected_inside, collectList, haliases, hheads, hfences]
      simp only [listRule_ends, Option.bind_eq_bind, Option.bind_some, hinside, if_true,
        Bool.false_eq_true, false_and, if_false, not_false_eq_true, true_and, false_or]
      have hempty (rest : List Text) : listItems (if line ≠ [] then line :: rest else rest) =
          listItems (line :: rest) := by
        split_ifs with hnil
        · rfl
        · rw [not_not.mp hnil]
          rfl
      by_cases hhead : opens U sectionType line = true
      · rw [if_pos hhead, if_pos hhead]
      by_cases hend : startsWith line "## "
      · rw [if_neg hhead, if_neg hhead, if_pos hend, if_pos hend]
        exact congrArg some (List.append_nil result).symm
      · rw [if_neg hhead, if_neg hhead, if_neg hend, if_neg hend, hempty, listItems]
        cases stripPrefix line "- **" with
        | none => rfl
        | some item =>
          dsimp only
          cases listItem item with
          | none => rfl
          | some item =>
            cases listItems ((listRule U sectionType).collected (.inside false) rest) with
            | none => rfl
            | some items => simp
    · rw [SectionRule.collected_before, collectList, haliases, hheads]
      simp only [Option.bind_eq_bind, Option.bind_some, hinside, hbefore, Bool.false_eq_true,
        if_false]
      split_ifs
      · rfl
      · rfl

theorem SectionRule.next_inside (rule : SectionRule) {line : Text} (hline : ¬ startsWith line "```")
    (inCodeBlock : Bool) : rule.next (.inside inCodeBlock) line = .inside inCodeBlock ∨
      rule.next (.inside inCodeBlock) line = .after := by
  rw [SectionRule.next]
  split_ifs with hhead hend hfence
  · exact .inl rfl
  · exact .inr rfl
  · exact absurd hfence.2 hline
  · exact .inl rfl

/-- A line that is no fence leads to the place that its mark tells. -/
theorem SectionRule.next_eq_of_isInside {rule : SectionRule} {line line' : Text}
    (hline : ¬ startsWith line "```") (hline' : ¬ startsWith line' "```") {place : Place}
    (h : (rule.next place line').isInside = (rule.next place line).isInside) :
    rule.next place line' = rule.next place line := by
  cases place with
  | before =>
    rw [SectionRule.next, SectionRule.next] at h ⊢
    split_ifs at h ⊢
    · rfl
    · cases h
    · cases h
    · rfl
  | inside inCodeBlock =>
    rcases rule.next_inside hline inCodeBlock with hnext | hnext
    · rcases rule.next_inside hline' inCodeBlock with hnext' | hnext'
      · rw [hnext, hnext']
      · rw [hnext, hnext'] at h
        cases h
    · rcases rule.next_inside hline' inCodeBlock with hnext' | hnext'
      · rw [hnext, hnext'] at h
        cases h
      · rw [hnext, hnext']
  | after => rfl

/-- A replaced line leaves the lines of a section when both lines lead to the same place. -/
theorem SectionRule.marks_replace_iff {rule : SectionRule} {pre post : List Text}
    {line line' : Text} (hline : ¬ startsWith line "```") (hline' : ¬ startsWith line' "```") :
    rule.marks (pre ++ line' :: post) = rule.marks (pre ++ line :: post) ↔
      rule.next (Runs.run rule.next .before pre) line' =
        rule.next (Runs.run rule.next .before pre) line :=
  Runs.map_trace_replace_iff (SectionRule.next_eq_of_isInside hline hline')

/-! ## Documents -/

/-- The text of a title line. -/
def titleText (line : Text) : Option Text := (stripPrefix line "# ").map trim

theorem extractTitle_eq_ok_iff {lines : List Text} {title : Text} :
    extractTitle lines = .ok title ↔ lines.findSome? titleText = some title := by
  induction lines with
  | nil => exact iff_of_false nofun nofun
  | cons line rest ih =>
    rw [extractTitle, List.findSome?_cons, titleText]
    cases stripPrefix line "# " with
    | none => exact ih
    | some text => simp

theorem isSome_titleText {line : Text} :
    (titleText line).isSome = true ↔ startsWith line "# " := by
  unfold titleText stripPrefix
  split_ifs with h
  · exact iff_of_true rfl h
  · exact iff_of_false Bool.false_ne_true h

theorem isSome_findSome?_titleText (lines : List Text) :
    (lines.findSome? titleText).isSome = true ↔ ∃ l ∈ lines, startsWith l "# " := by
  rw [List.findSome?_isSome_iff]
  exact exists_congr fun l => and_congr_right fun _ => isSome_titleText

/-- A replaced line leaves the title when the title stands before it, or when both lines are followed
by the same title. -/
theorem title_replace_iff {pre post : List Text} {line line' : Text} :
    (pre ++ line' :: post).findSome? titleText = (pre ++ line :: post).findSome? titleText ↔
      (∃ l ∈ pre, startsWith l "# ") ∨
        (line' :: post).findSome? titleText = (line :: post).findSome? titleText := by
  rw [← isSome_findSome?_titleText, List.findSome?_append, List.findSome?_append]
  cases pre.findSome? titleText with
  | none => exact (or_iff_right Bool.false_ne_true).symm
  | some title => exact iff_of_true rfl (.inl rfl)

/-- What a parsed document was read from. -/
theorem parseHandoff_read {content : Text} {h : ParsedHandoff}
    (hparse : parseHandoff U content = some (.ok h)) :
    HasRequiredSections U (lines content) ∧ (lines content).findSome? titleText = some h.title ∧
      readSteps (lines content) = some h.steps ∧ h.steps ≠ [] := by
  obtain ⟨hsections, hsteps, hne⟩ := (parseHandoff_ok_iff U).mp ⟨h, hparse, rfl⟩
  refine ⟨hsections, ?_, hsteps, hne⟩
  obtain ⟨title, metadata, state, htitle, -, hrun⟩ := parseHandoff_required U hsections
  rw [hrun] at hparse
  obtain ⟨steps, -, hok⟩ := Option.map_eq_some_iff.mp hparse
  cases steps with
  | error e => cases hok
  | ok steps =>
    cases hok
    exact extractTitle_eq_ok_iff.mp htitle

theorem hasRequiredSections_iff (lines : List Text) :
    HasRequiredSections U lines ↔ (lines.findSome? titleText).isSome = true ∧
      ∀ sectionType ∈ [SectionType.problem, .whatNeedsDoing],
        ∃ l ∈ (sectionRule U sectionType).collected .before lines, ¬ Blank l := by
  have htitle := (isSome_findSome?_titleText lines).symm
  have htext (sectionType : SectionType) : sectionText U sectionType lines ≠ [] ↔
      ∃ l ∈ (sectionRule U sectionType).collected .before lines, ¬ Blank l := by
    rw [sectionText_ne_nil_iff, (sectionLines_eq U sectionType lines).2]
  rw [HasRequiredSections, htitle, htext, htext]
  simp only [List.mem_cons, List.not_mem_nil, or_false, forall_eq_or_imp, forall_eq]

/-- The documents have the same title, the same steps in the same lines, and the same sections in
the same lines. -/
structure SameOutline (content content' : Text) (h h' : ParsedHandoff) : Prop where
  title : h'.title = h.title
  headings : h'.steps.map (fun step => (step.number, step.title)) =
    h.steps.map fun step => (step.number, step.title)
  steps : stepSpans (lines content') = stepSpans (lines content)
  sections : ∀ rule ∈ sectionRules U, rule.marks (lines content') = rule.marks (lines content)

/-- The line `line` stands inside a fenced code block. -/
structure InFence (pre : List Text) (line : Text) (post : List Text) : Prop where
  opened : (pre.countP fun l => startsWith l "```") % 2 = 1
  inside : ¬ startsWith line "```"
  closed : ∃ l ∈ post, startsWith l "```"

/-- The parser reads `line'` like `line` after the lines `pre`. -/
structure ReadsAlike (pre : List Text) (line line' : Text) (post : List Text) : Prop where
  title : (∃ l ∈ pre, startsWith l "# ") ∨
    (line' :: post).findSome? titleText = (line :: post).findSome? titleText
  heading : stepHeading line' = stepHeading line
  step : nextMode (Runs.run nextMode none pre) line' = nextMode (Runs.run nextMode none pre) line
  sections : ∀ rule ∈ sectionRules U, rule.next (Runs.run rule.next .before pre) line' =
    rule.next (Runs.run rule.next .before pre) line
  readable : Readable (Runs.run nextMode none pre) line'
  text : ∀ sectionType ∈ [SectionType.problem, .whatNeedsDoing],
    ∃ l ∈ (sectionRule U sectionType).collected .before (pre ++ line' :: post), ¬ Blank l

/-- **Fenced lines.** A line inside a fenced code block of a document that is accepted can be
replaced without changing the outline if and only if both lines are read alike. -/
theorem fencedLine_iff {content content' : Text} {pre post : List Text} {line line' : Text}
    (hcontent : lines content = pre ++ line :: post)
    (hcontent' : lines content' = pre ++ line' :: post) (hfence : InFence pre line post)
    (hline' : ¬ startsWith line' "```") {h : ParsedHandoff}
    (hparse : parseHandoff U content = some (.ok h)) :
    (∃ h', parseHandoff U content' = some (.ok h') ∧ SameOutline U content content' h h') ↔
      ReadsAlike U pre line line' post := by
  obtain ⟨-, htitle, hsteps, hne⟩ := parseHandoff_read U hparse
  have hmeets : Runs.Meets nextMode Readable none (pre ++ line :: post) := by
    rw [← readSteps_ne_none_iff_meets, ← hcontent, hsteps]
    exact Option.some_ne_none _
  constructor
  · rintro ⟨h', hparse', hsame⟩
    obtain ⟨hsections', htitle', hsteps', -⟩ := parseHandoff_read U hparse'
    have hmeets' : Runs.Meets nextMode Readable none (pre ++ line' :: post) := by
      rw [← readSteps_ne_none_iff_meets, ← hcontent', hsteps']
      exact Option.some_ne_none _
    have hspans := hsame.steps
    rw [hcontent, hcontent'] at hspans
    obtain ⟨hheading, hstep⟩ := stepSpans_replace_iff.mp hspans
    refine ⟨?_, hheading, hstep, fun rule hrule => ?_, ?_, ?_⟩
    · rw [← title_replace_iff, ← hcontent, ← hcontent', htitle, htitle', hsame.title]
    · have hmarks := hsame.sections rule hrule
      rw [hcontent, hcontent'] at hmarks
      exact (SectionRule.marks_replace_iff hfence.inside hline').mp hmarks
    · exact (Runs.meets_replace_iff hstep hmeets).mp hmeets'
    · rw [hcontent'] at hsections'
      exact ((hasRequiredSections_iff U _).mp hsections').2
  · rintro ⟨halike, hheading, hstep, hrules, hreadable, htext⟩
    have hspans : stepSpans (lines content') = stepSpans (lines content) := by
      rw [hcontent, hcontent']
      exact stepSpans_replace_iff.mpr ⟨hheading, hstep⟩
    have hfirst : (lines content').findSome? titleText = some h.title := by
      rw [← htitle, hcontent, hcontent']
      exact title_replace_iff.mpr halike
    have hsections' : HasRequiredSections U (lines content') := by
      rw [hasRequiredSections_iff, hfirst, hcontent']
      exact ⟨rfl, htext⟩
    have hmeets' : Runs.Meets nextMode Readable none (lines content') := by
      rw [hcontent']
      exact (Runs.meets_replace_iff hstep hmeets).mpr hreadable
    obtain ⟨steps, hread⟩ :=
      Option.ne_none_iff_exists'.mp ((readSteps_ne_none_iff_meets _).mpr hmeets')
    have hheadings : steps.map (fun step => (step.number, step.title)) =
        h.steps.map fun step => (step.number, step.title) := by
      rw [readSteps_headings 0 hread, readSteps_headings 0 hsteps, ← stepSpans_eq, ← stepSpans_eq,
        hspans]
    have hne' : steps ≠ [] := by
      rintro rfl
      exact hne (List.map_eq_nil_iff.mp hheadings.symm)
    obtain ⟨h', hparse', rfl⟩ := (parseHandoff_ok_iff U).mpr ⟨hsections', hread, hne'⟩
    have htitle' := (parseHandoff_read U hparse').2.1
    refine ⟨h', hparse', Option.some.inj (htitle'.symm.trans hfirst), hheadings, hspans,
      fun rule hrule => ?_⟩
    rw [hcontent, hcontent']
    exact (SectionRule.marks_replace_iff hfence.inside hline').mpr (hrules rule hrule)

/-- A document with a step that has a line in a code block. -/
def fencedDocument (line : String) : Text :=
  ("# T\n## Problem\np\n## What needs doing\nd\n### Step 1: a\n```\n" ++ line ++ "\n```\n").toList

def linesBeforeCode : List Text :=
  ["# T".toList, "## Problem".toList, "p".toList, "## What needs doing".toList, "d".toList,
    "### Step 1: a".toList, "```".toList]

theorem inFence_fencedDocument : InFence linesBeforeCode "x".toList ["```".toList] where
  opened := by decide
  inside := by decide
  closed := ⟨_, List.mem_cons_self, by decide⟩

theorem lines_fencedDocument :
    lines (fencedDocument "x") = linesBeforeCode ++ "x".toList :: ["```".toList] := by decide +kernel

theorem parseHandoff_fencedDocument : ∃ h,
    parseHandoff .asciiTables (fencedDocument "x") = some (.ok h) ∧ h.steps.length = 1 :=
  ok_of_reads (by decide +kernel)

/-- A line of code is replaced by another one. -/
theorem fencedLine_iff_text : ∃ h h',
    parseHandoff .asciiTables (fencedDocument "x") = some (.ok h) ∧
    parseHandoff .asciiTables (fencedDocument "y") = some (.ok h') ∧
    SameOutline .asciiTables (fencedDocument "x") (fencedDocument "y") h h' := by
  obtain ⟨h, hparse, -⟩ := parseHandoff_fencedDocument
  have hcontent' : lines (fencedDocument "y") = linesBeforeCode ++ "y".toList :: ["```".toList] := by
    decide +kernel
  have hmode : Runs.run nextMode none linesBeforeCode = some .description := by decide +kernel
  have halike : ReadsAlike .asciiTables linesBeforeCode "x".toList "y".toList ["```".toList] := by
    refine ⟨.inl ⟨_, List.mem_cons_self, by decide⟩, by decide +kernel, by decide +kernel,
      by decide +kernel, ?_, by decide +kernel⟩
    rw [hmode]
    rintro _ ⟨⟩ - hnot
    exact hnot
  obtain ⟨h', hparse', hsame⟩ := (fencedLine_iff .asciiTables lines_fencedDocument hcontent'
    inFence_fencedDocument (by decide) hparse).mpr halike
  exact ⟨h, h', hparse, hparse', hsame⟩

/-- A line of code that looks like a step heading is one. -/
theorem fencedLine_opens_step :
    ¬ ∀ (content content' : Text) (pre post : List Text) (line line' : Text) (h : ParsedHandoff),
      lines content = pre ++ line :: post → lines content' = pre ++ line' :: post →
      InFence pre line post → ¬ startsWith line' "```" →
      parseHandoff .asciiTables content = some (.ok h) →
      ∃ h', parseHandoff .asciiTables content' = some (.ok h') ∧
        SameOutline .asciiTables content content' h h' := by
  intro hclaim
  obtain ⟨h, hparse, -⟩ := parseHandoff_fencedDocument
  have hcontent' : lines (fencedDocument "### Step 2: b") =
      linesBeforeCode ++ "### Step 2: b".toList :: ["```".toList] := by
    decide +kernel
  obtain ⟨h', -, hsame⟩ := hclaim _ _ _ _ _ _ h lines_fencedDocument hcontent'
    inFence_fencedDocument (by decide) hparse
  have hspans : stepSpans (lines (fencedDocument "### Step 2: b")) ≠
      stepSpans (lines (fencedDocument "x")) := by
    decide +kernel
  exact hspans hsame.steps

end Hymenium
