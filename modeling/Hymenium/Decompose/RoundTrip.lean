import Hymenium.Decompose.Layout

/-!
# Child handoffs and the parser

What the parser reads in a rendered piece. The writer and the parser share the headings of steps
and the checklists, and no other marker: files and commands are read again, and the required
section `What needs doing` is found, only where the text of a step supplies the marker.

1. `reread_eq_iff`: a step is read with the same contents exactly when it `Survives`.
2. `fills_iff`: the required section is found exactly when some step `Intends` it.
3. `roundTrips_iff`: both together are what a piece needs to be parsed to its own steps.
-/

namespace Hymenium

open Text

variable (U : Unicode)

/-! ## Steps read again -/

theorem unmarked_bullet (t : Text) : Unmarked ('-' :: ' ' :: t) := by
  refine ⟨?_, markerMode_eq_none_iff.mpr ?_⟩ <;> simp [isBoundary, startsWith]

theorem unmarked_middleLines {step : ParsedStep} (h : step.Tidy) :
    ∀ l ∈ middleLines step, Unmarked l := by
  refine List.forall_mem_append.mpr ⟨?_, ?_⟩
  · exact forall_mem_fileLines (by decide) (by decide) (fun t => unmarked_bullet _) _
  · refine forall_mem_verificationLines (by decide) (by decide) fun l hl => ?_
    obtain ⟨cmd, hcmd, hl⟩ := List.mem_flatMap.mp hl
    exact h.commandLines cmd hcmd l hl

/-- What is read of a written item: a text that holds the mark of a checked item checks it. -/
def ChecklistItem.reread (item : ChecklistItem) : ChecklistItem :=
  { item with checked := item.checked ∨ contains item.text "[x]" ∨ contains item.text "[X]" }

theorem ChecklistItem.reread_eq_self_iff {item : ChecklistItem} : item.reread = item ↔
    (item.checked = false → ¬ contains item.text "[x]" ∧ ¬ contains item.text "[X]") := by
  obtain ⟨text, checked⟩ := item
  cases checked with
  | true => simp [ChecklistItem.reread]
  | false => simp [ChecklistItem.reread]

/-- The text of an item is read as it was written. -/
theorem checklistItem_itemLine {item : ChecklistItem} (h : item.SingleLine) :
    checklistItem (itemLine item) = some item.reread := by
  have htrim : trim (trimStartMatches ']' (']' :: ' ' :: item.text)) = item.text := by
    rw [show trimStartMatches ']' (']' :: ' ' :: item.text) = ' ' :: item.text from rfl,
      trim_cons_of_isWhitespace _ (by decide), h.trimmed]
  cases hchecked : item.checked with
  | true =>
    have hline : itemLine item = "- [x".toList ++ ']' :: ' ' :: item.text := by
      simp [itemLine, hchecked]
    have hslice : sliceFrom (itemLine item) 4 = some (']' :: ' ' :: item.text) :=
      hline ▸ sliceFrom_byteLen "- [x".toList _
    have hcontains : contains (itemLine item) "[x]" :=
      hline ▸ ⟨"- ".toList, ' ' :: item.text, rfl⟩
    rw [checklistItem, hslice, Option.map_some, htrim, ChecklistItem.reread]
    simp [hcontains, hchecked]
  | false =>
    have hline : itemLine item = "- [ ".toList ++ ']' :: ' ' :: item.text := by
      simp [itemLine, hchecked]
    have hslice : sliceFrom (itemLine item) 4 = some (']' :: ' ' :: item.text) :=
      hline ▸ sliceFrom_byteLen "- [ ".toList _
    have hx : contains (itemLine item) "[x]" ↔ contains item.text "[x]" := by
      rw [hline]
      simp [contains, List.infix_cons_iff]
    have hX : contains (itemLine item) "[X]" ↔ contains item.text "[X]" := by
      rw [hline]
      simp [contains, List.infix_cons_iff]
    rw [checklistItem, hslice, Option.map_some, htrim, ChecklistItem.reread]
    simp [hx, hX, hchecked]

theorem readChecklist_itemLines {checklist : List ChecklistItem}
    (h : ∀ item ∈ checklist, item.SingleLine) :
    readChecklist ([] :: (checklist.map itemLine ++ [[]])) =
      some (checklist.map ChecklistItem.reread) := by
  rw [readChecklist, if_neg (by decide)]
  induction checklist with
  | nil => decide
  | cons item rest ih =>
    have hstart : startsWith (itemLine item) "- [" := by
      unfold itemLine
      rw [List.append_assoc, List.append_assoc]
      exact List.prefix_append _ _
    rw [List.map_cons, List.cons_append, readChecklist, if_pos hstart,
      checklistItem_itemLine (h item List.mem_cons_self),
      ih fun i hi => h i (List.mem_cons_of_mem _ hi)]
    rfl

/-- What is read of a written checklist is added to what has been read. -/
theorem scanStep_checklistLines {checklist : List ChecklistItem}
    (h : ∀ item ∈ checklist, item.SingleLine) (s : StepScan) :
    (scanStep (checklistLines checklist) s).map StepScan.reading =
      some { s.reading with
        checklist := s.reading.checklist ++ checklist.map ChecklistItem.reread } := by
  unfold checklistLines
  split_ifs with hnil
  · rw [hnil, List.map_nil, List.append_nil]
    rfl
  · have hunmarked : ∀ l ∈ [] :: (checklist.map itemLine ++ [[]]), Unmarked l := by
      intro l hl
      simp only [List.mem_cons, List.mem_append, List.mem_map, List.not_mem_nil, or_false] at hl
      rcases hl with rfl | ⟨item, -, rfl⟩ | rfl
      · decide
      · simp only [itemLine, List.append_assoc]
        exact unmarked_bullet _
      · decide
    have hmarker : markerMode "**Checklist:**".toList = some .checklist := by decide
    rw [scanStep_marker hmarker (by decide), scanStep_checklist hunmarked rfl,
      readChecklist_itemLines h]
    rfl

theorem map_reread_eq_self_iff {checklist : List ChecklistItem} :
    checklist.map ChecklistItem.reread = checklist ↔ ∀ item ∈ checklist,
      item.checked = false → ¬ contains item.text "[x]" ∧ ¬ contains item.text "[X]" := by
  induction checklist with
  | nil => exact iff_of_true rfl fun _ hmem => by cases hmem
  | cons item rest ih =>
    rw [List.map_cons, List.cons.injEq, List.forall_mem_cons, ih,
      ChecklistItem.reread_eq_self_iff]

/-- A tidy checklist is added as it was written. -/
theorem scanStep_checklistLines_tidy {checklist : List ChecklistItem}
    (h : ∀ item ∈ checklist, item.Tidy) (s : StepScan) :
    (scanStep (checklistLines checklist) s).map StepScan.reading =
      some { s.reading with checklist := s.reading.checklist ++ checklist } := by
  rw [scanStep_checklistLines fun item hitem => (h item hitem).singleLine,
    map_reread_eq_self_iff.mpr fun item hitem => (h item hitem).unchecked]

/-- **Checklists.** Written items are read back as they were if and only if no text of an unchecked
one holds the mark of a checked one. -/
theorem checklist_reread_iff {checklist : List ChecklistItem}
    (h : ∀ item ∈ checklist, item.SingleLine) (s : StepScan) :
    (scanStep (lines (renderChecklist checklist)) s).map StepScan.checklist =
        some (s.checklist ++ checklist) ↔
      ∀ item ∈ checklist,
        item.checked = false → ¬ contains item.text "[x]" ∧ ¬ contains item.text "[X]" := by
  have hread := congrArg (Option.map Reading.checklist) (scanStep_checklistLines h s)
  rw [Option.map_map] at hread
  rw [(lines_renderChecklist h).1, ← map_reread_eq_self_iff]
  change (scanStep (checklistLines checklist) s).map StepScan.checklist =
    some (s.checklist ++ checklist.map ChecklistItem.reread) at hread
  rw [hread, Option.some.injEq, List.append_cancel_left_eq]

/-- Two items that are read back. -/
theorem checklist_reread_iff_two :
    (scanStep (lines (renderChecklist [⟨"run [y] tests".toList, false⟩, ⟨"]".toList, true⟩])) {}).map
      StepScan.checklist = some [⟨"run [y] tests".toList, false⟩, ⟨"]".toList, true⟩] := by
  refine (checklist_reread_iff (fun item hitem => ?_) {}).mpr (by decide)
  rcases List.mem_cons.mp hitem with rfl | hitem
  · exact ⟨by decide, by decide⟩
  · rw [List.mem_singleton.mp hitem]
    exact ⟨by decide, by decide⟩

/-- A text with the mark of a checked item checks it. -/
theorem checklist_text_checks : ¬ ∀ checklist : List ChecklistItem,
    (∀ item ∈ checklist, item.SingleLine) →
    (scanStep (lines (renderChecklist checklist)) {}).map StepScan.checklist = some checklist := by
  intro hclaim
  have hread := hclaim [⟨"replace [x] by [y]".toList, false⟩] fun item hitem => by
    rw [List.mem_singleton.mp hitem]
    exact ⟨by decide, by decide⟩
  exact absurd hread (by decide +kernel)

/-- What a step must keep when it is written and read again. -/
structure StepContents where
  number : UInt32
  title : Text
  files : List FileModification
  commands : List Text
  checklist : List ChecklistItem
  deriving DecidableEq

def ParsedStep.contents (s : ParsedStep) : StepContents where
  number := s.number
  title := s.title
  files := s.filesToModify
  commands := s.commands
  checklist := s.checklist

def Reading.contents (r : Reading) (number : UInt32) (title : Text) : StepContents where
  number := number
  title := title
  files := r.files
  commands := (parseVerificationBlock r.fenced).commands
  checklist := r.checklist

theorem contents_parseStep (number : UInt32) (title line : Text) (lines : List Text) :
    (parseStep number title (line :: lines)).map ParsedStep.contents =
      ((scanStep lines {}).map StepScan.reading).map fun r => r.contents number title := by
  rw [parseStep, Option.map_map, Option.map_map, List.tail_cons]
  refine Option.map_congr fun s _ => ?_
  by_cases h : s.verifyLines = []
  · simp only [Function.comp_apply, ParsedStep.contents, StepScan.step, ParsedStep.commands,
      Reading.contents, StepScan.reading, h]
    rfl
  · simp only [Function.comp_apply, ParsedStep.contents, StepScan.step, ParsedStep.commands,
      Reading.contents, StepScan.reading, h]
    rfl

/-- The step that is read where a step was written. -/
def reread (step : ParsedStep) : Option ParsedStep :=
  parseStep step.number step.title (headingLine step :: stepBody (stepLines step).tail)

/-- The lines of a step after the first of its description, up to the checklist, with the mode in
which they are read. -/
def laterLines (step : ParsedStep) : Mode × List Text :=
  match lines step.description with
  | [] => (.description, middleLines step)
  | first :: rest => ((markerMode first).getD .description, rest ++ [] :: middleLines step)

theorem stepLines_cases (step : ParsedStep) :
    lines step.description = [] ∧ stepLines step = headingLine step :: [] ::
        (middleLines step ++ checklistLines step.checklist) ∨
      ∃ first rest, lines step.description = first :: rest ∧ stepLines step =
        headingLine step :: [] :: first ::
          (rest ++ [] :: middleLines step ++ checklistLines step.checklist) := by
  unfold stepLines descriptionLines
  split_ifs with hnil
  · exact .inl ⟨by rw [hnil]; rfl, rfl⟩
  · have hne : lines step.description ≠ [] := mt lines_eq_nil_iff.mp hnil
    obtain ⟨first, rest, hlines⟩ := List.exists_cons_of_ne_nil hne
    exact .inr ⟨first, rest, hlines, by simp [hlines]⟩

theorem not_isBoundary_checklistLines (checklist : List ChecklistItem) :
    ∀ l ∈ checklistLines checklist, ¬ isBoundary l :=
  forall_mem_checklistLines (by decide) (by decide) (fun t => (unmarked_bullet t).1) checklist

/-- A step whose description does not start with a boundary is read to its end. -/
theorem reread_contents {step : ParsedStep} (h : step.Tidy)
    (hfirst : ∀ first ∈ (lines step.description).head?, ¬ isBoundary first) :
    (reread step).map ParsedStep.contents =
      (readIn (laterLines step).1 (laterLines step).2).map fun r =>
        { r with checklist := r.checklist ++ step.checklist }.contents step.number step.title := by
  have hmiddle := unmarked_middleLines h
  have hlist := not_isBoundary_checklistLines step.checklist
  have hread (ls : List Text) (hls : ∀ l ∈ ls, ¬ isBoundary l) :
      (scanStep (ls ++ checklistLines step.checklist) {}).map StepScan.reading =
        ((scanStep ls {}).map StepScan.reading).map fun r =>
          { r with checklist := r.checklist ++ step.checklist } := by
    rw [scanStep_append hls, Option.map_bind, Option.map_map, Option.map_eq_bind]
    exact Option.bind_congr fun s _ => scanStep_checklistLines_tidy h.checklist s
  have hbody {ls : List Text} (hls : ∀ l ∈ ls, ¬ isBoundary l) : stepBody ls = ls :=
    List.takeWhile_eq_self_iff.mpr fun l hl => by simpa using hls l hl
  rw [reread, contents_parseStep]
  obtain ⟨hlines, hstep⟩ | ⟨first, rest, hlines, hstep⟩ := stepLines_cases step
  · have hall : ∀ l ∈ [] :: middleLines step, Unmarked l :=
      List.forall_mem_cons.mpr ⟨by decide, hmiddle⟩
    obtain ⟨s', hrun, -, hreading⟩ := scanStep_quiet hall (s := {}) (.inl rfl)
    rw [hstep, List.tail_cons, ← List.cons_append, hbody, hread, hrun, Option.map_some, hreading,
      laterLines, hlines]
    · rfl
    · exact fun l hl => (hall l hl).1
    · exact List.forall_mem_append.mpr ⟨fun l hl => (hall l hl).1, hlist⟩
  · have hlater : ∀ l ∈ rest ++ [] :: middleLines step, Unmarked l := by
      refine List.forall_mem_append.mpr ⟨fun l hl => ?_, ?_⟩
      · exact h.descriptionLines l (by rw [hlines]; exact hl)
      · exact List.forall_mem_cons.mpr ⟨by decide, hmiddle⟩
    have hopen : ¬ isBoundary first := hfirst first (by simp [hlines])
    have hall : ∀ l ∈ [] :: first :: (rest ++ [] :: middleLines step), ¬ isBoundary l :=
      List.forall_mem_cons.mpr ⟨by decide, List.forall_mem_cons.mpr
        ⟨hopen, fun l hl => (hlater l hl).1⟩⟩
    rw [hstep, List.tail_cons, ← List.cons_append, ← List.cons_append, hbody, hread,
      laterLines, hlines]
    · have hskip : scanStep ([] :: first :: (rest ++ [] :: middleLines step)) {} =
          scanStep (first :: (rest ++ [] :: middleLines step)) {} := rfl
      rw [hskip, scanStep_opening hopen hlater (.inl rfl) rfl, Option.map_map]
      rfl
    · exact hall
    · exact List.forall_mem_append.mpr ⟨hall, hlist⟩

/-- Of a step whose description starts with a boundary, nothing is read. -/
theorem reread_contents_of_boundary {step : ParsedStep} {first : Text} {rest : List Text}
    (hlines : lines step.description = first :: rest) (hfirst : isBoundary first) :
    (reread step).map ParsedStep.contents =
      some (Reading.contents {} step.number step.title) := by
  obtain ⟨hnil, -⟩ | ⟨first', rest', hlines', hstep⟩ := stepLines_cases step
  · rw [hlines] at hnil
    cases hnil
  · rw [hlines] at hlines'
    cases hlines'
    have hbody (ls : List Text) : stepBody ([] :: first :: ls) = [[]] := by
      simp [stepBody, hfirst, show ¬ isBoundary [] by decide]
    rw [reread, contents_parseStep, hstep, List.tail_cons, hbody]
    rfl

/-- The way a description begins leaves the other data of its step as it is.

A description that starts with plain text hides the files and the commands. One that starts with a
boundary hides the checklist too, and with the heading of a step it adds a step. One that starts
with a marker of the parser supplies what the writer leaves out. -/
def Survives (step : ParsedStep) : Prop :=
  match lines step.description with
  | [] => step.filesToModify = [] ∧ step.commands = []
  | first :: rest =>
    if isBoundary first then
      headingNumber first = none ∧ step.filesToModify = [] ∧ step.commands = [] ∧
        step.checklist = []
    else
      match markerMode first with
      | some .files => step.commands = [] ∧ readFiles rest = some step.filesToModify
      | some .verification =>
        step.filesToModify = [] ∧ step.commands = (parseVerificationBlock
          (fencedLines (rest ++ [] :: verificationLines step.verification))).commands
      | some .checklist =>
        step.filesToModify = [] ∧ step.commands = [] ∧ ∀ l ∈ rest, ¬ startsWith l "- ["
      | _ => step.filesToModify = [] ∧ step.commands = []

instance (step : ParsedStep) : Decidable (Survives step) := by
  unfold Survives
  split
  · infer_instance
  · split
    · infer_instance
    · split <;> infer_instance

theorem readFiles_append {a b : List Text} (hb : ∀ l ∈ b, ¬ startsWith l "**`") :
    readFiles (a ++ b) = readFiles a := by
  induction a with
  | nil =>
    induction b with
    | nil => rfl
    | cons l b ih =>
      have hskip : readFiles (l :: b) = readFiles b := if_neg (hb l List.mem_cons_self)
      exact hskip.trans (ih fun l hl => hb l (List.mem_cons_of_mem _ hl))
  | cons l a ih =>
    rw [List.cons_append, readFiles, readFiles, ih]

theorem readChecklist_eq_nil_iff (lines : List Text) :
    readChecklist lines = some [] ↔ ∀ l ∈ lines, ¬ startsWith l "- [" := by
  induction lines with
  | nil => simp [readChecklist]
  | cons l lines ih =>
    rw [readChecklist, List.forall_mem_cons, ← ih]
    split_ifs with h
    · simp only [h, not_true_eq_false, false_and, iff_false]
      intro hread
      simp [Option.bind_eq_some_iff] at hread
    · simp [h]

/-- Without commands, what is written between the description and the checklist is neither a file
nor an item to the parser. -/
theorem middleLines_of_no_commands {step : ParsedStep} (h : step.commands = []) :
    ∀ l ∈ middleLines step, ¬ startsWith l "**`" ∧ ¬ startsWith l "- [" := by
  refine List.forall_mem_append.mpr ⟨?_, ?_⟩
  · exact forall_mem_fileLines (by decide) (by decide) (fun t => by simp [startsWith]) _
  · refine forall_mem_verificationLines (by decide) (by decide) ?_
    rw [h]
    exact fun l hl => (List.not_mem_nil hl).elim

/-- Without commands, the files read are those of the description. -/
theorem readFiles_middle {step : ParsedStep} (h : step.commands = []) (rest : List Text) :
    readFiles (rest ++ [] :: middleLines step) = readFiles rest :=
  readFiles_append (List.forall_mem_cons.mpr
    ⟨by decide, fun l hl => (middleLines_of_no_commands h l hl).1⟩)

/-- Without commands, the items read are those of the description. -/
theorem readChecklist_middle {step : ParsedStep} (h : step.commands = []) (rest : List Text) :
    readChecklist (rest ++ [] :: middleLines step) = some [] ↔
      ∀ l ∈ rest, ¬ startsWith l "- [" := by
  rw [readChecklist_eq_nil_iff, List.forall_mem_append, List.forall_mem_cons]
  exact and_iff_left ⟨by decide, fun l hl => (middleLines_of_no_commands h l hl).2⟩

theorem middleLines_of_no_files {step : ParsedStep} (h : step.filesToModify = []) :
    middleLines step = verificationLines step.verification := by
  simp [middleLines, fileLines, h]

/-- A step is read with the same contents, and without a step in its description, exactly when its
description leaves them as they are. -/
theorem reread_eq_iff {step : ParsedStep} (h : step.Tidy) :
    (reread step).map ParsedStep.contents = some step.contents ∧
        (∀ first ∈ (lines step.description).head?, headingNumber first = none) ↔
      Survives step := by
  have hquiet : (parseVerificationBlock []).commands = [] := rfl
  have hread {mode : Mode} {later : List Text} (hlater : laterLines step = (mode, later))
      (hfirst : ∀ first ∈ (lines step.description).head?, ¬ isBoundary first) :
      (reread step).map ParsedStep.contents = some step.contents ↔ ∃ r, readIn mode later = some r ∧
        step.filesToModify = r.files ∧
        step.commands = (parseVerificationBlock r.fenced).commands ∧ r.checklist = [] := by
    rw [reread_contents h hfirst, hlater, Option.map_eq_some_iff]
    refine exists_congr fun r => and_congr_right fun _ => ?_
    simp [Reading.contents, ParsedStep.contents, eq_comm]
  unfold Survives
  cases hlines : lines step.description with
  | nil =>
    rw [hread (by rw [laterLines, hlines]) (by simp [hlines])]
    simp [readIn, hquiet]
  | cons first rest =>
    dsimp only
    have hhead : (∀ f ∈ (first :: rest).head?, headingNumber f = none) ↔
        headingNumber first = none := by simp
    rw [hhead]
    split_ifs with hfirst
    · rw [reread_contents_of_boundary hlines hfirst, Option.some.injEq]
      simp only [Reading.contents, ParsedStep.contents, StepContents.mk.injEq, true_and, hquiet]
      constructor
      · rintro ⟨⟨hf, hc, hl⟩, hnumber⟩
        exact ⟨hnumber, hf.symm, hc.symm, hl.symm⟩
      · rintro ⟨hnumber, hf, hc, hl⟩
        exact ⟨⟨hf.symm, hc.symm, hl.symm⟩, hnumber⟩
    · have hnumber := headingNumber_eq_none_of_boundary hfirst
      rw [and_iff_left hnumber, hread (by rw [laterLines, hlines])
        (by simpa [hlines] using hfirst)]
      cases hmarker : markerMode first with
      | none => simp [readIn, hquiet]
      | some mode =>
        rw [Option.getD_some]
        cases mode with
        | metadata => simp [readIn, hquiet]
        | description => simp [readIn, hquiet]
        | files =>
          simp only [readIn, Option.map_eq_some_iff, exists_exists_and_eq_and, hquiet, and_true]
          constructor
          · rintro ⟨files, hread, rfl, hc⟩
            exact ⟨hc, readFiles_middle hc rest ▸ hread⟩
          · rintro ⟨hc, hread⟩
            exact ⟨_, (readFiles_middle hc rest).trans hread, rfl, hc⟩
        | checklist =>
          simp only [readIn, Option.map_eq_some_iff, exists_exists_and_eq_and, hquiet]
          constructor
          · rintro ⟨items, hread, hf, hc, rfl⟩
            exact ⟨hf, hc, (readChecklist_middle hc rest).mp hread⟩
          · rintro ⟨hf, hc, hrest⟩
            exact ⟨[], (readChecklist_middle hc rest).mpr hrest, hf, hc, rfl⟩
        | verification =>
          simp only [readIn, Option.some.injEq, exists_eq_left', and_true]
          exact and_congr_right fun hf => by rw [middleLines_of_no_files hf]

/-! ## The steps of the document -/

theorem find_step (rest : Text) : find ("### Step ".toList ++ rest) "Step " = some 4 := by
  change findList ['S', 't', 'e', 'p', ' ']
    ('#' :: '#' :: '#' :: ' ' :: 'S' :: 't' :: 'e' :: 'p' :: ' ' :: rest) = some 4
  have hsharp : ('#' : Char).utf8Size = 1 := rfl
  have hspace : (' ' : Char).utf8Size = 1 := rfl
  simp [findList, hsharp, hspace]

/-- The heading of a step is read as it was written. -/
theorem headingLine_read {step : ParsedStep} (h : step.Tidy) :
    headingNumber (headingLine step) = some step.number ∧
      extractStepTitle (headingLine step) = some step.title := by
  let digits := ofNat step.number.toNat
  have hline : headingLine step = "### Step ".toList ++ (digits ++ ':' :: ' ' :: step.title) := by
    unfold headingLine digits
    simp only [List.append_assoc]
    rfl
  have hstart : startsWith (headingLine step) "### Step " := hline ▸ List.prefix_append _ _
  have hcolon : contains (headingLine step) ":" := by
    rw [hline, ← List.append_assoc]
    exact ⟨"### Step ".toList ++ digits, ' ' :: step.title, by simp⟩
  have htake : (digits ++ ':' :: ' ' :: step.title).takeWhile Char.isDigit = digits := by
    rw [List.takeWhile_append_of_pos fun c hc => isDigit_of_mem_ofNat hc,
      List.takeWhile_cons_of_neg (by decide), List.append_nil]
  constructor
  · have hslice : sliceFrom (headingLine step) (4 + 5) =
        some (digits ++ ':' :: ' ' :: step.title) := hline ▸ sliceFrom_byteLen "### Step ".toList _
    have hfind : find (headingLine step) "Step " = some 4 := hline ▸ find_step _
    rw [headingNumber, if_pos ⟨hstart, hcolon⟩, extractStepNumber, hfind]
    simp only [hslice, Option.map_some, Option.join_some, htake]
    exact parseU32_ofNat step.number
  · have hfind : find (headingLine step) ":" = some (byteLen ("### Step ".toList ++ digits)) := by
      rw [hline, ← List.append_assoc]
      refine findList_singleton_append ?_ _
      rw [List.mem_append, not_or]
      exact ⟨by decide, notMem_ofNat (by decide) _⟩
    have hslice : sliceFrom (headingLine step) (byteLen ("### Step ".toList ++ digits) + 1) =
        some (' ' :: step.title) := by
      rw [hline, ← List.append_assoc, sliceFrom_append]
      rfl
    rw [extractStepTitle, hfind]
    simp only [hslice, Option.map_some]
    rw [trim_cons_of_isWhitespace _ (by decide), h.title.2]

/-- The headings among the lines of a step: its own, and one that its description may start
with. -/
theorem stepLines_headings {step : ParsedStep} (h : step.Tidy) :
    (stepLines step).filterMap headingNumber =
      step.number :: ((lines step.description).head?.bind headingNumber).toList := by
  have hnone {ls : List Text} (hls : ∀ l ∈ ls, ¬ isBoundary l) : ls.filterMap headingNumber = [] :=
    List.filterMap_eq_nil_iff.mpr fun l hl => headingNumber_eq_none_of_boundary (hls l hl)
  have hmiddle : ∀ l ∈ middleLines step, ¬ isBoundary l := fun l hl => (unmarked_middleLines h l hl).1
  have hlist := not_isBoundary_checklistLines step.checklist
  have hnil : headingNumber [] = none := by decide
  obtain ⟨hlines, hstep⟩ | ⟨first, rest, hlines, hstep⟩ := stepLines_cases step
  · rw [hstep, List.filterMap_cons_some (headingLine_read h).1, List.filterMap_cons_none hnil,
      hnone (List.forall_mem_append.mpr ⟨hmiddle, hlist⟩), hlines]
    rfl
  · have hrest : ∀ l ∈ rest, ¬ isBoundary l := fun l hl =>
      (h.descriptionLines l (by rw [hlines]; exact hl)).1
    have hlater : ∀ l ∈ rest ++ [] :: middleLines step ++ checklistLines step.checklist,
        ¬ isBoundary l :=
      List.forall_mem_append.mpr ⟨List.forall_mem_append.mpr
        ⟨hrest, List.forall_mem_cons.mpr ⟨by decide, hmiddle⟩⟩, hlist⟩
    rw [hstep, List.filterMap_cons_some (headingLine_read h).1, List.filterMap_cons_none hnil,
      List.filterMap_cons, hnone hlater, hlines, List.head?_cons, Option.bind_some]
    cases headingNumber first <;> rfl

theorem stepBody_append (a : List Text) {line : Text} (hline : isBoundary line) (rest : List Text) :
    stepBody (a ++ line :: rest) = stepBody a := by
  unfold stepBody
  induction a with
  | nil => simp [hline]
  | cons l a ih =>
    rw [List.cons_append, List.takeWhile_cons, List.takeWhile_cons, ih]

/-- A written step is read, up to the next boundary. -/
theorem readSteps_stepLines {step : ParsedStep} (h : step.Tidy)
    (hfirst : ∀ first ∈ (lines step.description).head?, headingNumber first = none) {line : Text}
    (hline : isBoundary line) (rest : List Text) :
    readSteps (stepLines step ++ line :: rest) = do
      let reread ← reread step
      let steps ← readSteps (line :: rest)
      return reread :: steps := by
  have hheadings : ∀ l ∈ (stepLines step).tail, headingNumber l = none := by
    have hbind : (lines step.description).head?.bind headingNumber = none :=
      Option.bind_eq_none_iff.mpr hfirst
    have hall := stepLines_headings h
    rw [hbind, stepLines, List.filterMap_cons_some (headingLine_read h).1] at hall
    exact List.filterMap_eq_nil_iff.mp (List.cons.inj hall).2
  have hsplit : stepLines step = headingLine step :: (stepLines step).tail := rfl
  rw [hsplit, List.cons_append, readSteps, (headingLine_read h).1, (headingLine_read h).2,
    stepBody_append _ hline, readSteps_append hheadings]
  rfl

theorem isBoundary_headingLine (step : ParsedStep) : isBoundary (headingLine step) := by
  unfold headingLine
  rw [List.append_assoc, List.append_assoc]
  exact .inr (.inl (List.IsPrefix.trans (by decide) (List.prefix_append "### Step ".toList _)))

/-- A written step stands before a boundary. -/
theorem exists_boundary (steps : List ParsedStep) {line : Text} (hline : isBoundary line)
    (rest : List Text) : ∃ line' rest', steps.flatMap stepLines ++ line :: rest = line' :: rest' ∧
      isBoundary line' := by
  cases steps with
  | nil => exact ⟨line, rest, rfl, hline⟩
  | cons step steps => exact ⟨headingLine step, _, rfl, isBoundary_headingLine step⟩

/-- The written steps are read one by one. -/
theorem readSteps_flatMap {steps : List ParsedStep} (h : ∀ s ∈ steps, s.Tidy)
    (hfirst : ∀ s ∈ steps, ∀ first ∈ (lines s.description).head?, headingNumber first = none)
    {line : Text} (hline : isBoundary line) {rest : List Text}
    (hrest : readSteps (line :: rest) = some []) :
    readSteps (steps.flatMap stepLines ++ line :: rest) = steps.mapM reread := by
  induction steps with
  | nil => exact hrest
  | cons step steps ih =>
    obtain ⟨hstep, hsteps⟩ := List.forall_mem_cons.mp h
    obtain ⟨hfirst, hfirsts⟩ := List.forall_mem_cons.mp hfirst
    obtain ⟨line', rest', hnext, hline'⟩ := exists_boundary steps hline rest
    rw [List.flatMap_cons, List.append_assoc, hnext, readSteps_stepLines hstep hfirst hline',
      ← hnext, ih hsteps hfirsts, List.mapM_cons]

theorem mapM_reread_iff (steps : List ParsedStep) :
    (∃ read, steps.mapM reread = some read ∧
        read.map ParsedStep.contents = steps.map ParsedStep.contents) ↔
      ∀ s ∈ steps, (reread s).map ParsedStep.contents = some s.contents := by
  induction steps with
  | nil => simp
  | cons step steps ih =>
    rw [List.forall_mem_cons, ← ih, List.mapM_cons, Option.map_eq_some_iff]
    simp only [Option.bind_eq_bind, Option.bind_eq_some_iff, Option.pure_def, Option.some.injEq]
    constructor
    · rintro ⟨_, ⟨read, hread, reads, hreads, rfl⟩, hmap⟩
      rw [List.map_cons, List.map_cons, List.cons.injEq] at hmap
      exact ⟨⟨read, hread, hmap.1⟩, reads, hreads, hmap.2⟩
    · rintro ⟨⟨read, hread, hcontents⟩, reads, hreads, hmap⟩
      exact ⟨read :: reads, ⟨read, hread, reads, hreads, rfl⟩, by simp [hcontents, hmap]⟩

/-- A list that is as long as the parts it is joined from has parts of one element. -/
theorem length_eq_one_of_flatMap {α β : Type} {f : α → List β} {xs : List α}
    (hpos : ∀ x ∈ xs, 1 ≤ (f x).length) (h : (xs.flatMap f).length = xs.length) :
    ∀ x ∈ xs, (f x).length = 1 := by
  have hle {ys : List α} (hys : ∀ x ∈ ys, 1 ≤ (f x).length) : ys.length ≤ (ys.flatMap f).length := by
    induction ys with
    | nil => exact le_rfl
    | cons y ys ih =>
      obtain ⟨hy, hys⟩ := List.forall_mem_cons.mp hys
      rw [List.length_cons, List.flatMap_cons, List.length_append]
      have := ih hys
      omega
  induction xs with
  | nil => exact fun _ h => (List.not_mem_nil h).elim
  | cons x xs ih =>
    obtain ⟨hx, hxs⟩ := List.forall_mem_cons.mp hpos
    rw [List.flatMap_cons, List.length_append, List.length_cons] at h
    have hrest := hle hxs
    exact List.forall_mem_cons.mpr ⟨by omega, ih hxs (by omega)⟩

/-- The steps of a rendered document have the contents that were written exactly when each of them
survives. -/
theorem readSteps_contents_iff {steps : List ParsedStep} (h : ∀ s ∈ steps, s.Tidy) {pre : List Text}
    (hpre : ∀ l ∈ pre, headingNumber l = none) {line : Text} (hline : isBoundary line)
    {rest : List Text} (hrest : ∀ l ∈ line :: rest, headingNumber l = none) :
    (∃ read, readSteps (pre ++ (steps.flatMap stepLines ++ line :: rest)) = some read ∧
        read.map ParsedStep.contents = steps.map ParsedStep.contents) ↔
      ∀ s ∈ steps, Survives s := by
  rw [readSteps_append hpre]
  have hclosing : readSteps (line :: rest) = some [] := by
    have hread := readSteps_append hrest []
    rwa [List.append_nil] at hread
  have hheadings : (∃ read, readSteps (steps.flatMap stepLines ++ line :: rest) = some read ∧
        read.map ParsedStep.contents = steps.map ParsedStep.contents) →
      ∀ s ∈ steps, ∀ first ∈ (lines s.description).head?, headingNumber first = none := by
    rintro ⟨read, hread, hmap⟩ s hs
    have hlen := length_readSteps hread
    have hmapLen := congrArg List.length hmap
    rw [List.length_map, List.length_map] at hmapLen
    rw [List.filterMap_append, List.filterMap_eq_nil_iff.mpr hrest, List.append_nil,
      List.filterMap_flatMap, List.flatMap_congr fun s hs => stepLines_headings (h s hs),
      hmapLen] at hlen
    have hone := length_eq_one_of_flatMap (fun s _ => by simp) hlen.symm s hs
    refine Option.bind_eq_none_iff.mp ?_
    cases hbind : (lines s.description).head?.bind headingNumber with
    | none => rfl
    | some n => simp [hbind] at hone
  constructor
  · intro hread s hs
    have hfirst := hheadings hread
    rw [readSteps_flatMap h hfirst hline hclosing, mapM_reread_iff] at hread
    exact (reread_eq_iff (h s hs)).mp ⟨hread s hs, hfirst s hs⟩
  · intro hall
    have hsurvives := fun s hs => (reread_eq_iff (h s hs)).mpr (hall s hs)
    rw [readSteps_flatMap h (fun s hs => (hsurvives s hs).2) hline hclosing, mapM_reread_iff]
    exact fun s hs => (hsurvives s hs).1

/-! ## The required section -/

/-- Some step has a line that reads as the heading `What needs doing`, and text after it: the rest
of the description, or what is written after the description. A command is always followed by the
end of its code block. -/
def Intends : List ParsedStep → Prop
  | [] => False
  | step :: rest =>
    match (lines step.description).dropWhile fun l => !opens U .whatNeedsDoing l with
    | _ :: after =>
      (∃ l ∈ after, opens U .whatNeedsDoing l = false ∧ ¬ Blank l) ∨
        step.filesToModify ≠ [] ∨ step.verification ≠ none ∨ step.checklist ≠ []
    | [] => (∃ l ∈ commandLines step.commands, opens U .whatNeedsDoing l = true) ∨ Intends rest

instance : (steps : List ParsedStep) → Decidable (Intends U steps)
  | [] => inferInstanceAs (Decidable False)
  | step :: rest => by
    have := instDecidableIntends rest
    unfold Intends
    split <;> infer_instance

theorem inert_fileLines (files : List FileModification) : ∀ l ∈ fileLines files, Inert U l :=
  forall_mem_fileLines
    (inert_of_head U (c := '*') rfl (by decide) (by decide) (by decide) (by decide)) (inert_nil U)
    (fun _ => inert_of_head U (c := '-') rfl (by decide) (by decide) (by decide) (by decide)) files

theorem inert_checklistLines (checklist : List ChecklistItem) :
    ∀ l ∈ checklistLines checklist, Inert U l :=
  forall_mem_checklistLines
    (inert_of_head U (c := '*') rfl (by decide) (by decide) (by decide) (by decide)) (inert_nil U)
    (fun _ => inert_of_head U (c := '-') rfl (by decide) (by decide) (by decide) (by decide))
    checklist

theorem opens_headingLine (step : ParsedStep) :
    opens U .whatNeedsDoing (headingLine step) = false := by
  have hline : headingLine step =
      '#' :: ("## Step ".toList ++ ofNat step.number.toNat ++ ": ".toList ++ step.title) := rfl
  rw [hline]
  refine opens_eq_false U (by decide) ?_ (by decide)
  intro h
  obtain ⟨u, hu⟩ := h
  cases hu

/-- What the writer puts after a description holds text when there is something to write. -/
theorem exists_written_iff (step : ParsedStep) :
    (∃ l ∈ middleLines step ++ checklistLines step.checklist,
        opens U .whatNeedsDoing l = false ∧ ¬ Blank l) ↔
      step.filesToModify ≠ [] ∨ step.verification ≠ none ∨ step.checklist ≠ [] := by
  have hmark {l : Text} (hl : l.head? = some '*') :
      opens U .whatNeedsDoing l = false ∧ ¬ Blank l := by
    refine ⟨(inert_of_head U hl (by decide) (by decide) (by decide) (by decide)).intent, fun hb => ?_⟩
    exact absurd (hb '*' (List.mem_of_head? hl)) (by decide)
  constructor
  · rintro ⟨l, hl, -⟩
    by_contra hnone
    push Not at hnone
    obtain ⟨hf, hv, hc⟩ := hnone
    simp [middleLines, fileLines, checklistLines, hf, hv, hc, verificationLines] at hl
  · rintro (hf | hv | hc)
    · refine ⟨"**Files to modify:**".toList, ?_, hmark rfl⟩
      rw [middleLines, fileLines, if_neg hf]
      simp
    · obtain ⟨ver, hver⟩ := Option.ne_none_iff_exists'.mp hv
      refine ⟨"**Verification:**".toList, ?_, hmark rfl⟩
      rw [middleLines, hver, verificationLines]
      simp
    · refine ⟨"**Checklist:**".toList, ?_, hmark rfl⟩
      rw [checklistLines, if_neg hc]
      simp

theorem opens_verificationLines {step : ParsedStep}
    (h : ∀ l ∈ commandLines step.commands, opens U .whatNeedsDoing l = false) :
    ∀ l ∈ verificationLines step.verification, opens U .whatNeedsDoing l = false := by
  have hfixed {c : Char} {line : Text} (hline : line.head? = some c) (hc : c = '*' ∨ c = '`') :
      opens U .whatNeedsDoing line = false := by
    rcases hc with rfl | rfl
    · exact (inert_of_head U hline (by decide) (by decide) (by decide) (by decide)).intent
    · exact (inert_of_head U hline (by decide) (by decide) (by decide) (by decide)).intent
  exact forall_mem_verificationLines
    ⟨hfixed rfl (.inl rfl), hfixed rfl (.inr rfl), hfixed rfl (.inr rfl)⟩ (inert_nil U).intent h

theorem exists_of_dropWhile_eq_cons {heads : Text → Bool} {ls : List Text} {head : Text}
    {after : List Text} (h : (ls.dropWhile fun l => !heads l) = head :: after) :
    ∃ before, ls = before ++ head :: after ∧ (∀ l ∈ before, heads l = false) ∧
      heads head = true := by
  refine ⟨ls.takeWhile fun l => !heads l, ?_, fun l hl => ?_, ?_⟩
  · rw [← h, List.takeWhile_append_dropWhile]
  · simpa using List.mem_takeWhile_imp hl
  · have hnot := List.head?_dropWhile_not (fun l => !heads l) ls
    simpa [h] using hnot

/-- The lines hold text for the required section. -/
def Fills (lines : List Text) : Prop :=
  ∃ l ∈ sectionLines (opens U .whatNeedsDoing) lines false false, ¬ Blank l

/-- What is collected when the line `head` of a step is the first to open the section. -/
theorem fills_split {step : ParsedStep} {before after : List Text} {head : Text}
    (hsplit : stepLines step = before ++ head :: after)
    (hbefore : ∀ l ∈ before, opens U .whatNeedsDoing l = false)
    (hhead : opens U .whatNeedsDoing head = true) (hafter : ∀ l ∈ after, ¬ isBoundary l)
    {next : Text} (hnext : isBoundary next) (hopen : opens U .whatNeedsDoing next = false)
    (rest : List Text) : Fills U (stepLines step ++ next :: rest) ↔
      ∃ l ∈ after, opens U .whatNeedsDoing l = false ∧ ¬ Blank l := by
  rw [Fills, hsplit, List.append_assoc, sectionLines_append hbefore, List.cons_append,
    sectionLines_cons hhead]
  exact exists_mem_sectionLines_iff hafter hnext hopen rest

theorem fills_description {step : ParsedStep} (h : step.Tidy) {head : Text} {after : List Text}
    (hdrop : ((lines step.description).dropWhile fun l => !opens U .whatNeedsDoing l) =
      head :: after) {next : Text} (hnext : isBoundary next)
    (hopen : opens U .whatNeedsDoing next = false) (rest : List Text) :
    Fills U (stepLines step ++ next :: rest) ↔
      (∃ l ∈ after, opens U .whatNeedsDoing l = false ∧ ¬ Blank l) ∨
        step.filesToModify ≠ [] ∨ step.verification ≠ none ∨ step.checklist ≠ [] := by
  obtain ⟨before, hlines, hbefore, hhead⟩ := exists_of_dropWhile_eq_cons hdrop
  have hafter : ∀ l ∈ after, ¬ isBoundary l := fun l hl =>
    (h.descriptionLines l (by rw [hlines]; cases before <;> simp [hl])).1
  have hmiddle : ∀ l ∈ middleLines step, ¬ isBoundary l :=
    fun l hl => (unmarked_middleLines h l hl).1
  have hne : step.description ≠ [] := fun hnil => by
    rw [hnil] at hlines
    exact absurd hlines (by cases before <;> simp [lines])
  have hsplit : stepLines step = (headingLine step :: [] :: before) ++ head ::
      (after ++ [] :: (middleLines step ++ checklistLines step.checklist)) := by
    simp [stepLines, descriptionLines, hne, hlines]
  rw [fills_split U hsplit ?_ hhead ?_ hnext hopen]
  · have hblank : Blank [] := fun _ h => by cases h
    rw [← exists_written_iff U step]
    simp only [List.mem_append, List.mem_cons, or_and_right, exists_or, exists_eq_left, hblank,
      not_true_eq_false, and_false, false_or]
  · exact List.forall_mem_cons.mpr ⟨opens_headingLine U step, List.forall_mem_cons.mpr
      ⟨(inert_nil U).intent, hbefore⟩⟩
  · exact List.forall_mem_append.mpr ⟨hafter, List.forall_mem_cons.mpr ⟨by decide,
      List.forall_mem_append.mpr ⟨hmiddle, not_isBoundary_checklistLines _⟩⟩⟩

/-- The lines of a step before its commands, when the description does not open the section. -/
theorem opens_beforeCommands {step : ParsedStep}
    (hdrop : ((lines step.description).dropWhile fun l => !opens U .whatNeedsDoing l) = []) :
    ∀ l ∈ headingLine step :: [] :: (descriptionLines step.description ++
      fileLines step.filesToModify), opens U .whatNeedsDoing l = false := by
  have hdesc : ∀ l ∈ descriptionLines step.description, opens U .whatNeedsDoing l = false := by
    have hall := List.dropWhile_eq_nil_iff.mp hdrop
    unfold descriptionLines
    split_ifs
    · exact fun l hl => (List.not_mem_nil hl).elim
    · refine forall_mem_concat (fun l hl => ?_) (inert_nil U).intent
      simpa using hall l hl
  exact List.forall_mem_cons.mpr ⟨opens_headingLine U step, List.forall_mem_cons.mpr
    ⟨(inert_nil U).intent, List.forall_mem_append.mpr
      ⟨hdesc, fun l hl => (inert_fileLines U _ l hl).intent⟩⟩⟩

/-- After a command that opens the section, the end of its code block is collected. -/
theorem fills_command {step : ParsedStep} (h : step.Tidy)
    (hdrop : ((lines step.description).dropWhile fun l => !opens U .whatNeedsDoing l) = [])
    (hcommand : ∃ l ∈ commandLines step.commands, opens U .whatNeedsDoing l = true) {next : Text}
    (hnext : isBoundary next) (hopen : opens U .whatNeedsDoing next = false) (rest : List Text) :
    Fills U (stepLines step ++ next :: rest) := by
  obtain ⟨ver, hver⟩ : ∃ ver, step.verification = some ver := by
    rw [← Option.ne_none_iff_exists']
    intro hnone
    simp [ParsedStep.commands, hnone, commandLines] at hcommand
  have hcommands : step.commands = ver.commands := by simp [ParsedStep.commands, hver]
  obtain ⟨l, hl, hopens⟩ := hcommand
  have hne : ((commandLines ver.commands).dropWhile fun l => !opens U .whatNeedsDoing l) ≠ [] :=
    fun hnil => by
      have hclosed := List.dropWhile_eq_nil_iff.mp hnil l (hcommands ▸ hl)
      simp [hopens] at hclosed
  obtain ⟨head, after, hafter⟩ := List.exists_cons_of_ne_nil hne
  obtain ⟨before, hlines, hbefore, hhead⟩ := exists_of_dropWhile_eq_cons hafter
  have hsplit : stepLines step = (headingLine step :: [] ::
      (descriptionLines step.description ++ fileLines step.filesToModify) ++
      "**Verification:**".toList :: [] :: "```bash".toList :: before) ++ head ::
      (after ++ "```".toList :: [] :: checklistLines step.checklist) := by
    simp [stepLines, middleLines, hver, verificationLines, hlines]
  have hstar : Inert U "**Verification:**".toList :=
    inert_of_head U (c := '*') rfl (by decide) (by decide) (by decide) (by decide)
  have hopening : Inert U "```bash".toList :=
    inert_of_head U (c := '`') rfl (by decide) (by decide) (by decide) (by decide)
  have hclosing : Inert U "```".toList :=
    inert_of_head U (c := '`') rfl (by decide) (by decide) (by decide) (by decide)
  have hlater : ∀ l ∈ after, ¬ isBoundary l := fun l hl => by
    refine (unmarked_middleLines h l (List.mem_append_right _ ?_)).1
    rw [hver, verificationLines, hlines]
    simp [hl]
  refine (fills_split U hsplit (List.forall_mem_append.mpr ⟨opens_beforeCommands U hdrop, ?_⟩) hhead
    ?_ hnext hopen rest).mpr ⟨"```".toList, by simp, hclosing.intent, fun hb => ?_⟩
  · exact List.forall_mem_cons.mpr ⟨hstar.intent, List.forall_mem_cons.mpr
      ⟨(inert_nil U).intent, List.forall_mem_cons.mpr ⟨hopening.intent, hbefore⟩⟩⟩
  · exact List.forall_mem_append.mpr ⟨hlater, List.forall_mem_cons.mpr ⟨by decide,
      List.forall_mem_cons.mpr ⟨by decide, not_isBoundary_checklistLines _⟩⟩⟩
  · exact absurd (hb '`' (by simp)) (by decide)

/-- A step that does not open the section is passed over. -/
theorem fills_skip {step : ParsedStep}
    (hdrop : ((lines step.description).dropWhile fun l => !opens U .whatNeedsDoing l) = [])
    (hcommand : ¬ ∃ l ∈ commandLines step.commands, opens U .whatNeedsDoing l = true)
    (rest : List Text) : Fills U (stepLines step ++ rest) ↔ Fills U rest := by
  have hver := opens_verificationLines U fun l hl =>
    Bool.eq_false_of_not_eq_true fun hopen => hcommand ⟨l, hl, hopen⟩
  have hlist := fun l hl => (inert_checklistLines U step.checklist l hl).intent
  have hlines : stepLines step = (headingLine step :: [] ::
      (descriptionLines step.description ++ fileLines step.filesToModify)) ++
      (verificationLines step.verification ++ checklistLines step.checklist) := by
    simp [stepLines, middleLines]
  have hall : ∀ l ∈ stepLines step, opens U .whatNeedsDoing l = false := by
    rw [hlines]
    exact List.forall_mem_append.mpr
      ⟨opens_beforeCommands U hdrop, List.forall_mem_append.mpr ⟨hver, hlist⟩⟩
  rw [Fills, Fills, sectionLines_append hall]

/-- The required section of a rendered document holds text exactly when its steps are intended. -/
theorem fills_iff {steps : List ParsedStep} (h : ∀ s ∈ steps, s.Tidy) {line : Text}
    (hline : isBoundary line) {rest : List Text}
    (hrest : ∀ l ∈ line :: rest, opens U .whatNeedsDoing l = false) :
    Fills U (steps.flatMap stepLines ++ line :: rest) ↔ Intends U steps := by
  induction steps with
  | nil =>
    have hnone := sectionLines_append hrest []
    rw [List.append_nil] at hnone
    rw [List.flatMap_nil, List.nil_append, Fills, hnone]
    simp [sectionLines, Intends]
  | cons step steps ih =>
    obtain ⟨hstep, hsteps⟩ := List.forall_mem_cons.mp h
    have ih := ih hsteps
    obtain ⟨next, rest', hnext, hboundary, hopen⟩ : ∃ next rest',
        steps.flatMap stepLines ++ line :: rest = next :: rest' ∧ isBoundary next ∧
          opens U .whatNeedsDoing next = false := by
      cases steps with
      | nil => exact ⟨line, rest, rfl, hline, hrest line List.mem_cons_self⟩
      | cons s steps => exact ⟨headingLine s, _, rfl, isBoundary_headingLine s, opens_headingLine U s⟩
    rw [List.flatMap_cons, List.append_assoc, Intends]
    cases hdrop : (lines step.description).dropWhile fun l => !opens U .whatNeedsDoing l with
    | cons head after =>
      rw [hnext]
      exact fills_description U hstep hdrop hboundary hopen rest'
    | nil =>
      by_cases hcommand : ∃ l ∈ commandLines step.commands, opens U .whatNeedsDoing l = true
      · rw [hnext]
        exact iff_of_true (fills_command U hstep hdrop hcommand hboundary hopen rest')
          (.inl hcommand)
      · rw [or_iff_right hcommand, ← ih]
        exact fills_skip U hdrop hcommand _

/-! ## Pieces -/

/-- The rendered piece is parsed, to steps with the contents of its own. -/
def RoundTrips (piece : HandoffPiece) (handoff : ParsedHandoff) : Prop :=
  ∃ child, parseHandoff U (renderPiece piece handoff.title handoff.metadata) = some (.ok child) ∧
    child.steps.map ParsedStep.contents = piece.steps.map ParsedStep.contents

/-- A piece of a parsed handoff is parsed to its own steps exactly when its steps hold text for the
required section, and none of them loses data to the way its description begins. -/
theorem roundTrips_iff {content : Text} {handoff : ParsedHandoff}
    (hparse : parseHandoff U content = some (.ok handoff)) {config : DecompositionConfig}
    {orders : ℕ → HashOrder} {r : DecompositionResult}
    (hrun : decompose U config orders handoff = some (.ok r)) {piece : HandoffPiece}
    (hpiece : piece ∈ r.pieces) :
    RoundTrips U piece handoff ↔
      Intends U piece.steps ∧ ∀ step ∈ piece.steps, Survives step := by
  obtain ⟨htitle, hmeta, hsteps⟩ := parseHandoff_tidy U hparse
  have hr := decomposed_of_ok U hrun
  have htidy : ∀ s ∈ piece.steps, s.Tidy := fun s hs => hsteps s (hr.mem_steps U hpiece hs)
  obtain ⟨opening, closing, hlines, hframed⟩ :=
    lines_renderPiece U (hr.titles piece hpiece) htidy htitle hmeta
  have hboundary : isBoundary "## Completion Protocol".toList := by decide
  have hintent : sectionText U .whatNeedsDoing (lines (renderPiece piece handoff.title
      handoff.metadata)) ≠ [] ↔ Intends U piece.steps := by
    rw [sectionText_ne_nil_iff, hlines, sectionLines_append fun l hl => (hframed.opening l hl).2]
    exact fills_iff U htidy hboundary fun l hl => (hframed.closing l hl).2
  have hread : (∃ steps, readSteps (lines (renderPiece piece handoff.title handoff.metadata)) =
        some steps ∧ steps.map ParsedStep.contents = piece.steps.map ParsedStep.contents) ↔
      ∀ step ∈ piece.steps, Survives step := by
    rw [hlines]
    exact readSteps_contents_iff htidy (fun l hl => (hframed.opening l hl).1) hboundary
      fun l hl => (hframed.closing l hl).1
  rw [← hintent, ← hread]
  constructor
  · rintro ⟨child, hchild, hcontents⟩
    obtain ⟨hsections, hsteps, -⟩ := (parseHandoff_ok_iff U).mp ⟨child, hchild, rfl⟩
    exact ⟨hsections.2.2, child.steps, hsteps, hcontents⟩
  · rintro ⟨hintent, steps, hsteps, hcontents⟩
    obtain ⟨line, hline, hstart⟩ := hframed.title
    have hsections : HasRequiredSections U
        (lines (renderPiece piece handoff.title handoff.metadata)) :=
      ⟨⟨line, hlines ▸ List.mem_append_left _ hline, hstart⟩, hlines ▸ hframed.problem _, hintent⟩
    have hnil : steps ≠ [] := by
      rintro rfl
      exact hr.ne_nil U piece hpiece (List.map_eq_nil_iff.mp hcontents.symm)
    obtain ⟨child, hchild, rfl⟩ := (parseHandoff_ok_iff U).mpr ⟨hsections, hsteps, hnil⟩
    exact ⟨child, hchild, hcontents⟩

/-- A document and its pieces, with the default configuration. -/
def piecesOf (content : Text) : Option (ParsedHandoff × DecompositionResult) := do
  let handoff ← (← parseHandoff .asciiTables content).toOption
  let r ← (← decompose .asciiTables {} (fun _ => .inOrder) handoff).toOption
  return (handoff, r)

theorem piecesOf_eq_some {content : Text} {handoff : ParsedHandoff} {r : DecompositionResult}
    (h : piecesOf content = some (handoff, r)) :
    parseHandoff .asciiTables content = some (.ok handoff) ∧
      decompose .asciiTables {} (fun _ => .inOrder) handoff = some (.ok r) := by
  simp only [piecesOf, Option.bind_eq_bind, Option.bind_eq_some_iff, Option.pure_def,
    Option.some.injEq, Prod.mk.injEq] at h
  obtain ⟨parsed, hparsed, handoff', hhandoff, cut, hcut, r', hr, rfl, rfl⟩ := h
  cases parsed with
  | error e => cases hhandoff
  | ok _ =>
    cases hhandoff
    cases cut with
    | error e => cases hr
    | ok _ =>
      cases hr
      exact ⟨hparsed, hcut⟩

/-- A step whose description begins with an indented marker and names the required section. -/
def namedContent : Text := ("# Ship\n## Problem\np\n## What needs doing\nd\n" ++
  "### Step 1: Build\nBuild it.\n" ++
  "### Step 2: Test\n #### Verification\n\nWhat needs doing\n\nRun it.\n" ++
  "#### Verification\n```bash\ncargo test\n```\n**Checklist:**\n- [x] done\n- [ ] open\n").toList

theorem roundTrips_named : ∃ handoff r piece, piecesOf namedContent = some (handoff, r) ∧
    piece ∈ r.pieces ∧ piece.steps.map (·.commands) = [[], ["cargo test".toList]] ∧
    RoundTrips .asciiTables piece handoff := by
  have h : (piecesOf namedContent).map (fun e => e.2.pieces.map fun p =>
      decide (p.steps.map (·.commands) = [[], ["cargo test".toList]] ∧
        Intends .asciiTables p.steps ∧ ∀ s ∈ p.steps, Survives s)) = some [true] := by
    decide +kernel
  obtain ⟨⟨handoff, r⟩, hrun, hpieces⟩ := Option.map_eq_some_iff.mp h
  obtain ⟨piece, hpiece, hdec⟩ := List.map_eq_singleton_iff.mp hpieces
  obtain ⟨hcommands, hintends⟩ := of_decide_eq_true hdec
  obtain ⟨hparse, hdecompose⟩ := piecesOf_eq_some hrun
  have hmem : piece ∈ r.pieces := hpiece ▸ List.mem_singleton_self piece
  exact ⟨handoff, r, piece, hrun, hmem, hcommands,
    (roundTrips_iff .asciiTables hparse hdecompose hmem).mpr hintends⟩

/-- A handoff as the parser expects it. -/
def ordinaryContent : Text := ("# Ship\n## Problem\np\n## What needs doing\nd\n" ++
  "### Step 1: Build\nBuild it.\n#### Files to modify\n**`a.rs`** — entry\n" ++
  "#### Verification\n```bash\ncargo test\n```\n**Checklist:**\n- [x] done\n").toList

/-- The piece of an ordinary handoff is refused. -/
theorem ordinary_piece_refused : ¬ ∀ content handoff config orders r piece,
    parseHandoff .asciiTables content = some (.ok handoff) →
      decompose .asciiTables config orders handoff = some (.ok r) → piece ∈ r.pieces →
        RoundTrips .asciiTables piece handoff := by
  intro hall
  have h : (piecesOf ordinaryContent).map (fun e => e.2.pieces.map fun p =>
      (parseHandoff .asciiTables (renderPiece p e.1.title e.1.metadata)).map (·.toOption.isSome)) =
        some [some false] := by decide +kernel
  obtain ⟨⟨handoff, r⟩, hrun, hpieces⟩ := Option.map_eq_some_iff.mp h
  obtain ⟨piece, hpiece, hrefused⟩ := List.map_eq_singleton_iff.mp hpieces
  obtain ⟨hparse, hdecompose⟩ := piecesOf_eq_some hrun
  have hmem : piece ∈ r.pieces := hpiece ▸ List.mem_singleton_self piece
  obtain ⟨child, hchild, -⟩ := hall _ handoff _ _ r piece hparse hdecompose hmem
  rw [hchild] at hrefused
  cases hrefused

end Hymenium
