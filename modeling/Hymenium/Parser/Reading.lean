import Hymenium.Parser.Slices

/-!
# What the parser reads in a step

The lines of a step after a marker are read in one mode: `readIn` is what each mode reads. The
steps it reads are tidy: `Tidy` says what is left of the lines of the document in their texts.

1. `scanStep_opening`: the first line of a step chooses the mode in which unmarked lines are read.
2. `collectSteps_eq`: the steps are read heading by heading.
3. `parseHandoff_tidy`: the texts of a parsed handoff come from single lines.
-/

namespace Hymenium

open Text

/-! ## Unmarked lines -/

/-- A line that neither ends a step nor switches the mode. -/
def Unmarked (line : Text) : Prop := ¬ isBoundary line ∧ markerMode line = none

instance (line : Text) : Decidable (Unmarked line) :=
  inferInstanceAs (Decidable (¬ isBoundary line ∧ markerMode line = none))

theorem markerMode_eq_none_iff {line : Text} : markerMode line = none ↔
    ¬ startsWith line "#### Files to modify" ∧ ¬ startsWith line "#### Verification" ∧
      ¬ startsWith line "**Checklist:**" ∧ ¬ startsWith line "**Checklist :**" := by
  unfold markerMode
  split_ifs with h₁ h₂ h₃
  · simp [h₁]
  · simp [h₂]
  · exact iff_of_false (by simp) fun h => h₃.elim h.2.2.1 h.2.2.2
  · simp [h₁, h₂, not_or.mp h₃]

theorem Unmarked.mono {l l' : Text} (h : Unmarked l') (hp : l <+: l') : Unmarked l := by
  have hpat {pat : String} (hn : ¬ startsWith l' pat) : ¬ startsWith l pat :=
    fun hl => hn (startsWith_mono hl hp)
  obtain ⟨hboundary, hmarker⟩ := h
  rw [isBoundary, not_or, not_or] at hboundary
  rw [markerMode_eq_none_iff] at hmarker
  refine ⟨?_, markerMode_eq_none_iff.mpr ⟨hpat hmarker.1, hpat hmarker.2.1, hpat hmarker.2.2.1,
    hpat hmarker.2.2.2⟩⟩
  rw [isBoundary, not_or, not_or]
  exact ⟨hpat hboundary.1, hpat hboundary.2.1, hpat hboundary.2.2⟩

/-! ## Modes -/

/-- What a step has read besides its description and metadata. -/
structure Reading where
  files : List FileModification := []
  checklist : List ChecklistItem := []
  fenced : List Text := []

def StepScan.reading (s : StepScan) : Reading where
  files := s.filesToModify
  checklist := s.checklist
  fenced := s.verifyLines

/-- The file modifications of lines. -/
def readFiles : List Text → Option (List FileModification)
  | [] => some []
  | line :: rest =>
    if startsWith line "**`" then do
      let file ← extractFileModification line
      let files ← readFiles rest
      return (file.map fun (path, description) => { path, description }).toList ++ files
    else readFiles rest

/-- The checklist items of lines. -/
def readChecklist : List Text → Option (List ChecklistItem)
  | [] => some []
  | line :: rest =>
    if startsWith line "- [" then do
      let item ← checklistItem line
      let items ← readChecklist rest
      return item :: items
    else readChecklist rest

/-- The lines from the first code fence on. -/
def fencedLines (lines : List Text) : List Text := lines.dropWhile fun line => ¬ startsWith line "```"

/-- What unmarked lines give in a mode. -/
def readIn (mode : Mode) (lines : List Text) : Option Reading :=
  match mode with
  | .files => (readFiles lines).map fun files => { files }
  | .checklist => (readChecklist lines).map fun checklist => { checklist }
  | .verification => some { fenced := fencedLines lines }
  | .metadata | .description => some {}

/-- A mode in which only the description or the metadata is read. -/
def Mode.Quiet (mode : Mode) : Prop := mode = .metadata ∨ mode = .description

theorem scanStep_append {a : List Text} (ha : ∀ l ∈ a, ¬ isBoundary l) (b : List Text)
    (s : StepScan) : scanStep (a ++ b) s = (scanStep a s).bind (scanStep b) := by
  induction a generalizing s with
  | nil => rfl
  | cons line rest ih =>
    have ih := ih fun l hl => ha l (List.mem_cons_of_mem _ hl)
    have hstop : ¬ stopsStep line := mt isBoundary_of_stopsStep (ha line List.mem_cons_self)
    rw [List.cons_append, scanStep, scanStep]
    split_ifs
    · cases extractKeyValue line "**Project:**" with
      | none => rfl
      | some value => exact ih _
    · cases extractKeyValue line "**Effort:**" with
      | none => rfl
      | some value => exact ih _
    · cases extractDependencies line with
      | none => rfl
      | some value => exact ih _
    · cases markerMode line with
      | some mode => exact ih _
      | none =>
        cases s.body line with
        | none => rfl
        | some s' => exact ih s'

/-- A marker only switches the mode. -/
theorem scanStep_marker {line : Text} {mode : Mode} (hmarker : markerMode line = some mode)
    (hline : ¬ isBoundary line) (rest : List Text) (s : StepScan) :
    scanStep (line :: rest) s = scanStep rest { s with mode } := by
  obtain ⟨-, hnone, -⟩ | ⟨mode', hmode', hrun⟩ | ⟨hnone, -⟩ := scanStep_cons hline rest s
  · rw [hmarker] at hnone
    cases hnone
  · rw [hmarker] at hmode'
    cases hmode'
    exact hrun
  · rw [hmarker] at hnone
    cases hnone

/-- Outside the metadata, an unmarked line is read in its mode. -/
theorem scanStep_unmarked {line : Text} (hline : Unmarked line) (rest : List Text) {s : StepScan}
    (hmode : s.mode ≠ .metadata) :
    scanStep (line :: rest) s = (s.body line).bind (scanStep rest) := by
  obtain ⟨hmeta, -⟩ | ⟨mode', hmode', -⟩ | ⟨-, hrun⟩ := scanStep_cons hline.1 rest s
  · exact absurd hmeta hmode
  · rw [hline.2] at hmode'
    cases hmode'
  · exact hrun

/-- In a quiet mode, unmarked lines are no reading. -/
theorem scanStep_quiet {lines : List Text} (hlines : ∀ l ∈ lines, Unmarked l) {s : StepScan}
    (hmode : s.mode.Quiet) :
    ∃ s', scanStep lines s = some s' ∧ s'.mode.Quiet ∧ s'.reading = s.reading := by
  induction lines generalizing s with
  | nil => exact ⟨s, rfl, hmode, rfl⟩
  | cons line rest ih =>
    have ih := @ih fun l hl => hlines l (List.mem_cons_of_mem _ hl)
    have hline := hlines line List.mem_cons_self
    obtain ⟨-, -, s', hmode', hfiles, hchecklist, -, hverify, hrun⟩ | ⟨mode, hmarker, -⟩ | ⟨-, hrun⟩ :=
      scanStep_cons hline.1 rest s
    · obtain ⟨s'', hrest, hquiet, hreading⟩ := ih (.inl hmode')
      refine ⟨s'', hrun.trans hrest, hquiet, hreading.trans ?_⟩
      rw [StepScan.reading, StepScan.reading, hfiles, hchecklist, hverify]
    · rw [hline.2] at hmarker
      cases hmarker
    · obtain ⟨s', hbody, hquiet, hreading⟩ :
          ∃ s', s.body line = some s' ∧ s'.mode.Quiet ∧ s'.reading = s.reading := by
        unfold StepScan.body
        rcases hmode with hmode | hmode
        · rw [hmode]
          dsimp only
          split_ifs
          · exact ⟨_, rfl, .inr rfl, rfl⟩
          · exact ⟨_, rfl, .inl hmode, rfl⟩
        · rw [hmode]
          dsimp only
          split_ifs
          · exact ⟨_, rfl, .inr hmode, rfl⟩
          · exact ⟨_, rfl, .inr rfl, rfl⟩
      obtain ⟨s'', hrest, hquiet', hreading'⟩ := ih hquiet
      exact ⟨s'', by rw [hrun, hbody, Option.bind_some, hrest], hquiet', hreading'.trans hreading⟩

theorem scanStep_files {lines : List Text} (hlines : ∀ l ∈ lines, Unmarked l) {s : StepScan}
    (hmode : s.mode = .files) : scanStep lines s = (readFiles lines).map fun files =>
      { s with filesToModify := s.filesToModify ++ files } := by
  induction lines generalizing s with
  | nil => simp [scanStep, readFiles]
  | cons line rest ih =>
    have ih := @ih fun l hl => hlines l (List.mem_cons_of_mem _ hl)
    rw [scanStep_unmarked (hlines line List.mem_cons_self) rest (by simp [hmode]), readFiles,
      StepScan.body, hmode]
    dsimp only
    split_ifs
    · cases extractFileModification line with
      | none => rfl
      | some file =>
        rw [Option.map_some, Option.bind_some, ih (by cases file <;> simp [hmode])]
        cases readFiles rest with
        | none => rfl
        | some files => cases file <;> simp [hmode]
    · rw [Option.bind_some, ih hmode, hmode]

theorem scanStep_checklist {lines : List Text} (hlines : ∀ l ∈ lines, Unmarked l) {s : StepScan}
    (hmode : s.mode = .checklist) : scanStep lines s = (readChecklist lines).map fun checklist =>
      { s with checklist := s.checklist ++ checklist } := by
  induction lines generalizing s with
  | nil => simp [scanStep, readChecklist]
  | cons line rest ih =>
    have ih := @ih fun l hl => hlines l (List.mem_cons_of_mem _ hl)
    rw [scanStep_unmarked (hlines line List.mem_cons_self) rest (by simp [hmode]), readChecklist,
      StepScan.body, hmode]
    dsimp only
    split_ifs
    · cases checklistItem line with
      | none => rfl
      | some item =>
        rw [Option.map_some, Option.bind_some, ih (by simp)]
        cases readChecklist rest with
        | none => rfl
        | some items => simp
    · rw [Option.bind_some, ih hmode, hmode]

theorem scanStep_verification {lines : List Text} (hlines : ∀ l ∈ lines, Unmarked l) {s : StepScan}
    (hmode : s.mode = .verification) : scanStep lines s = some
      { s with verifyLines :=
          if s.verifyLines = [] then fencedLines lines else s.verifyLines ++ lines } := by
  induction lines generalizing s with
  | nil =>
    have hverify : (if s.verifyLines = [] then fencedLines [] else s.verifyLines ++ []) =
        s.verifyLines := by
      by_cases h : s.verifyLines = [] <;> simp [h, fencedLines]
    rw [hverify]
    rfl
  | cons line rest ih =>
    have ih := @ih fun l hl => hlines l (List.mem_cons_of_mem _ hl)
    rw [scanStep_unmarked (hlines line List.mem_cons_self) rest (by simp [hmode]), StepScan.body,
      hmode]
    dsimp only
    split_ifs with hread hverify hverify
    · have hfence : startsWith line "```" := hread.resolve_right fun h => h hverify
      rw [Option.bind_some, ih (by simp)]
      simp [hverify, fencedLines, hfence]
    · rw [Option.bind_some, ih (by simp)]
      simp
    · have hfence : ¬ startsWith line "```" := fun h => hread (.inl h)
      rw [Option.bind_some, ih hmode, if_pos hverify]
      simp [fencedLines, hfence, hmode]
    · exact absurd (.inr hverify) hread

/-- The first line of a step chooses the mode in which the others are read. -/
theorem scanStep_opening {first : Text} (hfirst : ¬ isBoundary first) {lines : List Text}
    (hlines : ∀ l ∈ lines, Unmarked l) {s : StepScan} (hmode : s.mode.Quiet)
    (hreading : s.reading = {}) : (scanStep (first :: lines) s).map StepScan.reading =
      readIn ((markerMode first).getD .description) lines := by
  obtain ⟨hfiles, hchecklist, hfenced⟩ := (Reading.mk.injEq ..).mp hreading
  cases hmarker : markerMode first with
  | none =>
    have hall : ∀ l ∈ first :: lines, Unmarked l := by
      intro l hl
      rcases List.mem_cons.mp hl with rfl | hl
      · exact ⟨hfirst, hmarker⟩
      · exact hlines l hl
    obtain ⟨s', hrun, -, hreading'⟩ := scanStep_quiet hall hmode
    rw [hrun, Option.map_some, hreading', hreading]
    rfl
  | some mode =>
    rw [scanStep_marker hmarker hfirst, Option.getD_some]
    have hquiet (hmode' : mode.Quiet) :
        (scanStep lines { s with mode }).map StepScan.reading = some {} := by
      obtain ⟨s', hrun, -, hreading'⟩ := scanStep_quiet hlines (s := { s with mode }) hmode'
      rw [hrun, Option.map_some, hreading', ← hreading]
      rfl
    cases mode with
    | metadata => exact hquiet (.inl rfl)
    | description => exact hquiet (.inr rfl)
    | files =>
      rw [scanStep_files hlines rfl, Option.map_map, readIn]
      simp [Function.comp_def, StepScan.reading, hfiles, hchecklist, hfenced]
    | checklist =>
      rw [scanStep_checklist hlines rfl, Option.map_map, readIn]
      simp [Function.comp_def, StepScan.reading, hfiles, hchecklist, hfenced]
    | verification =>
      rw [scanStep_verification hlines rfl, readIn]
      simp [StepScan.reading, hfiles, hchecklist, hfenced]

/-! ## Sections -/

theorem sectionText_ne_nil_iff (U : Unicode) (sectionType : SectionType) (lines : List Text) :
    sectionText U sectionType lines ≠ [] ↔
      ∃ l ∈ sectionLines (opens U sectionType) lines false false, ¬ Blank l := by
  rw [sectionText, ne_eq, trim_eq_nil, blank_join]
  push Not
  rfl

/-- Lines before the heading of a section are not collected. -/
theorem sectionLines_append {heads : Text → Bool} {a : List Text} (ha : ∀ l ∈ a, heads l = false)
    (b : List Text) : sectionLines heads (a ++ b) false false = sectionLines heads b false false := by
  induction a with
  | nil => rfl
  | cons line rest ih =>
    rw [List.cons_append, sectionLines, ha line List.mem_cons_self]
    exact ih fun l hl => ha l (List.mem_cons_of_mem _ hl)

theorem sectionLines_cons {heads : Text → Bool} {line : Text} (hline : heads line = true)
    (rest : List Text) :
    sectionLines heads (line :: rest) false false = sectionLines heads rest true false := by
  rw [sectionLines, if_pos hline]

/-- A section that ends at a boundary holds text when one of its lines does. -/
theorem exists_mem_sectionLines_iff {heads : Text → Bool} {a : List Text}
    (ha : ∀ l ∈ a, ¬ isBoundary l) {line : Text} (hline : isBoundary line)
    (hheads : heads line = false) (rest : List Text) :
    (∃ l ∈ sectionLines heads (a ++ line :: rest) true false, ¬ Blank l) ↔
      ∃ l ∈ a, heads l = false ∧ ¬ Blank l := by
  induction a with
  | nil => simp [sectionLines, hheads, hline]
  | cons l a ih =>
    have ih := ih fun l hl => ha l (List.mem_cons_of_mem _ hl)
    have hl := ha l List.mem_cons_self
    rw [List.cons_append, sectionLines, List.exists_mem_cons_iff]
    cases hhead : heads l with
    | true => simp [ih]
    | false =>
      simp only [Bool.false_eq_true, if_false, if_true, hl, and_false, true_and]
      split_ifs with hfence hne
      · have hblank : ¬ Blank l := by
          intro hb
          have hmem : '`' ∈ l := List.IsPrefix.subset hfence (by simp)
          exact absurd (hb _ hmem) (by decide)
        simp [hblank]
      · rw [List.exists_mem_cons_iff, ih]
      · have hnil : l = [] := by simpa using hne
        have hblank : Blank l := hnil ▸ fun _ h => by cases h
        rw [ih]
        simp [hblank]

/-! ## Steps -/

/-- The steps of a document, heading by heading. -/
def readSteps : List Text → Option (List ParsedStep)
  | [] => some []
  | line :: rest =>
    match headingNumber line with
    | none => readSteps rest
    | some number => do
      let title ← extractStepTitle line
      let step ← parseStep number title (line :: stepBody rest)
      let steps ← readSteps rest
      return step :: steps

theorem collectSteps_eq (lines : List Text) : collectSteps lines lines.zipIdx = readSteps lines := by
  suffices h : ∀ ls pre, collectSteps (pre ++ ls) (ls.zipIdx pre.length) = readSteps ls from
    h lines []
  intro ls
  induction ls with
  | nil => exact fun _ => rfl
  | cons line rest ih =>
    intro pre
    have ih := ih (pre ++ [line])
    rw [List.length_append, List.length_singleton, List.append_assoc, List.singleton_append] at ih
    obtain ⟨title, htitle, hstep⟩ := stepAt_eq pre line rest
    rw [List.zipIdx_cons, collectSteps, hstep, ih, readSteps, htitle]
    cases headingNumber line with
    | none => cases readSteps rest <;> rfl
    | some number =>
      dsimp only [Option.bind_eq_bind, Option.bind_some]
      cases parseStep number title (line :: stepBody rest) with
      | none => rfl
      | some step => cases readSteps rest <;> rfl

/-- Lines without a heading have no step. -/
theorem readSteps_append {a : List Text} (ha : ∀ l ∈ a, headingNumber l = none) (b : List Text) :
    readSteps (a ++ b) = readSteps b := by
  induction a with
  | nil => rfl
  | cons line rest ih =>
    rw [List.cons_append, readSteps, ha line List.mem_cons_self]
    exact ih fun l hl => ha l (List.mem_cons_of_mem _ hl)

/-- There are as many steps as headings. -/
theorem length_readSteps {lines : List Text} {steps : List ParsedStep}
    (h : readSteps lines = some steps) :
    steps.length = (lines.filterMap headingNumber).length := by
  induction lines generalizing steps with
  | nil =>
    cases h
    rfl
  | cons line rest ih =>
    rw [readSteps] at h
    cases hnumber : headingNumber line with
    | none =>
      rw [hnumber] at h
      rw [List.filterMap_cons_none hnumber]
      exact ih h
    | some number =>
      rw [hnumber] at h
      simp only [Option.bind_eq_bind, Option.bind_eq_some_iff, Option.pure_def,
        Option.some.injEq] at h
      obtain ⟨_, -, step, -, steps', hrest, rfl⟩ := h
      rw [List.filterMap_cons_some hnumber, List.length_cons, List.length_cons, ih hrest]

/-! ## Tidy steps -/

/-- The commands of a step. -/
def ParsedStep.commands (s : ParsedStep) : List Text := s.verification.elim [] (·.commands)

def FileModification.Tidy (f : FileModification) : Prop := '\n' ∉ f.path ∧ '\n' ∉ f.description

/-- An unchecked item does not hold the mark of a checked one. -/
structure ChecklistItem.Tidy (item : ChecklistItem) : Prop where
  line : '\n' ∉ item.text
  trimmed : trim item.text = item.text
  unchecked : item.checked = false → ¬ contains item.text "[x]" ∧ ¬ contains item.text "[X]"

/-- A step whose texts were read in unmarked lines. -/
structure ParsedStep.Tidy (s : ParsedStep) : Prop where
  title : '\n' ∉ s.title ∧ trim s.title = s.title
  description : trim s.description = s.description
  descriptionLines : ∀ l ∈ (lines s.description).tail, Unmarked l
  files : ∀ f ∈ s.filesToModify, f.Tidy
  commandLines : ∀ cmd ∈ s.commands, ∀ l ∈ lines (cmd ++ ['\n']), Unmarked l
  checklist : ∀ item ∈ s.checklist, item.Tidy

theorem infix_notMem {a b : Text} (h : a <:+: b) {c : Char} (hb : c ∉ b) : c ∉ a :=
  fun hc => hb (h.subset hc)

theorem checklistItem_tidy {line : Text} (hline : '\n' ∉ line) {item : ChecklistItem}
    (h : checklistItem line = some item) : item.Tidy := by
  obtain ⟨rest, hrest, rfl⟩ := Option.map_eq_some_iff.mp h
  have hinfix : trim (trimStartMatches ']' rest) <:+: line :=
    ((infix_trim _).trans (List.dropWhile_suffix _).isInfix).trans (infix_of_sliceFrom hrest)
  refine ⟨infix_notMem hinfix hline, trim_trim _, fun hchecked => ?_⟩
  obtain ⟨hx, hX⟩ := not_or.mp (of_decide_eq_false hchecked)
  exact ⟨fun h => hx (List.IsInfix.trans h hinfix), fun h => hX (List.IsInfix.trans h hinfix)⟩

theorem extractFileModification_tidy {line : Text} (hline : '\n' ∉ line) {path desc : Text}
    (h : extractFileModification line = some (some (path, desc))) :
    FileModification.Tidy { path, description := desc } := by
  unfold extractFileModification at h
  split at h
  · cases h
  · next endBacktick hfind =>
    simp only [Option.bind_eq_bind, Option.bind_eq_some_iff] at h
    obtain ⟨path', hpath, rest, hrest, h⟩ := h
    have hpath' : path' <:+: line := by
      rw [slice] at hpath
      split_ifs at hpath
      obtain ⟨u, hu, hpath⟩ := Option.bind_eq_some_iff.mp hpath
      exact (prefix_of_sliceTo hpath).isInfix.trans (infix_of_sliceFrom hu)
    have hrest' := infix_of_sliceFrom hrest
    have hdesc {sep : Char} {pos : ℕ} {tail : Text} (htail : sliceFrom rest pos = some tail) :
        trimStart (trimStartMatches sep tail) <:+: line :=
      (((List.dropWhile_suffix _).trans (List.dropWhile_suffix _)).isInfix.trans
        (infix_of_sliceFrom htail)).trans hrest'
    have htidy {d : Text} (hd : d <:+: line) (heq : (path', d) = (path, desc)) :
        FileModification.Tidy { path, description := desc } := by
      cases heq
      exact ⟨infix_notMem hpath' hline, infix_notMem hd hline⟩
    split at h
    · simp only [Option.bind_eq_some_iff, Option.pure_def, Option.some.injEq] at h
      obtain ⟨tail, htail, heq⟩ := h
      exact htidy (hdesc htail) heq
    · split at h
      · simp only [Option.bind_eq_some_iff, Option.pure_def, Option.some.injEq] at h
        obtain ⟨tail, htail, heq⟩ := h
        exact htidy (hdesc htail) heq
      · simp only [Option.pure_def, Option.some.injEq] at h
        exact htidy ((infix_trim rest).trans hrest') h

/-- What `parse_step` has read so far came from unmarked lines. -/
structure StepScan.Tidy (s : StepScan) : Prop where
  files : ∀ f ∈ s.filesToModify, f.Tidy
  checklist : ∀ item ∈ s.checklist, item.Tidy
  descLines : ∀ l ∈ s.descLines, '\n' ∉ l ∧ Unmarked l
  verifyLines : ∀ l ∈ s.verifyLines, '\n' ∉ l ∧ Unmarked l

theorem forall_mem_concat {α : Type} {P : α → Prop} {xs : List α} {x : α} (hxs : ∀ y ∈ xs, P y)
    (hx : P x) : ∀ y ∈ xs ++ [x], P y := by
  intro y hy
  rcases List.mem_append.mp hy with hy | hy
  · exact hxs y hy
  · exact List.mem_singleton.mp hy ▸ hx

theorem StepScan.Tidy.body {s s' : StepScan} (hs : s.Tidy) {line : Text}
    (hline : '\n' ∉ line ∧ Unmarked line) (h : s.body line = some s') : s'.Tidy := by
  cases StepScan.reads_of_body h with
  | skipped _ => exact hs
  | opening _ _ => exact { hs with descLines := forall_mem_concat hs.descLines hline }
  | description _ => exact { hs with descLines := forall_mem_concat hs.descLines hline }
  | fenced _ => exact { hs with verifyLines := forall_mem_concat hs.verifyLines hline }
  | item _ hitem =>
    exact { hs with checklist := forall_mem_concat hs.checklist (checklistItem_tidy hline.1 hitem) }
  | file _ hfile =>
    exact { hs with
      files := forall_mem_concat hs.files (extractFileModification_tidy hline.1 hfile) }

theorem StepScan.Tidy.scanStep {lines : List Text}
    (hlines : ∀ l ∈ lines, '\n' ∉ l ∧ ¬ isBoundary l) {s s' : StepScan} (hs : s.Tidy)
    (h : scanStep lines s = some s') : s'.Tidy := by
  induction lines generalizing s with
  | nil =>
    cases h
    exact hs
  | cons line rest ih =>
    have ih {s : StepScan} (hs : s.Tidy) := ih (fun l hl => hlines l (List.mem_cons_of_mem _ hl)) hs
    obtain ⟨hnl, hline⟩ := hlines line List.mem_cons_self
    obtain ⟨-, -, t, -, hfiles, hchecklist, hdesc, hverify, hrun⟩ | ⟨mode, -, hrun⟩ | ⟨hmarker, hrun⟩ :=
      scanStep_cons hline rest s
    · rw [hrun] at h
      exact ih ⟨hfiles ▸ hs.files, hchecklist ▸ hs.checklist, hdesc ▸ hs.descLines,
        hverify ▸ hs.verifyLines⟩ h
    · rw [hrun] at h
      refine ih ?_ h
      exact ⟨hs.files, hs.checklist, hs.descLines, hs.verifyLines⟩
    · rw [hrun] at h
      obtain ⟨t, hbody, hrest⟩ := Option.bind_eq_some_iff.mp h
      exact ih (hs.body ⟨hnl, hline, hmarker⟩ hbody) hrest

/-- A command is joined from lines. -/
def JoinedFrom (lines : List Text) (cmd : Text) : Prop :=
  ∃ ls, ls ≠ [] ∧ cmd = join "\n" ls ∧ ∀ l ∈ ls, l ∈ lines

theorem BlockScan.flush_joined {all : List Text} {s : BlockScan}
    (hs : (∀ cmd ∈ s.commands, JoinedFrom all cmd) ∧ ∀ l ∈ s.currentCmd, l ∈ all) :
    ∀ cmd ∈ s.flush.commands, JoinedFrom all cmd := by
  unfold BlockScan.flush
  split_ifs with h
  · exact hs.1
  · exact forall_mem_concat hs.1 ⟨s.currentCmd, h, rfl, hs.2⟩

theorem BlockScan.line_joined {all : List Text} {s : BlockScan}
    (hs : (∀ cmd ∈ s.commands, JoinedFrom all cmd) ∧ ∀ l ∈ s.currentCmd, l ∈ all) {line : Text}
    (hline : line ∈ all) (idx : ℕ) : (∀ cmd ∈ (s.line idx line).commands, JoinedFrom all cmd) ∧
      ∀ l ∈ (s.line idx line).currentCmd, l ∈ all := by
  have hflush := BlockScan.flush_joined hs
  unfold BlockScan.line
  split_ifs
  · refine ⟨hflush, ?_⟩
    unfold BlockScan.flush
    split_ifs with h
    · exact hs.2
    · exact fun l hl => (List.not_mem_nil hl).elim
  · exact ⟨hs.1, fun l hl => (List.not_mem_nil hl).elim⟩
  · exact ⟨hs.1, forall_mem_concat hs.2 hline⟩
  all_goals exact hs

/-- The commands of a block are joined from its lines. -/
theorem parseVerificationBlock_joined (lines : List Text) :
    ∀ cmd ∈ (parseVerificationBlock lines).commands, JoinedFrom lines cmd := by
  suffices h : ∀ (entries : List (Text × ℕ)) (s : BlockScan), (∀ e ∈ entries, e.1 ∈ lines) →
      ((∀ cmd ∈ s.commands, JoinedFrom lines cmd) ∧ ∀ l ∈ s.currentCmd, l ∈ lines) →
      ∀ cmd ∈ (entries.foldl (fun s (line, idx) => BlockScan.line s idx line) s).flush.commands,
        JoinedFrom lines cmd from
    h lines.zipIdx {} (fun _ he => List.fst_mem_of_mem_zipIdx he)
      ⟨fun _ h => (List.not_mem_nil h).elim, fun _ h => (List.not_mem_nil h).elim⟩
  intro entries
  induction entries with
  | nil => exact fun s _ hs => BlockScan.flush_joined hs
  | cons entry rest ih =>
    intro s hentries hs
    exact ih _ (fun e he => hentries e (List.mem_cons_of_mem _ he))
      (BlockScan.line_joined hs (hentries entry List.mem_cons_self) entry.2)

theorem StepScan.Tidy.step {s : StepScan} (hs : s.Tidy) (number : UInt32) {title : Text}
    (htitle : '\n' ∉ title ∧ trim title = title) : (s.step number title).Tidy where
  title := htitle
  description := trim_trim _
  descriptionLines := by
    intro l hl
    obtain ⟨l', hl', hpre⟩ := exists_of_mem_tail_trim_join (fun l hl => (hs.descLines l hl).1) hl
    exact (hs.descLines l' hl').2.mono hpre
  files := hs.files
  commandLines := by
    intro cmd hcmd l hl
    have hjoined : JoinedFrom s.verifyLines cmd := by
      rw [ParsedStep.commands, StepScan.step] at hcmd
      split_ifs at hcmd
      · cases hcmd
      · exact parseVerificationBlock_joined _ cmd hcmd
    obtain ⟨ls, hne, rfl, hls⟩ := hjoined
    rw [lines_join (fun l hl => (hs.verifyLines l (hls l hl)).1) hne] at hl
    obtain ⟨l', hl', rfl⟩ := List.mem_map.mp hl
    exact (hs.verifyLines l' (hls l' hl')).2.mono (prefix_chomp l')
  checklist := hs.checklist

theorem extractStepTitle_tidy {line : Text} (hline : '\n' ∉ line) {title : Text}
    (h : extractStepTitle line = some title) : '\n' ∉ title ∧ trim title = title := by
  unfold extractStepTitle at h
  split at h
  · obtain ⟨rest, hrest, rfl⟩ := Option.map_eq_some_iff.mp h
    exact ⟨infix_notMem ((infix_trim rest).trans (infix_of_sliceFrom hrest)) hline, trim_trim rest⟩
  · cases h
    exact ⟨List.not_mem_nil, rfl⟩

theorem readSteps_tidy {lines : List Text} (hlines : ∀ l ∈ lines, '\n' ∉ l)
    {steps : List ParsedStep} (h : readSteps lines = some steps) : ∀ s ∈ steps, s.Tidy := by
  induction lines generalizing steps with
  | nil =>
    cases h
    exact fun s hs => (List.not_mem_nil hs).elim
  | cons line rest ih =>
    have hrest : ∀ l ∈ rest, '\n' ∉ l := fun l hl => hlines l (List.mem_cons_of_mem _ hl)
    rw [readSteps] at h
    cases hnumber : headingNumber line with
    | none =>
      rw [hnumber] at h
      exact ih hrest h
    | some number =>
      rw [hnumber] at h
      simp only [Option.bind_eq_bind, Option.bind_eq_some_iff, Option.pure_def,
        Option.some.injEq] at h
      obtain ⟨title, htitle, step, hstep, steps', hsteps, rfl⟩ := h
      obtain ⟨s, hscan, rfl⟩ := Option.map_eq_some_iff.mp hstep
      have htidy : s.Tidy := by
        refine StepScan.Tidy.scanStep (fun l hl => ?_) ?_ hscan
        · exact ⟨hrest l (List.takeWhile_subset _ hl), not_isBoundary_of_mem_stepBody hl⟩
        · constructor <;> exact fun _ h => (List.not_mem_nil h).elim
      intro t ht
      rcases List.mem_cons.mp ht with rfl | ht
      · exact htidy.step number (extractStepTitle_tidy (hlines line List.mem_cons_self) htitle)
      · exact ih hrest hsteps t ht

theorem extractSteps_eq (lines : List Text) : ∃ e, extractSteps lines =
    (readSteps lines).map fun steps => if steps = [] then .error e else .ok steps := by
  refine ⟨.missingSection "steps".toList
    ["### Step 1: ...".toList, "### Step N: ...".toList], ?_⟩
  rw [extractSteps, collectSteps_eq]
  cases readSteps lines with
  | none => rfl
  | some steps =>
    rw [Option.bind_eq_bind, Option.bind_some, Option.map_some]
    exact (apply_ite some _ _ _).symm

/-- The steps of a parsed handoff are those of its lines, and the required sections are there. -/
theorem parseHandoff_ok_iff (U : Unicode) {content : Text} {steps : List ParsedStep} :
    (∃ h, parseHandoff U content = some (.ok h) ∧ h.steps = steps) ↔
      HasRequiredSections U (lines content) ∧ readSteps (lines content) = some steps ∧
        steps ≠ [] := by
  by_cases hsections : HasRequiredSections U (lines content)
  · obtain ⟨title, metadata, state, -, -, hrun⟩ := parseHandoff_required U hsections
    obtain ⟨e, hsteps⟩ := extractSteps_eq (lines content)
    rw [hrun, hsteps, Option.map_map, and_iff_right hsections]
    constructor
    · rintro ⟨h, hmap, rfl⟩
      obtain ⟨read, hread, heq⟩ := Option.map_eq_some_iff.mp hmap
      rw [Function.comp_apply] at heq
      split_ifs at heq with hnil
      · cases heq
      · cases heq
        exact ⟨hread, hnil⟩
    · rintro ⟨hread, hne⟩
      rw [hread, Option.map_some, Function.comp_apply, if_neg hne]
      exact ⟨_, rfl, rfl⟩
  · obtain ⟨e, hrefused⟩ := parseHandoff_refused U hsections
    rw [hrefused]
    refine iff_of_false ?_ fun h => hsections h.1
    rintro ⟨h, herror, -⟩
    cases herror

theorem extractTitle_tidy {lines : List Text} (hlines : ∀ l ∈ lines, '\n' ∉ l) {title : Text}
    (h : extractTitle lines = .ok title) : '\n' ∉ title := by
  induction lines with
  | nil => cases h
  | cons line rest ih =>
    rw [extractTitle] at h
    cases hstrip : stripPrefix line "# " with
    | none =>
      rw [hstrip] at h
      exact ih (fun l hl => hlines l (List.mem_cons_of_mem _ hl)) h
    | some u =>
      rw [hstrip] at h
      cases h
      have hline := hlines line List.mem_cons_self
      rw [stripPrefix_eq_some.mp hstrip] at hline
      exact infix_notMem ((infix_trim u).trans (List.suffix_append _ _).isInfix) hline

/-- The fields of the metadata that are written again. -/
def HandoffMetadata.Tidy (metadata : HandoffMetadata) : Prop :=
  '\n' ∉ metadata.owningRepo ∧ '\n' ∉ metadata.verificationContract

theorem HandoffMetadata.Tidy.set (U : Unicode) {metadata : HandoffMetadata} (h : metadata.Tidy)
    {value : Text} (hvalue : '\n' ∉ value) (key : Text) : (metadata.set U key value).Tidy := by
  have howning := infix_notMem (infix_trimMatches '`' value) hvalue
  unfold HandoffMetadata.set
  split_ifs <;> first | exact h | exact ⟨howning, h.2⟩ | exact ⟨h.1, hvalue⟩

theorem parseMetadataLine_tidy {line : Text} (hline : '\n' ∉ line) {entry : Text × Text}
    (h : parseMetadataLine line = some (some entry)) : '\n' ∉ entry.2 := by
  unfold parseMetadataLine at h
  split at h
  · cases h
  · next rest hstrip =>
    split at h
    · cases h
    · simp only [Option.bind_eq_bind, Option.bind_eq_some_iff, Option.pure_def,
        Option.some.injEq] at h
      obtain ⟨key, -, value, hvalue, rfl⟩ := h
      rw [stripPrefix_eq_some.mp hstrip] at hline
      exact infix_notMem (((infix_trim value).trans (infix_of_sliceFrom hvalue)).trans
        (List.suffix_append _ _).isInfix) hline

theorem extractMetadata_tidy (U : Unicode) {lines : List Text} (hlines : ∀ l ∈ lines, '\n' ∉ l)
    {metadata : HandoffMetadata} (h : extractMetadata U lines = some (some metadata)) :
    metadata.Tidy := by
  have hblock : ∀ l ∈ metadataLines lines false, '\n' ∉ l := by
    suffices hs : ∀ ls inMetadata, ∀ l ∈ metadataLines ls inMetadata, l ∈ ls from
      fun l hl => hlines l (hs lines false l hl)
    intro ls inMetadata l hl
    fun_induction metadataLines ls inMetadata <;> grind
  have hread : ∀ (ls : List Text) (m : HandoffMetadata), (∀ l ∈ ls, '\n' ∉ l) → m.Tidy →
      readMetadata U ls m = some metadata → metadata.Tidy := by
    intro ls
    induction ls with
    | nil =>
      intro m _ hm h
      cases h
      exact hm
    | cons line rest ih =>
      intro m hls hm h
      have ih := fun m => ih m fun l hl => hls l (List.mem_cons_of_mem _ hl)
      rw [readMetadata] at h
      cases hparse : parseMetadataLine line with
      | none => exact absurd hparse (parseMetadataLine_ne_none line)
      | some entry =>
        rw [hparse] at h
        cases entry with
        | none => exact ih m hm h
        | some entry =>
          exact ih _ (hm.set U (parseMetadataLine_tidy (hls line List.mem_cons_self) hparse) _) h
  unfold extractMetadata at h
  split at h
  · cases h
  · next line rest hmetadata =>
    obtain ⟨m, hm, heq⟩ := Option.map_eq_some_iff.mp h
    cases heq
    exact hread _ {} (hmetadata ▸ hblock) ⟨List.not_mem_nil, List.not_mem_nil⟩ hm

/-- The texts of a parsed handoff come from single lines. -/
theorem parseHandoff_tidy (U : Unicode) {content : Text} {h : ParsedHandoff}
    (hparse : parseHandoff U content = some (.ok h)) :
    '\n' ∉ h.title ∧ (∀ metadata ∈ h.metadata, metadata.Tidy) ∧ ∀ s ∈ h.steps, s.Tidy := by
  have hlines : ∀ l ∈ lines content, '\n' ∉ l := fun _ => notMem_of_mem_lines
  by_cases hsections : HasRequiredSections U (lines content)
  · obtain ⟨title, metadata, state, htitle, hmetadata, hrun⟩ := parseHandoff_required U hsections
    obtain ⟨e, hextract⟩ := extractSteps_eq (lines content)
    rw [hrun, hextract, Option.map_map] at hparse
    obtain ⟨steps, hsteps, heq⟩ := Option.map_eq_some_iff.mp hparse
    rw [Function.comp_apply] at heq
    split_ifs at heq
    · cases heq
    · cases heq
      refine ⟨extractTitle_tidy hlines htitle, fun m hm => ?_, readSteps_tidy hlines hsteps⟩
      exact extractMetadata_tidy U hlines (hmetadata.trans (congrArg some hm))
  · obtain ⟨e, hrefused⟩ := parseHandoff_refused U hsections
    rw [hrefused] at hparse
    cases hparse

end Hymenium
