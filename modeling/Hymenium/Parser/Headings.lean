import Hymenium.Parser.Reading

/-!
# Headings

What the headings of a document decide: where its sections open, and how many steps it has.

1. Sections: `extract_section_by_type` tests every line against the aliases of the section, by its
   normalised text. A line of prose can open a section, and inside of it such a line is dropped, or
   keeps the section open where it should end; `sectionKept_iff` says in which documents this changes
   nothing. A blank line is an empty one here, as for the source, and the fences of a section are
   counted from its heading on.
2. Steps: a step heading whose number is missing, or does not fit 32 bits, is passed over
   (`stepsKept_iff`).
-/

namespace Hymenium

open Text

variable (U : Unicode)

/-! ## What a section is -/

/-- A heading of a section: a second-level heading with an accepted name. -/
def IsHeading (sectionType : SectionType) (line : Text) : Prop :=
  startsWith line "## " ∧ opens U sectionType line = true

/-- Whether the line after `line` stands inside a fence. -/
def nextFence (inFence : Bool) (line : Text) : Bool :=
  if startsWith line "```" then !inFence else inFence

/-- The number of lines up to the first boundary outside fences. -/
def bodyLength : List Text → (inFence : Bool) → ℕ
  | [], _ => 0
  | line :: rest, inFence =>
    if ¬ inFence ∧ isBoundary line then 0
    else bodyLength rest (nextFence inFence line) + 1

/-- The lines of a section that are kept: those inside fences, and the others that are not empty. -/
def keptLines : List Text → (inFence : Bool) → List Text
  | [], _ => []
  | line :: rest, inFence =>
    if ¬ inFence ∧ isBoundary line then []
    else if inFence ∨ line ≠ [] then line :: keptLines rest (nextFence inFence line)
    else keptLines rest (nextFence inFence line)

/-- The section of a type in a document, as the parser extracts it. -/
def readSection (content : Text) (sectionType : SectionType) :
    Option (Except ParseError Text) := do
  let aliases ← buildSectionAliases U
  extractSectionByType U (lines content) sectionType aliases

/-- The line `line` is the first one that the parser takes for a heading of the section. -/
structure OpensAt (sectionType : SectionType) (content : Text) (pre : List Text) (line : Text)
    (rest : List Text) : Prop where
  split : lines content = pre ++ line :: rest
  before : ∀ l ∈ pre, opens U sectionType l = false
  found : opens U sectionType line = true

/-- The section opens at a heading, and its text is what the document has there. -/
structure SectionKept (sectionType : SectionType) (content : Text) : Prop where
  opened : ∀ pre line rest, OpensAt U sectionType content pre line rest → startsWith line "## "
  kept : ∀ text, readSection U content sectionType = some (.ok text) →
    ∃ pre heading rest, lines content = pre ++ heading :: rest ∧
      (∀ l ∈ pre, ¬ IsHeading U sectionType l) ∧ IsHeading U sectionType heading ∧
      text = trim (join "\n" (keptLines rest false))

/-! ## When it is kept -/

/-- No text stands before the next boundary, lines that look like a heading of the section apart. -/
def NoText (sectionType : SectionType) (rest : List Text) : Prop :=
  ∀ l ∈ rest.find? (fun l => decide (¬ Blank l) && !opens U sectionType l), isBoundary l

/-- No line of the section looks like its heading, and where the section ends at a line that does, no
text follows. -/
structure Unbroken (sectionType : SectionType) (rest : List Text) : Prop where
  body : ∀ l ∈ rest.take (bodyLength rest false), opens U sectionType l = false
  again : ∀ line after, rest.drop (bodyLength rest false) = line :: after →
    opens U sectionType line = true → NoText U sectionType after

/-! ## The collected lines -/

theorem opens_trim (sectionType : SectionType) (line : Text) :
    opens U sectionType (trim line) = opens U sectionType line := by
  have hbare : bareHeading (trim line) = bareHeading line := by
    rw [bareHeading, bareHeading, trim_trim]
  rw [opens, opens, headingKey, headingKey, headingName, headingName, hbare]

theorem opens_blank {sectionType : SectionType} {line : Text} (h : Blank line) :
    opens U sectionType line = false := by
  rw [← opens_trim, trim_eq_nil.mpr h, opens_ascii U sectionType fun c hc => by cases hc]
  cases sectionType <;> decide

theorem not_blank_of_startsWith {line : Text} {pat : String} (h : startsWith line pat)
    (hpat : ∃ c ∈ pat.toList, isWhitespace c = false) : ¬ Blank line := by
  obtain ⟨c, hmem, hc⟩ := hpat
  intro hblank
  rw [hblank c (h.subset hmem)] at hc
  cases hc

theorem not_blank_of_isBoundary {line : Text} (h : isBoundary line) : ¬ Blank line := by
  rcases h with h | h | h
  · exact not_blank_of_startsWith h ⟨'#', by decide, rfl⟩
  · exact not_blank_of_startsWith h ⟨'#', by decide, rfl⟩
  · exact not_blank_of_startsWith h ⟨'-', by decide, rfl⟩

theorem nextFence_blank {line : Text} (h : Blank line) (inFence : Bool) :
    nextFence inFence line = inFence :=
  if_neg fun hfence => not_blank_of_startsWith hfence ⟨'`', by decide, rfl⟩ h

section Collected

variable {heads : Text → Bool}

theorem not_heads_of_mem_sectionLines {ls : List Text} {inSection inCodeBlock : Bool} {l : Text}
    (h : l ∈ sectionLines heads ls inSection inCodeBlock) : heads l = false := by
  induction ls generalizing inSection inCodeBlock with
  | nil => cases h
  | cons line rest ih =>
    have hcons {b : Bool} (hhead : ¬ heads line = true)
        (hl : l ∈ line :: sectionLines heads rest true b) : heads l = false := by
      rcases List.mem_cons.mp hl with rfl | hl
      · exact Bool.eq_false_iff.mpr hhead
      · exact ih hl
    rw [sectionLines] at h
    split_ifs at h with hhead
    · exact ih h
    · cases h
    · exact hcons hhead h
    · exact hcons hhead h
    · exact ih h
    · exact ih h

theorem sectionLines_subset {ls : List Text} {inSection inCodeBlock : Bool} :
    sectionLines heads ls inSection inCodeBlock ⊆ ls := by
  induction ls generalizing inSection inCodeBlock with
  | nil => exact fun _ h => h
  | cons line rest ih =>
    rw [sectionLines]
    split_ifs
    · exact List.subset_cons_of_subset _ ih
    · exact List.nil_subset _
    · exact List.cons_subset_cons _ ih
    · exact List.cons_subset_cons _ ih
    · exact List.subset_cons_of_subset _ ih
    · exact List.subset_cons_of_subset _ ih

theorem keptLines_subset {ls : List Text} {inFence : Bool} : keptLines ls inFence ⊆ ls := by
  induction ls generalizing inFence with
  | nil => exact fun _ h => h
  | cons line rest ih =>
    rw [keptLines]
    split_ifs
    · exact List.nil_subset _
    · exact List.cons_subset_cons _ ih
    · exact List.subset_cons_of_subset _ ih

theorem mem_keptLines {ls : List Text} {inFence : Bool} {l : Text}
    (h : l ∈ ls.take (bodyLength ls inFence)) (hne : l ≠ []) : l ∈ keptLines ls inFence := by
  induction ls generalizing inFence with
  | nil => rw [List.take_nil] at h; cases h
  | cons line rest ih =>
    rw [bodyLength] at h
    rw [keptLines]
    split_ifs at h ⊢ with hend hkeep
    · rw [List.take_zero] at h
      cases h
    · rw [List.take_succ_cons] at h
      rcases List.mem_cons.mp h with rfl | h
      · exact List.mem_cons_self
      · exact List.mem_cons_of_mem _ (ih h)
    · rw [List.take_succ_cons] at h
      rcases List.mem_cons.mp h with rfl | h
      · exact absurd (.inr hne) hkeep
      · exact ih h

/-- One line of an open section. -/
theorem sectionLines_inside {line : Text} {rest : List Text} {inFence : Bool}
    (hhead : heads line = false) (hend : ¬ (¬ inFence ∧ isBoundary line)) :
    sectionLines heads (line :: rest) true inFence =
      if inFence ∨ line ≠ [] then line :: sectionLines heads rest true (nextFence inFence line)
      else sectionLines heads rest true (nextFence inFence line) := by
  rw [sectionLines, hhead, if_neg Bool.false_ne_true, if_pos rfl, if_neg hend, nextFence]
  by_cases hfence : startsWith line "```"
  · have hne : line ≠ [] := by
      rintro rfl
      exact absurd (List.prefix_nil.mp hfence) (by decide)
    rw [if_pos hfence, if_pos hfence, if_pos (.inr hne)]
  · rw [if_neg hfence, if_neg hfence]

/-- A section whose body has no line like its heading keeps the body, and goes on only at a boundary
that looks like its heading. -/
theorem sectionLines_body {ls : List Text} {inFence : Bool}
    (h : ∀ l ∈ ls.take (bodyLength ls inFence), heads l = false) :
    sectionLines heads ls true inFence = keptLines ls inFence ++
      match ls.drop (bodyLength ls inFence) with
      | [] => []
      | line :: after => if heads line then sectionLines heads after true false else [] := by
  induction ls generalizing inFence with
  | nil => rfl
  | cons line rest ih =>
    rw [bodyLength] at h ⊢
    rw [keptLines]
    by_cases hend : ¬ inFence ∧ isBoundary line
    · obtain rfl : inFence = false := Bool.eq_false_iff.mpr hend.1
      rw [sectionLines, if_pos hend, if_pos hend, if_pos hend, List.drop_zero, List.nil_append,
        if_pos rfl]
    · rw [if_neg hend, List.take_succ_cons, List.forall_mem_cons] at h
      rw [sectionLines_inside h.1 hend, ih h.2, if_neg hend, if_neg hend, List.drop_succ_cons]
      split_ifs
      · rfl
      · rfl

/-- The lines of an open section are blank when no text stands before the next boundary. -/
theorem forall_blank_iff (ls : List Text) :
    (∀ l ∈ sectionLines heads ls true false, Blank l) ↔
      ∀ l ∈ ls.find? (fun l => decide (¬ Blank l) && !heads l), isBoundary l := by
  induction ls with
  | nil => exact iff_of_true (fun _ h => by cases h) (fun _ h => by cases h)
  | cons line rest ih =>
    by_cases hhead : heads line = true
    · rw [sectionLines, if_pos hhead, List.find?_cons_of_neg (by simp [hhead])]
      exact ih
    have hhead : heads line = false := Bool.eq_false_iff.mpr hhead
    by_cases hblank : Blank line
    · have hend : ¬ (¬ (false = true) ∧ isBoundary line) :=
        fun h => not_blank_of_isBoundary h.2 hblank
      rw [sectionLines_inside hhead hend, nextFence_blank hblank,
        List.find?_cons_of_neg (by simp [hblank]), ← ih]
      by_cases hkeep : false = true ∨ line ≠ []
      · rw [if_pos hkeep, List.forall_mem_cons, and_iff_right hblank]
      · rw [if_neg hkeep]
    · rw [List.find?_cons_of_pos (by simp [hblank, hhead])]
      simp only [Option.mem_some_iff, forall_eq']
      by_cases hend : isBoundary line
      · rw [sectionLines, if_neg (Bool.eq_false_iff.mp hhead), if_pos rfl,
          if_pos ⟨Bool.false_ne_true, hend⟩]
        exact iff_of_true (fun _ h => by cases h) hend
      · have hne : line ≠ [] := by
          rintro rfl
          exact hblank fun _ h => by cases h
        rw [sectionLines_inside hhead fun h => hend h.2, if_pos (.inr hne)]
        exact iff_of_false (fun h => hblank (h line List.mem_cons_self)) hend

end Collected

/-! ## Kept sections -/

theorem readSection_eq (content : Text) (sectionType : SectionType) :
    readSection U content sectionType =
      some (if sectionText U sectionType (lines content) = [] then
        .error (.missingSection (sectionNameForType sectionType)
          (getAliasesForSection sectionType))
      else .ok (sectionText U sectionType (lines content))) := by
  obtain ⟨aliases, hbuild, haliases⟩ := exists_aliases U
  rw [readSection, hbuild]
  exact extractSectionByType_eq U haliases _ _

theorem readSection_eq_ok_iff {content : Text} {sectionType : SectionType} {text : Text} :
    readSection U content sectionType = some (.ok text) ↔
      sectionText U sectionType (lines content) = text ∧ text ≠ [] := by
  rw [readSection_eq]
  split_ifs with hnil
  · refine iff_of_false (by simp) ?_
    rintro ⟨rfl, hne⟩
    exact hne hnil
  · constructor
    · rintro ⟨⟩
      exact ⟨rfl, hnil⟩
    · rintro ⟨rfl, -⟩
      rfl

/-- A list has at most one first element with a property. -/
theorem first_unique {α : Type} {p : α → Prop} {xs : List α} {pre pre' rest rest' : List α}
    {x x' : α} (h : xs = pre ++ x :: rest) (h' : xs = pre' ++ x' :: rest') (hpre : ∀ y ∈ pre, ¬ p y)
    (hpre' : ∀ y ∈ pre', ¬ p y) (hx : p x) (hx' : p x') : pre = pre' ∧ x = x' ∧ rest = rest' := by
  subst h
  induction pre generalizing pre' with
  | nil =>
    cases pre' with
    | nil =>
      obtain ⟨rfl, rfl⟩ := List.cons.inj h'
      exact ⟨rfl, rfl, rfl⟩
    | cons y pre' =>
      obtain ⟨rfl, -⟩ := List.cons.inj h'
      exact absurd hx (hpre' _ List.mem_cons_self)
  | cons y pre ih =>
    cases pre' with
    | nil =>
      obtain ⟨rfl, -⟩ := List.cons.inj h'
      exact absurd hx' (hpre _ List.mem_cons_self)
    | cons z pre' =>
      obtain ⟨rfl, htail⟩ := List.cons.inj h'
      obtain ⟨rfl, rfl, rfl⟩ := ih (fun w hw => hpre w (List.mem_cons_of_mem _ hw))
        (fun w hw => hpre' w (List.mem_cons_of_mem _ hw)) htail
      exact ⟨rfl, rfl, rfl⟩

variable {U} {sectionType : SectionType} {content : Text} {pre : List Text} {line : Text}
  {rest : List Text}

theorem exists_opensAt_of_text (h : sectionText U sectionType (lines content) ≠ []) :
    ∃ pre line rest, OpensAt U sectionType content pre line rest := by
  by_contra hnone
  have hno : ∀ l ∈ lines content, opens U sectionType l = false := by
    intro l hl
    by_contra hopen
    have hfind : ((lines content).find? (opens U sectionType)).isSome := by
      rw [List.find?_isSome]
      exact ⟨l, hl, by simpa using hopen⟩
    obtain ⟨l', hl'⟩ := Option.isSome_iff_exists.mp hfind
    obtain ⟨hopen', pre, rest, hsplit, hpre⟩ := List.find?_eq_some_iff_append.mp hl'
    exact hnone ⟨pre, l', rest, hsplit, by simpa using hpre, hopen'⟩
  have hlines := sectionLines_append hno []
  rw [List.append_nil] at hlines
  rw [sectionText, hlines] at h
  exact h rfl

theorem OpensAt.sectionLines_eq (h : OpensAt U sectionType content pre line rest) :
    sectionLines (opens U sectionType) (lines content) false false =
      sectionLines (opens U sectionType) rest true false := by
  rw [h.split, sectionLines_append h.before, sectionLines, if_pos h.found]

/-- Without text the section is missing. -/
theorem OpensAt.text_eq_nil_iff (h : OpensAt U sectionType content pre line rest) :
    sectionText U sectionType (lines content) = [] ↔ NoText U sectionType rest := by
  rw [sectionText, h.sectionLines_eq, trim_eq_nil, blank_join]
  exact forall_blank_iff rest

theorem Unbroken.text (h : OpensAt U sectionType content pre line rest)
    (hund : Unbroken U sectionType rest) :
    sectionText U sectionType (lines content) = trim (join "\n" (keptLines rest false)) := by
  rw [sectionText, h.sectionLines_eq, sectionLines_body hund.body]
  refine trim_join_append _ ?_
  cases hdrop : rest.drop (bodyLength rest false) with
  | nil => exact fun _ hl => by cases hl
  | cons again after =>
    dsimp only
    split_ifs with hopen
    · exact (forall_blank_iff after).mpr (hund.again again after hdrop hopen)
    · exact fun _ hl => by cases hl

/-- Where the text is the one that the section has, nothing breaks it. -/
theorem unbroken_of_text (h : OpensAt U sectionType content pre line rest)
    (htext : sectionText U sectionType (lines content) =
      trim (join "\n" (keptLines rest false))) : Unbroken U sectionType rest := by
  have hnl : ∀ l ∈ rest, '\n' ∉ l := fun l hl =>
    notMem_of_mem_lines (t := content) (by rw [h.split]; simp [hl])
  rw [sectionText, h.sectionLines_eq] at htext
  have hinked := congrArg inkedLines htext
  rw [inkedLines_trim, inkedLines_trim, inkedLines_join fun l hl => hnl l (sectionLines_subset hl),
    inkedLines_join fun l hl => hnl l (keptLines_subset hl)] at hinked
  have hbody : ∀ l ∈ rest.take (bodyLength rest false), opens U sectionType l = false := by
    intro l hl
    by_contra hopen
    have hopen : opens U sectionType l = true := by simpa using hopen
    have hblank : ¬ Blank l := fun hb => by
      rw [opens_blank U hb] at hopen
      cases hopen
    have hne : l ≠ [] := by
      rintro rfl
      exact hblank fun _ hc => by cases hc
    have hmem : trim l ∈ ((keptLines rest false).map trim).filter (· ≠ []) :=
      List.mem_filter.mpr ⟨List.mem_map_of_mem (mem_keptLines hl hne), by simpa [trim_eq_nil]⟩
    rw [← hinked] at hmem
    obtain ⟨l', hl', htrim⟩ := List.mem_map.mp (List.mem_of_mem_filter hmem)
    rw [← opens_trim, ← htrim, opens_trim, not_heads_of_mem_sectionLines hl'] at hopen
    cases hopen
  refine ⟨hbody, fun again after hdrop hopen => ?_⟩
  rw [sectionLines_body hbody, hdrop, List.map_append, List.filter_append] at hinked
  have hblank := List.append_right_eq_self.mp hinked
  refine (forall_blank_iff after).mp fun l hl => ?_
  by_contra hne
  have hmem : trim l ∈ ((sectionLines (opens U sectionType) after true false).map trim).filter
      (· ≠ []) :=
    List.mem_filter.mpr ⟨List.mem_map_of_mem hl, by simpa [trim_eq_nil]⟩
  dsimp only at hblank
  rw [if_pos hopen] at hblank
  rw [hblank] at hmem
  cases hmem

/-- **Sections.** A section opens at a heading and keeps its text if and only if the first line that
looks like its heading is one, and in what follows there is no text, or nothing breaks it. -/
theorem sectionKept_iff (U : Unicode) (sectionType : SectionType) (content : Text) :
    SectionKept U sectionType content ↔ ∀ pre line rest,
      OpensAt U sectionType content pre line rest → startsWith line "## " ∧
        (NoText U sectionType rest ∨ Unbroken U sectionType rest) := by
  constructor
  · intro hkept pre line rest hopens
    refine ⟨hkept.opened pre line rest hopens, ?_⟩
    by_cases hno : NoText U sectionType rest
    · exact .inl hno
    right
    have hne := mt hopens.text_eq_nil_iff.mp hno
    obtain ⟨pre', heading, rest', hsplit, hpre', hheading, htext⟩ :=
      hkept.kept _ ((readSection_eq_ok_iff U).mpr ⟨rfl, hne⟩)
    have hpre : ∀ l ∈ pre, ¬ IsHeading U sectionType l := fun l hl hh =>
      Bool.eq_false_iff.mp (hopens.before l hl) hh.2
    obtain ⟨rfl, rfl, rfl⟩ := first_unique hopens.split hsplit hpre hpre'
      ⟨hkept.opened pre line rest hopens, hopens.found⟩ hheading
    exact unbroken_of_text hopens htext
  · intro hall
    refine ⟨fun pre line rest hopens => (hall pre line rest hopens).1, fun text hread => ?_⟩
    obtain ⟨htext, hne⟩ := (readSection_eq_ok_iff U).mp hread
    rw [← htext] at hne
    obtain ⟨pre, line, rest, hopens⟩ := exists_opensAt_of_text hne
    obtain ⟨hline, hrest⟩ := hall pre line rest hopens
    refine ⟨pre, line, rest, hopens.split, fun l hl hh =>
      Bool.eq_false_iff.mp (hopens.before l hl) hh.2, ⟨hline, hopens.found⟩, ?_⟩
    have hund := hrest.resolve_left (mt hopens.text_eq_nil_iff.mpr hne)
    rw [← htext, hund.text hopens]

/-- A line of prose that reads like the name of the section opens it. -/
theorem prose_opens_section : ¬ ∀ (sectionType : SectionType) (content : Text),
    SectionKept .asciiTables sectionType content := by
  intro hclaim
  have hkept := hclaim .problem "# T\nProblem (open)\nx\n".toList
  have hopens : OpensAt .asciiTables .problem "# T\nProblem (open)\nx\n".toList ["# T".toList]
      "Problem (open)".toList ["x".toList] :=
    ⟨by decide +kernel, by decide +kernel, by decide +kernel⟩
  exact absurd (hkept.opened _ _ _ hopens) (by decide)

/-! ## Step headings -/

/-- A line that announces a step. -/
def IsStepHeading (line : Text) : Prop := startsWith line "### Step " ∧ contains line ":"

instance (line : Text) : Decidable (IsStepHeading line) :=
  inferInstanceAs (Decidable (startsWith line "### Step " ∧ contains line ":"))

def stepHeadings (content : Text) : List Text := (lines content).filter IsStepHeading

/-- The step was read at the heading `line`. -/
def ReadAt (step : ParsedStep) (line : Text) : Prop :=
  extractStepNumber line = some (some step.number) ∧ extractStepTitle line = some step.title

/-- The steps of a parsed document are those of its step headings, in their order, and no document
with a heading without a number is parsed. -/
structure StepsKept (U : Unicode) (content : Text) : Prop where
  matched : ∀ h, parseHandoff U content = some (.ok h) →
    List.Forall₂ ReadAt h.steps (stepHeadings content)
  rejected : ∀ line ∈ stepHeadings content, extractStepNumber line = some none →
    ∀ h, parseHandoff U content ≠ some (.ok h)

/-- The document has what `parse_handoff` asks of it. -/
structure Acceptable (U : Unicode) (content : Text) : Prop where
  sections : HasRequiredSections U (lines content)
  readable : ¬ HasUnreadableStep (lines content)
  step : ∃ line ∈ stepHeadings content, extractStepNumber line ≠ some none

theorem headingNumber_of_isStepHeading {line : Text} (h : IsStepHeading line) :
    extractStepNumber line = some (headingNumber line) := by
  obtain ⟨number, hnumber⟩ := Option.ne_none_iff_exists'.mp (extractStepNumber_ne_none line)
  rw [hnumber, headingNumber, hnumber]
  exact congrArg some (if_pos h).symm

theorem headingNumber_of_not_isStepHeading {line : Text} (h : ¬ IsStepHeading line) :
    headingNumber line = none := if_neg h

theorem readSteps_eq_none_iff (ls : List Text) : readSteps ls = none ↔ HasUnreadableStep ls := by
  obtain ⟨e, hsteps⟩ := extractSteps_eq ls
  rw [← extractSteps_eq_none_iff, hsteps, Option.map_eq_none_iff]

/-- Steps and numbered headings go together. -/
theorem readSteps_headings_forall {ls : List Text} {steps : List ParsedStep}
    (h : readSteps ls = some steps) :
    List.Forall₂ ReadAt steps
      ((ls.filter IsStepHeading).filter fun l => (headingNumber l).isSome) := by
  induction ls generalizing steps with
  | nil =>
    cases h
    exact .nil
  | cons line rest ih =>
    rw [readSteps] at h
    by_cases hline : IsStepHeading line
    · rw [List.filter_cons_of_pos (by simpa using hline)]
      cases hnumber : headingNumber line with
      | none =>
        rw [hnumber] at h
        rw [List.filter_cons_of_neg (by simp [hnumber])]
        exact ih h
      | some number =>
        rw [hnumber] at h
        rw [List.filter_cons_of_pos (by simp [hnumber])]
        simp only [Option.bind_eq_bind, Option.bind_eq_some_iff, Option.pure_def,
          Option.some.injEq] at h
        obtain ⟨title, htitle, step, hstep, steps', hrest, rfl⟩ := h
        obtain ⟨s, -, rfl⟩ := Option.map_eq_some_iff.mp hstep
        refine .cons ⟨?_, htitle⟩ (ih hrest)
        rw [headingNumber_of_isStepHeading hline, hnumber]
        rfl
    · rw [headingNumber_of_not_isStepHeading hline] at h
      rw [List.filter_cons_of_neg (by simpa using hline)]
      exact ih h

theorem parseHandoff_ok_iff_acceptable (U : Unicode) (content : Text) :
    (∃ h, parseHandoff U content = some (.ok h)) ↔ Acceptable U content := by
  have hstep {steps : List ParsedStep} (hread : readSteps (lines content) = some steps) :
      steps ≠ [] ↔ ∃ line ∈ stepHeadings content, extractStepNumber line ≠ some none := by
    have hlength := (readSteps_headings_forall hread).length_eq
    rw [← List.length_pos_iff, hlength, List.length_pos_iff_exists_mem]
    simp only [List.mem_filter, stepHeadings]
    refine exists_congr fun line => and_congr_right fun hline => ?_
    rw [headingNumber_of_isStepHeading (of_decide_eq_true hline.2), Option.isSome_iff_ne_none,
      ne_eq, ne_eq, Option.some.injEq]
  constructor
  · rintro ⟨h, hparse⟩
    obtain ⟨hsections, hread, hne⟩ := (parseHandoff_ok_iff U).mp ⟨h, hparse, rfl⟩
    refine ⟨hsections, fun hunread => ?_, (hstep hread).mp hne⟩
    rw [(readSteps_eq_none_iff _).mpr hunread] at hread
    cases hread
  · intro hacc
    obtain ⟨steps, hread⟩ :=
      Option.ne_none_iff_exists'.mp (mt (readSteps_eq_none_iff _).mp hacc.readable)
    obtain ⟨h, hparse, -⟩ :=
      (parseHandoff_ok_iff U).mpr ⟨hacc.sections, hread, (hstep hread).mpr hacc.step⟩
    exact ⟨h, hparse⟩

/-- **Steps.** No step is dropped if and only if every step heading has a number, or the document is
refused for another reason. -/
theorem stepsKept_iff (U : Unicode) (content : Text) :
    StepsKept U content ↔ (Acceptable U content →
      ∀ line ∈ stepHeadings content, extractStepNumber line ≠ some none) := by
  constructor
  · intro hkept hacc line hline hnone
    obtain ⟨h, hparse⟩ := (parseHandoff_ok_iff_acceptable U content).mpr hacc
    exact hkept.rejected line hline hnone h hparse
  · intro hall
    refine ⟨fun h hparse => ?_, fun line hline hnone h hparse => ?_⟩
    · have hacc := (parseHandoff_ok_iff_acceptable U content).mp ⟨h, hparse⟩
      obtain ⟨-, hread, -⟩ := (parseHandoff_ok_iff U).mp ⟨h, hparse, rfl⟩
      have hnumbered : (stepHeadings content).filter (fun l => (headingNumber l).isSome) =
          stepHeadings content := by
        refine List.filter_eq_self.mpr fun line hline => ?_
        rw [Option.isSome_iff_ne_none]
        intro hnone
        refine hall hacc line hline ?_
        rw [headingNumber_of_isStepHeading (of_decide_eq_true (List.mem_filter.mp hline).2), hnone]
      rw [← hnumbered]
      exact readSteps_headings_forall hread
    · exact hall ((parseHandoff_ok_iff_acceptable U content).mp ⟨h, hparse⟩) line hline hnone

/-- A document whose second step has the number 2 ^ 32. -/
def largeNumberDocument : Text :=
  ("# T\n## Problem\np\n## What needs doing\nd\n### Step 1: a\n" ++
    "### Step 4294967296: b\n").toList

/-- A step whose number does not fit 32 bits is dropped. -/
theorem step_dropped : ¬ ∀ content : Text, (∀ l ∈ lines content, ¬ startsWith l "```") →
    StepsKept .asciiTables content := by
  intro hclaim
  obtain ⟨h, hparse, -⟩ : ∃ h, parseHandoff .asciiTables largeNumberDocument = some (.ok h) ∧
      h.steps.length = 1 :=
    ok_of_reads (by decide +kernel)
  have hfences : ∀ l ∈ lines largeNumberDocument, ¬ startsWith l "```" := by decide +kernel
  exact (hclaim _ hfences).rejected "### Step 4294967296: b".toList (by decide +kernel)
    (by decide +kernel) h hparse

end Hymenium
