import Hymenium.Decompose.Partition
import Hymenium.Decompose.Render
import Hymenium.Parser.Reading

/-!
# The layout of a child handoff

The lines of a rendered piece (`lines_renderPiece`): those of its steps, with lines around them that
are no headings. A line is read alone because the texts of a parsed handoff hold no line feed, but
for descriptions and commands, which are read line by line.
-/

namespace Hymenium

open Text

variable (U : Unicode)

/-! ## Lines of a rendered piece -/

def headingLine (step : ParsedStep) : Text :=
  "### Step ".toList ++ ofNat step.number.toNat ++ ": ".toList ++ step.title

def fileLine (f : FileModification) : Text :=
  chomp ("- `".toList ++ f.path ++ "` — ".toList ++ f.description)

def itemLine (item : ChecklistItem) : Text :=
  "- [".toList ++ (if item.checked then "x" else " ").toList ++ "] ".toList ++ item.text

def descriptionLines (description : Text) : List Text :=
  if description = [] then [] else lines description ++ [[]]

def fileLines (files : List FileModification) : List Text :=
  if files = [] then [] else "**Files to modify:**".toList :: [] :: (files.map fileLine ++ [[]])

def commandLines (commands : List Text) : List Text :=
  commands.flatMap fun cmd => lines (cmd ++ "\n".toList)

def verificationLines : Option VerificationBlock → List Text
  | none => []
  | some ver => "**Verification:**".toList :: [] :: "```bash".toList ::
      (commandLines ver.commands ++ ["```".toList, []])

def checklistLines (checklist : List ChecklistItem) : List Text :=
  if checklist = [] then [] else "**Checklist:**".toList :: [] :: (checklist.map itemLine ++ [[]])

/-- The lines of a step between its description and its checklist. -/
def middleLines (step : ParsedStep) : List Text :=
  fileLines step.filesToModify ++ verificationLines step.verification

def stepLines (step : ParsedStep) : List Text :=
  headingLine step :: [] :: (descriptionLines step.description ++ middleLines step ++
    checklistLines step.checklist)

theorem exists_fileLine (f : FileModification) : ∃ t, fileLine f = '-' :: ' ' :: '`' :: t := by
  have hne : f.path ++ ("` — ".toList ++ f.description) ≠ [] := by simp
  refine ⟨chomp (f.path ++ ("` — ".toList ++ f.description)), ?_⟩
  rw [← chomp_cons _ hne, ← chomp_cons _ (List.cons_ne_nil _ _),
    ← chomp_cons _ (List.cons_ne_nil _ _)]
  simp [fileLine]

theorem forall_mem_fileLines {P : Text → Prop} (hmark : P "**Files to modify:**".toList)
    (hnil : P []) (hfile : ∀ t, P ('-' :: ' ' :: '`' :: t)) (files : List FileModification) :
    ∀ l ∈ fileLines files, P l := by
  unfold fileLines
  split_ifs
  · exact fun l hl => (List.not_mem_nil hl).elim
  · have hfiles : ∀ l ∈ files.map fileLine, P l := by
      rw [List.forall_mem_map]
      intro f _
      obtain ⟨t, ht⟩ := exists_fileLine f
      exact ht ▸ hfile t
    exact List.forall_mem_cons.mpr ⟨hmark, List.forall_mem_cons.mpr
      ⟨hnil, forall_mem_concat hfiles hnil⟩⟩

theorem forall_mem_verificationLines {P : Text → Prop} {step : ParsedStep}
    (hfixed : P "**Verification:**".toList ∧ P "```bash".toList ∧ P "```".toList) (hnil : P [])
    (hcommands : ∀ l ∈ commandLines step.commands, P l) :
    ∀ l ∈ verificationLines step.verification, P l := by
  cases hver : step.verification with
  | none => exact fun l hl => (List.not_mem_nil hl).elim
  | some ver =>
    have heq : step.commands = ver.commands := by simp [ParsedStep.commands, hver]
    rw [heq] at hcommands
    simp only [verificationLines, List.forall_mem_cons, List.forall_mem_append]
    exact ⟨hfixed.1, hnil, hfixed.2.1, hcommands, hfixed.2.2, hnil,
      fun l hl => (List.not_mem_nil hl).elim⟩

theorem forall_mem_checklistLines {P : Text → Prop} (hmark : P "**Checklist:**".toList)
    (hnil : P []) (hitem : ∀ t, P ('-' :: ' ' :: t)) (checklist : List ChecklistItem) :
    ∀ l ∈ checklistLines checklist, P l := by
  unfold checklistLines
  split_ifs
  · exact fun l hl => (List.not_mem_nil hl).elim
  · have hitems : ∀ l ∈ checklist.map itemLine, P l := by
      rw [List.forall_mem_map]
      intro item _
      unfold itemLine
      rw [List.append_assoc, List.append_assoc]
      exact hitem _
    exact List.forall_mem_cons.mpr ⟨hmark, List.forall_mem_cons.mpr
      ⟨hnil, forall_mem_concat hitems hnil⟩⟩

theorem chomp_append_of_trim {t : Text} (h : trim t = t) {c : Char} (hc : c ≠ '\r') (a : Text) :
    chomp (a ++ [c] ++ t) = a ++ [c] ++ t := by
  refine chomp_of_getLast? ?_
  have ht : t.getLast? ≠ some '\r' := getLast?_ne_of_trim h (by decide)
  rw [List.getLast?_append]
  cases hlast : t.getLast? with
  | none => simpa using hc
  | some d => rwa [hlast] at ht

/-- A line that is followed by an empty one. -/
theorem lines_paragraph {l : Text} (hl : '\n' ∉ l) :
    lines (l ++ "\n\n".toList) = [chomp l, []] :=
  lines_append hl ['\n']

theorem endsLine_paragraph (l : Text) : EndsLine (l ++ "\n\n".toList) :=
  EndsLine.append_left (by decide) (by decide) l

theorem endsLine_line (l : Text) : EndsLine (l ++ "\n".toList) :=
  EndsLine.append_left (by decide) (by decide) l

theorem notMem_headingLine {step : ParsedStep} (h : step.Tidy) : '\n' ∉ headingLine step := by
  have hdigits := notMem_ofNat (c := '\n') (by decide) step.number.toNat
  unfold headingLine
  simp only [List.mem_append, not_or]
  exact ⟨⟨⟨by decide, hdigits⟩, by decide⟩, h.title.1⟩

theorem chomp_headingLine {step : ParsedStep} (h : step.Tidy) :
    chomp (headingLine step) = headingLine step := by
  have hline : headingLine step = ("### Step ".toList ++ ofNat step.number.toNat ++ ":".toList) ++
      [' '] ++ step.title := by
    unfold headingLine
    rw [show ": ".toList = ":".toList ++ [' '] from rfl]
    simp only [List.append_assoc]
  rw [hline]
  exact chomp_append_of_trim h.title.2 (by decide) _

theorem lines_renderDescription {description : Text} (h : trim description = description) :
    lines (renderDescription description) = descriptionLines description ∧
      EndsLine (renderDescription description) := by
  unfold renderDescription descriptionLines
  split_ifs with hnil
  · exact ⟨rfl, endsLine_nil⟩
  · refine ⟨?_, endsLine_paragraph _⟩
    have hlines : lines (description ++ "\n\n".toList) =
        lines (description ++ ['\n']) ++ lines ['\n'] := lines_append_cons description ['\n']
    rw [hlines, lines_append_of_trim h hnil]
    rfl

theorem lines_renderFiles {files : List FileModification} (h : ∀ f ∈ files, f.Tidy) :
    lines (renderFiles files) = fileLines files ∧ EndsLine (renderFiles files) := by
  unfold renderFiles fileLines
  split_ifs
  · exact ⟨rfl, endsLine_nil⟩
  · have hends : ∀ f ∈ files, EndsLine
        ("- `".toList ++ f.path ++ "` — ".toList ++ f.description ++ "\n".toList) :=
      fun f _ => endsLine_line _
    refine ⟨?_, endsLine_line _⟩
    have hhead : EndsLine "**Files to modify:**\n\n".toList := by decide
    rw [(hhead.append (endsLine_flatMap hends)).lines_append, hhead.lines_append,
      lines_flatMap hends, show lines "**Files to modify:**\n\n".toList =
        ["**Files to modify:**".toList, []] by decide +kernel]
    have hflat : (files.flatMap fun f => lines ("- `".toList ++ f.path ++ "` — ".toList ++
        f.description ++ "\n".toList)) = files.map fileLine := by
      rw [← List.flatMap_singleton' (files.map fileLine), List.flatMap_map]
      refine List.flatMap_congr fun f hf => ?_
      exact lines_line (by simp [(h f hf).1, (h f hf).2])
    rw [hflat]
    rfl

theorem lines_renderVerification (verification : Option VerificationBlock) :
    lines (renderVerification verification) = verificationLines verification ∧
      EndsLine (renderVerification verification) := by
  cases verification with
  | none => exact ⟨rfl, endsLine_nil⟩
  | some ver =>
    have hends : ∀ cmd ∈ ver.commands, EndsLine (cmd ++ "\n".toList) :=
      fun cmd _ => endsLine_line cmd
    have hhead : EndsLine "**Verification:**\n\n```bash\n".toList := by decide
    refine ⟨?_, EndsLine.append_left (by decide) (by decide) _⟩
    unfold renderVerification verificationLines
    rw [(hhead.append (endsLine_flatMap hends)).lines_append,
      hhead.lines_append, lines_flatMap hends,
      show lines "**Verification:**\n\n```bash\n".toList =
        ["**Verification:**".toList, [], "```bash".toList] by decide +kernel,
      show lines "```\n\n".toList = ["```".toList, []] by decide +kernel]
    rfl

/-- An item whose text is one trimmed line. -/
structure ChecklistItem.SingleLine (item : ChecklistItem) : Prop where
  line : '\n' ∉ item.text
  trimmed : trim item.text = item.text

theorem ChecklistItem.Tidy.singleLine {item : ChecklistItem} (h : item.Tidy) : item.SingleLine :=
  ⟨h.line, h.trimmed⟩

theorem chomp_itemLine {item : ChecklistItem} (h : item.SingleLine) :
    chomp (itemLine item) = itemLine item := by
  have hline : itemLine item = ("- [".toList ++ (if item.checked then "x" else " ").toList ++
      "]".toList) ++ [' '] ++ item.text := by
    unfold itemLine
    rw [show "] ".toList = "]".toList ++ [' '] from rfl]
    simp only [List.append_assoc]
  rw [hline]
  exact chomp_append_of_trim h.trimmed (by decide) _

theorem notMem_itemLine {item : ChecklistItem} (h : item.SingleLine) : '\n' ∉ itemLine item := by
  unfold itemLine
  simp only [List.mem_append, not_or]
  exact ⟨⟨⟨by decide, by split_ifs <;> decide⟩, by decide⟩, h.line⟩

theorem lines_renderChecklist {checklist : List ChecklistItem}
    (h : ∀ item ∈ checklist, item.SingleLine) :
    lines (renderChecklist checklist) = checklistLines checklist ∧
      EndsLine (renderChecklist checklist) := by
  unfold renderChecklist checklistLines
  split_ifs
  · exact ⟨rfl, endsLine_nil⟩
  · have hends : ∀ item ∈ checklist, EndsLine ("- [".toList ++
        (if item.checked then "x" else " ").toList ++ "] ".toList ++ item.text ++ "\n".toList) :=
      fun item _ => endsLine_line _
    refine ⟨?_, endsLine_line _⟩
    have hhead : EndsLine "**Checklist:**\n\n".toList := by decide
    rw [(hhead.append (endsLine_flatMap hends)).lines_append, hhead.lines_append,
      lines_flatMap hends, show lines "**Checklist:**\n\n".toList =
        ["**Checklist:**".toList, []] by decide +kernel]
    have hflat : (checklist.flatMap fun item => lines ("- [".toList ++
        (if item.checked then "x" else " ").toList ++ "] ".toList ++ item.text ++ "\n".toList)) =
        checklist.map itemLine := by
      rw [← List.flatMap_singleton' (checklist.map itemLine), List.flatMap_map]
      refine List.flatMap_congr fun item hitem => ?_
      have hline := h item hitem
      exact (lines_line (notMem_itemLine hline)).trans (by rw [chomp_itemLine hline])
    rw [hflat]
    rfl

theorem lines_renderStep {step : ParsedStep} (h : step.Tidy) :
    lines (renderStep step) = stepLines step ∧ EndsLine (renderStep step) := by
  obtain ⟨hdesc, hdescEnds⟩ := lines_renderDescription h.description
  obtain ⟨hfiles, hfilesEnds⟩ := lines_renderFiles h.files
  obtain ⟨hver, hverEnds⟩ := lines_renderVerification step.verification
  obtain ⟨hlist, hlistEnds⟩ := lines_renderChecklist fun item hitem =>
    (h.checklist item hitem).singleLine
  have hheading := endsLine_paragraph (headingLine step)
  have h₁ := hheading.append hdescEnds
  have h₂ := h₁.append hfilesEnds
  have h₃ := h₂.append hverEnds
  refine ⟨?_, h₃.append hlistEnds⟩
  change lines (headingLine step ++ "\n\n".toList ++ renderDescription step.description ++
    renderFiles step.filesToModify ++ renderVerification step.verification ++
    renderChecklist step.checklist) = _
  rw [h₃.lines_append, h₂.lines_append, h₁.lines_append, hheading.lines_append, hdesc, hfiles, hver,
    hlist, lines_paragraph (notMem_headingLine h), chomp_headingLine h]
  simp [stepLines, middleLines]

/-! ## Inert lines -/

/-- A line that is no heading of a step or of a required section. -/
structure Inert (line : Text) : Prop where
  step : headingNumber line = none
  problem : opens U .problem line = false
  intent : opens U .whatNeedsDoing line = false

theorem headingNumber_eq_none {line : Text} (h : ¬ startsWith line "### Step ") :
    headingNumber line = none :=
  if_neg fun hh => h hh.1

theorem headingNumber_eq_none_of_boundary {line : Text} (h : ¬ isBoundary line) :
    headingNumber line = none :=
  headingNumber_eq_none fun hh => h (.inr (.inl (List.IsPrefix.trans (by decide) hh)))

theorem headingName_eq_of_trim {a b : Text} (h : trim a = trim b) :
    headingName a = headingName b := by
  rw [headingName, headingName, bareHeading, bareHeading, h]

/-- The name of a heading without mark starts as its line does. -/
theorem head?_headingName {c : Char} {t : Text} (hc : isWhitespace c = false) (hopen : c ≠ '(')
    (hmark : ¬ startsWith (c :: t) "## ") : (headingName (c :: t)).head? = some c := by
  obtain ⟨hpre, v, hv⟩ := trim_cons t hc
  have hbare : bareHeading (c :: t) = trim (c :: t) := by
    rw [bareHeading, stripPrefix, if_neg fun h => hmark (startsWith_mono h hpre),
      Option.getD_none]
  obtain ⟨-, hname⟩ | ⟨a, b, hab, hname⟩ := headingName_cases (c :: t)
  · rw [hname, hbare, hv, List.head?_cons]
  · rw [hbare, hv] at hab
    cases a with
    | nil => exact absurd (List.cons.inj hab).1 hopen
    | cons d a =>
      obtain ⟨rfl, -⟩ := List.cons.inj hab
      obtain ⟨-, u, hu⟩ := trim_cons a hc
      rw [hname, hu, List.head?_cons]

theorem opens_eq_false {sectionType : SectionType} {c : Char} {t : Text}
    (hc : isWhitespace c = false ∧ c.toNat < 128 ∧ c ≠ '(')
    (hmark : ¬ startsWith (c :: t) "## ")
    (hkey : (sectionKey sectionType).head? ≠ some c.toLower) :
    opens U sectionType (c :: t) = false := by
  obtain ⟨hspace, hascii, hopen⟩ := hc
  obtain ⟨u, hu⟩ := List.head?_eq_some_iff.mp (head?_headingName hspace hopen hmark)
  refine decide_eq_false fun h => hkey ?_
  rw [← h, headingKey, hu, U.head c u hascii]

/-- Most lines are inert by their first character. -/
theorem inert_of_head {line : Text} {c : Char} (hline : line.head? = some c)
    (hc : isWhitespace c = false ∧ c.toNat < 128 ∧ c ≠ '(') (hmark : c ≠ '#')
    (hp : c.toLower ≠ 'p') (hw : c.toLower ≠ 'w') : Inert U line := by
  obtain ⟨t, rfl⟩ := List.head?_eq_some_iff.mp hline
  have hpat {pat : String} (hpat : pat.toList.head? = some '#') : ¬ startsWith (c :: t) pat := by
    rintro ⟨u, hu⟩
    obtain ⟨v, hv⟩ := List.head?_eq_some_iff.mp hpat
    rw [hv, List.cons_append] at hu
    exact hmark (List.cons.inj hu).1.symm
  refine ⟨headingNumber_eq_none (hpat rfl), ?_, ?_⟩
  · exact opens_eq_false U hc (hpat rfl) fun h => hp (Option.some.inj h).symm
  · exact opens_eq_false U hc (hpat rfl) fun h => hw (Option.some.inj h).symm

theorem inert_of_ascii {line : Text} (hascii : Ascii line)
    (h : headingNumber line = none ∧ opens .asciiTables .problem line = false ∧
      opens .asciiTables .whatNeedsDoing line = false) : Inert U line where
  step := h.1
  problem := (opens_ascii U _ hascii).trans h.2.1
  intent := (opens_ascii U _ hascii).trans h.2.2

theorem inert_nil : Inert U [] :=
  inert_of_ascii U (fun _ h => (List.not_mem_nil h).elim) (by decide +kernel)

theorem inert_space {line : Text} (h : Inert U line) : Inert U (' ' :: line) := by
  have htrim : trim (' ' :: line) = trim line := trim_cons_of_isWhitespace line (by decide)
  have hopens (sectionType : SectionType) :
      opens U sectionType (' ' :: line) = opens U sectionType line := by
    rw [opens, opens, headingKey, headingKey, headingName_eq_of_trim htrim]
  refine ⟨headingNumber_eq_none fun hh => ?_, (hopens _).trans h.problem, (hopens _).trans h.intent⟩
  obtain ⟨u, hu⟩ := hh
  cases hu

theorem inert_chomp {c : Char} (t : Text)
    (hc : c ≠ '\r' ∧ (isWhitespace c = false ∧ c.toNat < 128 ∧ c ≠ '(') ∧ c ≠ '#' ∧
      c.toLower ≠ 'p' ∧ c.toLower ≠ 'w') : Inert U (chomp (c :: t)) :=
  inert_of_head U (head?_chomp hc.1 t) hc.2.1 hc.2.2.1 hc.2.2.2.1 hc.2.2.2.2

/-- A line that is written with its line feed. -/
theorem inert_line {c : Char} {line : Text} (hhead : line.head? = some c)
    (hc : c ≠ '\r' ∧ (isWhitespace c = false ∧ c.toNat < 128 ∧ c ≠ '(') ∧ c ≠ '#' ∧
      c.toLower ≠ 'p' ∧ c.toLower ≠ 'w') (hnl : '\n' ∉ line) :
    ∀ l ∈ lines (line ++ "\n".toList), Inert U l := by
  obtain ⟨t, rfl⟩ := List.head?_eq_some_iff.mp hhead
  have hline : lines (c :: t ++ "\n".toList) = [chomp (c :: t)] := lines_line hnl
  rw [hline]
  exact List.forall_mem_singleton.mpr (inert_chomp U t hc)

theorem inert_title (t : Text) : Inert U ('#' :: ' ' :: t) := by
  have hpat {pat : String} (hpat : ['#', '#'] <+: pat.toList) :
      ¬ startsWith ('#' :: ' ' :: t) pat := by
    intro h
    have := hpat.trans h
    simp at this
  exact ⟨headingNumber_eq_none (hpat (by decide)), opens_eq_false U (by decide) (hpat (by decide))
    (by decide), opens_eq_false U (by decide) (hpat (by decide)) (by decide)⟩

/-- Fixed text without a heading. -/
theorem inert_fixed {t : Text} (h : (∀ l ∈ lines t, Ascii l) ∧
    ∀ l ∈ lines t, headingNumber l = none ∧ opens .asciiTables .problem l = false ∧
      opens .asciiTables .whatNeedsDoing l = false) : ∀ l ∈ lines t, Inert U l :=
  fun l hl => inert_of_ascii U (h.1 l hl) (h.2 l hl)

/-! ## The document -/

theorem inert_renderScope {piece : HandoffPiece} (hpiece : ∀ s ∈ piece.steps, s.Tidy) :
    (∀ l ∈ lines (renderScope piece), Inert U l) ∧ EndsLine (renderScope piece) := by
  unfold renderScope
  split_ifs
  · exact ⟨fun l hl => (List.not_mem_nil hl).elim, endsLine_nil⟩
  · have hpath : ∀ path ∈ writeScope piece, '\n' ∉ path := by
      intro path hmem
      rw [writeScope, List.mem_insertionSort, List.mem_dedup] at hmem
      obtain ⟨s, hs, hmem⟩ := List.mem_flatMap.mp hmem
      obtain ⟨f, hf, rfl⟩ := List.mem_map.mp hmem
      exact ((hpiece s hs).files f hf).1
    have hends : ∀ path ∈ writeScope piece, EndsLine ("  - ".toList ++ path ++ "\n".toList) :=
      fun path _ => endsLine_line _
    have hhead : EndsLine "allowed_write_scope:\n".toList := by decide
    refine ⟨?_, hhead.append (endsLine_flatMap hends)⟩
    rw [hhead.lines_append, lines_flatMap hends, List.forall_mem_append]
    refine ⟨inert_fixed U (by decide +kernel), fun l hl => ?_⟩
    obtain ⟨path, hmem, hl⟩ := List.mem_flatMap.mp hl
    have hline : lines ("  - ".toList ++ path ++ "\n".toList) = [chomp ("  - ".toList ++ path)] :=
      lines_line (by simp [hpath path hmem])
    rw [hline, List.mem_singleton] at hl
    change l = chomp (' ' :: ' ' :: '-' :: ' ' :: path) at hl
    rw [hl, chomp_cons _ (List.cons_ne_nil _ _), chomp_cons _ (List.cons_ne_nil _ _)]
    exact inert_space U (inert_space U (inert_chomp U _ (by decide)))

theorem inert_renderMetadata {piece : HandoffPiece} (hpiece : ∀ s ∈ piece.steps, s.Tidy)
    {metadata : HandoffMetadata} (h : metadata.Tidy) :
    (∀ l ∈ lines (renderMetadata piece metadata), Inert U l) ∧
      EndsLine (renderMetadata piece metadata) := by
  obtain ⟨hscope, hscopeEnds⟩ := inert_renderScope U hpiece
  have howning : ∀ l ∈ lines ("owning_repo: ".toList ++ metadata.owningRepo ++ "\n".toList),
      Inert U l := inert_line U rfl (by decide) (by simp [h.1])
  have hcontract : ∀ l ∈ lines ("verification_contract: ".toList ++
      metadata.verificationContract ++ "\n".toList), Inert U l :=
    inert_line U rfl (by decide) (by simp [h.2])
  have h₁ : EndsLine "```yaml\n".toList := by decide
  have h₂ := h₁.append (endsLine_line ("owning_repo: ".toList ++ metadata.owningRepo))
  have h₃ := h₂.append hscopeEnds
  have h₄ := h₃.append
    (endsLine_line ("verification_contract: ".toList ++ metadata.verificationContract))
  refine ⟨?_, h₄.append (by decide)⟩
  unfold renderMetadata
  rw [h₄.lines_append, h₃.lines_append, h₂.lines_append, h₁.lines_append]
  simp only [List.forall_mem_append]
  exact ⟨⟨⟨⟨inert_fixed U (by decide +kernel), howning⟩, hscope⟩, hcontract⟩,
    inert_fixed U (by decide +kernel)⟩

theorem notMem_pieceTitle {steps : List ParsedStep} (h : ∀ s ∈ steps, s.Tidy) :
    '\n' ∉ pieceTitle steps := by
  match steps with
  | [] => exact List.not_mem_nil
  | [step] => exact (h step List.mem_cons_self).title.1
  | first :: second :: rest =>
    have hdigits (n : ℕ) : '\n' ∉ ofNat n := notMem_ofNat (by decide) n
    have hlast := (h _ (List.mem_cons_of_mem first
      (List.getLast_mem (List.cons_ne_nil second rest)))).title.1
    unfold pieceTitle
    simp only [List.mem_append, not_or]
    exact ⟨⟨⟨⟨⟨⟨⟨by decide, hdigits _⟩, by decide⟩, hdigits _⟩, by decide⟩,
      (h first List.mem_cons_self).title.1⟩, by decide⟩, hlast⟩

/-- The lines before the steps: among lines that are no headings, those of the problem section. -/
theorem lines_renderOpening {piece : HandoffPiece} (htitle : '\n' ∉ piece.title)
    (hpiece : ∀ s ∈ piece.steps, s.Tidy) {parentTitle : Text} (hparent : '\n' ∉ parentTitle)
    {parentMetadata : Option HandoffMetadata} (hmeta : ∀ m ∈ parentMetadata, m.Tidy) :
    EndsLine (renderOpening piece parentTitle parentMetadata) ∧ ∃ title metadata child,
      lines (renderOpening piece parentTitle parentMetadata) = (('#' :: ' ' :: title) :: [] ::
        metadata) ++ ["## Problem".toList, [], 'C' :: child, [], "## Steps".toList, []] ∧
      (∀ l ∈ metadata, Inert U l) ∧ Inert U ('C' :: child) := by
  let titleLine := "# ".toList ++ parentTitle ++ ": ".toList ++ piece.title
  let childLine := "Child piece of parent handoff \"".toList ++ parentTitle ++ "\".".toList
  let metadata := parentMetadata.elim [] (renderMetadata piece)
  have hmetadata : (∀ l ∈ lines metadata, Inert U l) ∧ EndsLine metadata := by
    cases hm : parentMetadata with
    | none =>
      rw [show metadata = [] by simp [metadata, hm]]
      exact ⟨fun l hl => (List.not_mem_nil hl).elim, endsLine_nil⟩
    | some m =>
      rw [show metadata = renderMetadata piece m by simp [metadata, hm]]
      exact inert_renderMetadata U hpiece (hmeta m hm)
  have hdoc : renderOpening piece parentTitle parentMetadata = (titleLine ++ "\n\n".toList) ++
      metadata ++ "## Problem\n\n".toList ++ (childLine ++ "\n\n".toList) ++
      "## Steps\n\n".toList := by
    unfold renderOpening titleLine childLine metadata
    rw [show "\".\n\n".toList = "\".".toList ++ "\n\n".toList from rfl]
    simp only [List.append_assoc]
  have htitleLine : lines (titleLine ++ "\n\n".toList) =
      ['#' :: ' ' :: chomp (parentTitle ++ ": ".toList ++ piece.title), []] := by
    have hne : parentTitle ++ ": ".toList ++ piece.title ≠ [] := by simp
    rw [lines_paragraph, ← chomp_cons ' ' hne, ← chomp_cons '#' (List.cons_ne_nil _ _)]
    · simp [titleLine]
    · unfold titleLine
      simp only [List.mem_append, not_or]
      exact ⟨⟨⟨by decide, hparent⟩, by decide⟩, htitle⟩
  have hchildLine : lines (childLine ++ "\n\n".toList) = [chomp childLine, []] := by
    refine lines_paragraph ?_
    unfold childLine
    simp only [List.mem_append, not_or]
    exact ⟨⟨by decide, hparent⟩, by decide⟩
  obtain ⟨child, hchild⟩ : ∃ child, chomp childLine = 'C' :: child :=
    List.head?_eq_some_iff.mp (head?_chomp (by decide) _)
  have h₁ := endsLine_paragraph titleLine
  have h₂ := h₁.append hmetadata.2
  have h₃ : EndsLine _ := h₂.append (b := "## Problem\n\n".toList) (by decide)
  have h₄ := h₃.append (endsLine_paragraph childLine)
  rw [hdoc]
  refine ⟨h₄.append (by decide), chomp (parentTitle ++ ": ".toList ++ piece.title),
    lines metadata, child, ?_, hmetadata.1, ?_⟩
  · rw [h₄.lines_append, h₃.lines_append, h₂.lines_append, h₁.lines_append, htitleLine, hchildLine,
      hchild, show lines "## Problem\n\n".toList = ["## Problem".toList, []] by decide +kernel,
      show lines "## Steps\n\n".toList = ["## Steps".toList, []] by decide +kernel]
    simp
  · exact hchild ▸ inert_chomp U _ (by decide)

theorem inert_renderDependsOn (piece : HandoffPiece) :
    ∀ l ∈ lines (renderDependsOn piece), Inert U l := by
  unfold renderDependsOn
  split_ifs
  · exact fun l hl => (List.not_mem_nil hl).elim
  · have hnl : '\n' ∉ "Depends on piece(s): ".toList ++
        join ", " (piece.dependsOn.map fun i => "#".toList ++ ofNat (i + 1)) := by
      simp only [List.mem_append, not_or]
      refine ⟨by decide, notMem_join (by decide) fun l hl => ?_⟩
      obtain ⟨i, -, rfl⟩ := List.mem_map.mp hl
      simp only [List.mem_append, not_or]
      exact ⟨by decide, notMem_ofNat (by decide) _⟩
    exact List.forall_mem_cons.mpr ⟨inert_nil U, inert_line U rfl (by decide) hnl⟩

/-- The lines after the steps are no headings of steps or of required sections. -/
theorem lines_renderClosing (piece : HandoffPiece) {parentTitle : Text}
    (hparent : '\n' ∉ parentTitle) : ∃ closing,
      lines (renderClosing piece parentTitle) = "## Completion Protocol".toList :: closing ∧
        ∀ l ∈ closing, Inert U l := by
  let fixed := "## Completion Protocol\n\n".toList ++
    "Run all verification commands above. ".toList ++
    "Report results with pass/fail evidence.\n\n".toList ++ "## Context\n\n".toList
  let contextLine := "This piece was decomposed from: **".toList ++ parentTitle ++ "**".toList
  have hdoc : renderClosing piece parentTitle =
      fixed ++ (contextLine ++ "\n".toList) ++ renderDependsOn piece := by
    unfold renderClosing contextLine fixed
    rw [show "**\n".toList = "**".toList ++ "\n".toList from rfl]
    simp only [List.append_assoc]
  have hcontext : ∀ l ∈ lines (contextLine ++ "\n".toList), Inert U l := by
    refine inert_line U (c := 'T') rfl (by decide) ?_
    unfold contextLine
    simp only [List.mem_append, not_or]
    exact ⟨⟨by decide, hparent⟩, by decide⟩
  have hhead : lines fixed = "## Completion Protocol".toList :: (lines fixed).tail := by
    decide +kernel
  have hfixed : ∀ l ∈ (lines fixed).tail, Inert U l := fun l hl =>
    inert_of_ascii U ((by decide +kernel : ∀ l ∈ (lines fixed).tail, Ascii l) l hl)
      ((by decide +kernel : ∀ l ∈ (lines fixed).tail, headingNumber l = none ∧
        opens .asciiTables .problem l = false ∧ opens .asciiTables .whatNeedsDoing l = false) l hl)
  have h₁ : EndsLine fixed := by decide
  have h₂ := h₁.append (endsLine_line contextLine)
  refine ⟨(lines fixed).tail ++ (lines (contextLine ++ "\n".toList) ++
    lines (renderDependsOn piece)), ?_, ?_⟩
  · rw [hdoc, h₂.lines_append, h₁.lines_append, hhead, List.tail_cons, List.append_assoc,
      List.cons_append]
  · exact List.forall_mem_append.mpr ⟨hfixed, List.forall_mem_append.mpr
      ⟨hcontext, inert_renderDependsOn U piece⟩⟩

/-- The problem section of a rendered piece names its parent. -/
theorem problem_written {before : List Text} (hbefore : ∀ l ∈ before, Inert U l) {child : Text}
    (hchild : Inert U ('C' :: child)) (rest : List Text) :
    ∃ l ∈ sectionLines (opens U .problem)
      (before ++ "## Problem".toList :: [] :: ('C' :: child) :: rest) false false, ¬ Blank l := by
  have hopens : opens U .problem "## Problem".toList = true := by
    rw [opens_ascii U _ (by decide)]
    decide +kernel
  have hboundary : ¬ isBoundary ('C' :: child) := by simp [isBoundary, startsWith]
  have hfence : ¬ startsWith ('C' :: child) "```" := by simp [startsWith]
  have hblank : ¬ Blank ('C' :: child) := fun hb => absurd (hb 'C' List.mem_cons_self) (by decide)
  refine ⟨'C' :: child, ?_, hblank⟩
  rw [sectionLines_append fun l hl => (hbefore l hl).problem, sectionLines_cons hopens]
  simp [sectionLines, (inert_nil U).problem, hchild.problem, hboundary, hfence,
    show ¬ isBoundary [] by decide, show ¬ startsWith [] "```" by decide]

/-- Lines before and after the steps of a rendered document, of which only `## Problem` is a
heading the parser needs. -/
structure Framed (opening closing : List Text) : Prop where
  title : ∃ line ∈ opening, startsWith line "# "
  problem : ∀ rest, sectionText U .problem (opening ++ rest) ≠ []
  opening : ∀ l ∈ opening, headingNumber l = none ∧ opens U .whatNeedsDoing l = false
  closing : ∀ l ∈ closing, headingNumber l = none ∧ opens U .whatNeedsDoing l = false

/-- The lines of a rendered piece. -/
theorem lines_renderPiece {piece : HandoffPiece} (htitle : piece.title = pieceTitle piece.steps)
    (hpiece : ∀ s ∈ piece.steps, s.Tidy) {parentTitle : Text} (hparent : '\n' ∉ parentTitle)
    {parentMetadata : Option HandoffMetadata} (hmeta : ∀ m ∈ parentMetadata, m.Tidy) :
    ∃ opening closing, lines (renderPiece piece parentTitle parentMetadata) =
        opening ++ (piece.steps.flatMap stepLines ++ "## Completion Protocol".toList :: closing) ∧
      Framed U opening ("## Completion Protocol".toList :: closing) := by
  obtain ⟨hends, title, metadata, child, hopening, hmetadata, hchild⟩ :=
    lines_renderOpening U (htitle ▸ notMem_pieceTitle hpiece) hpiece hparent hmeta
  obtain ⟨closing, hclosing, hinert⟩ := lines_renderClosing U piece hparent
  have hstepsEnd : ∀ s ∈ piece.steps, EndsLine (renderStep s) :=
    fun s hs => (lines_renderStep (hpiece s hs)).2
  have hsteps : lines (piece.steps.flatMap renderStep) = piece.steps.flatMap stepLines := by
    rw [lines_flatMap hstepsEnd]
    exact List.flatMap_congr fun s hs => (lines_renderStep (hpiece s hs)).1
  have hlines := hends.append (endsLine_flatMap hstepsEnd)
  have hfixed : ∀ l ∈ ["## Problem".toList, "## Steps".toList, "## Completion Protocol".toList],
      headingNumber l = none ∧ opens U .whatNeedsDoing l = false := by
    intro l hl
    rw [opens_ascii U _ ((by decide : ∀ l ∈ _, Ascii l) l hl)]
    exact (by decide +kernel : ∀ l ∈ _, headingNumber l = none ∧
      opens .asciiTables .whatNeedsDoing l = false) l hl
  have hquiet {l : Text} (h : Inert U l) :
      headingNumber l = none ∧ opens U .whatNeedsDoing l = false := ⟨h.step, h.intent⟩
  have hnil := hquiet (inert_nil U)
  refine ⟨lines (renderOpening piece parentTitle parentMetadata), closing, ?_, ?_, ?_, ?_, ?_⟩
  · rw [renderPiece, hlines.lines_append, hends.lines_append, hclosing, hsteps, List.append_assoc]
  · exact ⟨'#' :: ' ' :: title, by rw [hopening]; simp, List.prefix_append "# ".toList title⟩
  · intro rest
    rw [sectionText_ne_nil_iff, hopening, List.append_assoc]
    exact problem_written U (List.forall_mem_cons.mpr ⟨inert_title U title,
      List.forall_mem_cons.mpr ⟨inert_nil U, hmetadata⟩⟩) hchild _
  · rw [hopening]
    simp only [List.forall_mem_cons, List.forall_mem_append] at hfixed ⊢
    exact ⟨⟨hquiet (inert_title U title), hnil, fun l hl => hquiet (hmetadata l hl)⟩, hfixed.1, hnil,
      hquiet hchild, hnil, hfixed.2.1, hnil, fun _ h => (List.not_mem_nil h).elim⟩
  · exact List.forall_mem_cons.mpr ⟨hfixed _ (by simp), fun l hl => hquiet (hinert l hl)⟩

end Hymenium
