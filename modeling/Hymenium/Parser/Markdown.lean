import Hymenium.Foundations.Text

/-!
# The handoff parser

Handoff documents and their parser (`src/parser/mod.rs`, `src/parser/markdown.rs`). A function that
slices a string returns an option: `none` is the panic of a slice whose bounds are not valid.

The five flags of `parse_step`, of which exactly one is set at a time, are one `Mode`.
-/

namespace Hymenium

open Text

/-! ## Documents -/

/-- Errors of the handoff parser. -/
inductive ParseError where
  | missingSection (sectionName : Text) (aliases : List Text)
  | invalidMetadata (text : Text)
  | invalidStep (text : Text)
  | malformedBlock (text : Text)
  deriving DecidableEq

inductive Dispatchability where
  | direct | umbrella
  deriving DecidableEq

/-- Metadata block of a handoff document. -/
structure HandoffMetadata where
  dispatchability : Dispatchability := .direct
  owningRepo : Text := []
  allowedWriteScope : List Text := []
  crossRepoRule : Option Text := none
  nonGoals : List Text := []
  verificationContract : Text := []
  completionUpdate : Text := []
  sourceScope : Option (List Text) := none
  deriving DecidableEq

/-- A file to be modified in a step. -/
structure FileModification where
  path : Text
  description : Text
  deriving DecidableEq

/-- A paste marker location in verification output. -/
structure PasteMarker where
  lineNumber : ℕ
  hasContent : Bool
  deriving DecidableEq

/-- Verification commands and paste markers of a step. -/
structure VerificationBlock where
  commands : List Text
  pasteMarkers : List PasteMarker
  deriving DecidableEq

structure ChecklistItem where
  text : Text
  checked : Bool
  deriving DecidableEq

/-- A single step of a handoff. -/
structure ParsedStep where
  number : UInt32
  title : Text
  project : Option Text := none
  effort : Option Text := none
  dependsOn : List Text := []
  description : Text := []
  filesToModify : List FileModification := []
  verification : Option VerificationBlock := none
  checklist : List ChecklistItem := []
  deriving DecidableEq

/-- Parsed representation of a handoff document. -/
structure ParsedHandoff where
  title : Text
  metadata : Option HandoffMetadata := none
  problem : Text
  state : List Text := []
  intent : Text
  steps : List ParsedStep
  completionProtocol : Option Text := none
  context : Option Text := none
  deriving DecidableEq

/-- `x?`: go on with the value of `x`, or return its error. -/
def onOk {α β : Type} (x : Except ParseError α) (f : α → Option (Except ParseError β)) :
    Option (Except ParseError β) :=
  match x with
  | .error e => some (.error e)
  | .ok a => f a

/-- A run whose result reads `y` returned. -/
theorem ok_of_reads {ε α β : Type} {run : Option (Except ε α)} {read : α → β} {y : β}
    (h : run.map (fun outcome => outcome.toOption.map read) = some (some y)) :
    ∃ a, run = some (.ok a) ∧ read a = y := by
  obtain ⟨outcome, hrun, hread⟩ := Option.map_eq_some_iff.mp h
  cases outcome with
  | error e => cases hread
  | ok a => exact ⟨a, hrun, Option.some.inj hread⟩

/-! ## Headings -/

inductive SectionType where
  | problem | whatExists | whatNeedsDoing | completionProtocol | context
  deriving DecidableEq

variable (U : Unicode)

/-- Normalize a heading, stripping a parenthetical suffix. -/
def normalizeHeading (heading : Text) : Option Text :=
  let heading := trim heading
  let heading := (stripPrefix heading "## ").getD heading
  match rfind '(' heading with
  | some parenIdx => (sliceTo heading parenIdx).map fun h => U.toLowercase (trim h)
  | none => some (U.toLowercase heading)

/-- The accepted headings, section by section, as `build_section_aliases` lists them. -/
def sectionAliases : List (SectionType × List Text) :=
  [(.problem, ["## Problem".toList]),
    (.whatExists, ["## What exists".toList, "## What exists (state)".toList]),
    (.whatNeedsDoing, ["## What needs doing".toList, "## What needs doing (intent)".toList]),
    (.completionProtocol, ["## Completion Protocol".toList]),
    (.context, ["## Context".toList])]

/-- The map from normalized headings to sections; an entry hides the earlier ones of its key. -/
abbrev AliasMap := List (Text × SectionType × List Text)

/-- Insert the aliases of one section. -/
def insertAliases (sectionType : SectionType) (aliases : List Text) :
    List Text → AliasMap → Option AliasMap
  | [], map => some map
  | heading :: rest, map => do
    let key ← normalizeHeading U heading
    insertAliases sectionType aliases rest ((key, sectionType, aliases) :: map)

/-- Build the map of normalized headings. -/
def buildSectionAliases : Option AliasMap :=
  sectionAliases.foldlM (fun map entry => insertAliases U entry.1 entry.2 entry.2 map) []

/-- Check if a line matches a section heading. -/
def matchesSection (line : Text) (sectionType : SectionType) (aliases : AliasMap) : Option Bool := do
  let normalized ← normalizeHeading U line
  match aliases.lookup normalized with
  | some (matchedType, _) => return decide (matchedType = sectionType)
  | none => return false

/-- The accepted headings of a section, for error messages. -/
def getAliasesForSection : SectionType → List Text
  | .problem => ["## Problem".toList]
  | .whatExists => ["## What exists".toList, "## What exists (state)".toList]
  | .whatNeedsDoing => ["## What needs doing".toList, "## What needs doing (intent)".toList]
  | .completionProtocol => ["## Completion Protocol".toList]
  | .context => ["## Context".toList]

def sectionNameForType : SectionType → Text
  | .problem => "Problem".toList
  | .whatExists => "What exists".toList
  | .whatNeedsDoing => "What needs doing".toList
  | .completionProtocol => "Completion Protocol".toList
  | .context => "Context".toList

/-! ## Title and metadata -/

/-- The first line that starts with `# `. -/
def extractTitle : List Text → Except ParseError Text
  | [] => .error (.missingSection "title".toList ["# Title".toList])
  | line :: rest =>
    match stripPrefix line "# " with
    | some title => .ok (trim title)
    | none => extractTitle rest

/-- A line `- **key:** value`. -/
def parseMetadataLine (line : Text) : Option (Option (Text × Text)) :=
  match stripPrefix line "- **" with
  | none => some none
  | some rest =>
    match find rest ":**" with
    | none => some none
    | some colonPos => do
      let key ← sliceTo rest colonPos
      let value ← sliceFrom rest (colonPos + 3)
      return some (key, trim value)

def splitScope (s : Text) : List Text := (s.splitOn ',').map trim

/-- The lines of the metadata block. -/
def metadataLines : List Text → (inMetadata : Bool) → List Text
  | [], _ => []
  | line :: rest, inMetadata =>
    if line = "## Handoff Metadata".toList then metadataLines rest true
    else if inMetadata then
      if startsWith line "## " then []
      else if line ≠ [] then line :: metadataLines rest true
      else metadataLines rest true
    else metadataLines rest false

/-- Record one key of the metadata block. -/
def HandoffMetadata.set (metadata : HandoffMetadata) (key value : Text) : HandoffMetadata :=
  if key = "Dispatch".toList then
    { metadata with dispatchability := if contains value "umbrella" then .umbrella else .direct }
  else if key = "Owning repo".toList then { metadata with owningRepo := trimMatches '`' value }
  else if key = "Allowed write scope".toList then
    { metadata with allowedWriteScope := splitScope value }
  else if key = "Source read scope".toList ∨ key = "Read scope".toList then
    { metadata with sourceScope := some (splitScope value) }
  else if key = "Cross-repo edits".toList ∧ ¬ contains (U.toLowercase value) "none" then
    { metadata with crossRepoRule := some value }
  else if key = "Non-goals".toList then
    { metadata with nonGoals := if trim value = [] then [] else [trim value] }
  else if key = "Verification contract".toList then { metadata with verificationContract := value }
  else if key = "Completion update".toList then { metadata with completionUpdate := value }
  else metadata

/-- Record the lines of the metadata block, one after the other. -/
def readMetadata : List Text → HandoffMetadata → Option HandoffMetadata
  | [], metadata => some metadata
  | line :: rest, metadata => do
    match ← parseMetadataLine line with
    | some (key, value) => readMetadata rest (metadata.set U key value)
    | none => readMetadata rest metadata

def extractMetadata (lines : List Text) : Option (Option HandoffMetadata) :=
  match metadataLines lines false with
  | [] => some none
  | line :: rest => (readMetadata U (line :: rest) {}).map some

/-! ## Sections -/

/-- A line at which a section or a step ends. -/
def isBoundary (line : Text) : Prop :=
  startsWith line "## " ∨ startsWith line "### " ∨ startsWith line "---"

instance (line : Text) : Decidable (isBoundary line) :=
  inferInstanceAs (Decidable (startsWith line "## " ∨ startsWith line "### " ∨
    startsWith line "---"))

/-- The loop of `extract_section_by_type`. -/
def collectSection (sectionType : SectionType) (aliases : AliasMap) :
    List Text → (inSection inCodeBlock : Bool) → (result : List Text) → Option (List Text)
  | [], _, _, result => some result
  | line :: rest, inSection, inCodeBlock, result => do
    if ← matchesSection U line sectionType aliases then
      collectSection sectionType aliases rest true inCodeBlock result
    else if inSection then
      -- stop at the next section heading or horizontal rule
      if ¬ inCodeBlock ∧ isBoundary line then some result
      else if startsWith line "```" then
        collectSection sectionType aliases rest true (!inCodeBlock) (result ++ [line])
      else if inCodeBlock ∨ line ≠ [] then
        collectSection sectionType aliases rest true inCodeBlock (result ++ [line])
      else collectSection sectionType aliases rest true inCodeBlock result
    else collectSection sectionType aliases rest false inCodeBlock result

def extractSectionByType (lines : List Text) (sectionType : SectionType) (aliases : AliasMap) :
    Option (Except ParseError Text) := do
  let result ← collectSection U sectionType aliases lines false false []
  let text := trim (join "\n" result)
  if text = [] then
    some (.error (.missingSection (sectionNameForType sectionType)
      (getAliasesForSection sectionType)))
  else some (.ok text)

/-- The text of `- **key**: value` or `- **key:** value`, without the leading `- **`. -/
def listItem (rest : Text) : Option (Option Text) :=
  let item (pos : ℕ) : Option (Option Text) := do
    let key ← sliceTo rest pos
    let value ← sliceFrom rest (pos + 3)
    return some (if trim value = [] then key else key ++ ": ".toList ++ trim value)
  match find rest "**:" with
  | some pos => item pos
  | none =>
    match find rest ":**" with
    | some pos => item pos
    | none => some none

/-- The loop of `extract_list_section_by_type`. -/
def collectList (sectionType : SectionType) (aliases : AliasMap) :
    List Text → (inSection : Bool) → (result : List Text) → Option (List Text)
  | [], _, result => some result
  | line :: rest, inSection, result => do
    if ← matchesSection U line sectionType aliases then
      collectList sectionType aliases rest true result
    else if inSection then
      if startsWith line "## " then some result
      else
        match stripPrefix line "- **" with
        | none => collectList sectionType aliases rest true result
        | some item =>
          let item ← listItem item
          collectList sectionType aliases rest true (result ++ item.toList)
    else collectList sectionType aliases rest false result

def extractListSectionByType (lines : List Text) (sectionType : SectionType)
    (aliases : AliasMap) : Option (List Text) :=
  collectList U sectionType aliases lines false []

/-! ## Steps -/

/-- The number after `Step `; a number that does not fit 32 bits is no number. -/
def extractStepNumber (line : Text) : Option (Option UInt32) :=
  match find line "Step " with
  | some start => (sliceFrom line (start + 5)).map fun rest => parseU32 (rest.takeWhile Char.isDigit)
  | none => some none

def extractStepTitle (line : Text) : Option Text :=
  match find line ":" with
  | some colonPos => (sliceFrom line (colonPos + 1)).map trim
  | none => some []

/-- The index of the first boundary line after `fromIdx`, or the number of lines. -/
def findNextSectionBoundary (lines : List Text) (fromIdx : ℕ) : ℕ :=
  match (lines.drop (fromIdx + 1)).findIdx? (fun line => decide (isBoundary line)) with
  | some k => fromIdx + 1 + k
  | none => lines.length

def extractKeyValue (line : Text) (key : String) : Option (Option Text) :=
  match find line key with
  | some start => (sliceFrom line (start + byteLen key.toList)).map fun rest => some (trim rest)
  | none => some none

def extractDependencies (line : Text) : Option (List Text) :=
  match find line "**Depends on:**" with
  | some start =>
    (sliceFrom line (start + 15)).map fun rest =>
      ((rest.splitOn ',').map trim).filter fun s => s ≠ []
  | none => some []

def extractFileModification (line : Text) : Option (Option (Text × Text)) :=
  match find line "`** " with
  | none => some none
  | some endBacktick => do
    let path ← slice line 3 endBacktick
    let rest ← sliceFrom line (endBacktick + 4)
    match find rest "—" with
    | some sep =>
      let tail ← sliceFrom rest sep
      return some (path, trimStart (trimStartMatches '—' tail))
    | none =>
      match find rest "-" with
      | some sep =>
        let tail ← sliceFrom rest sep
        return some (path, trimStart (trimStartMatches '-' tail))
      | none => return some (path, trim rest)

/-- The state of `parse_verification_block`. -/
structure BlockScan where
  commands : List Text := []
  pasteMarkers : List PasteMarker := []
  inCodeBlock : Bool := false
  currentCmd : List Text := []
  inPasteRegion : Bool := false
  pasteHasContent : Bool := false

/-- Close the current command, if it has a line. -/
def BlockScan.flush (s : BlockScan) : BlockScan :=
  if s.currentCmd = [] then s
  else { s with commands := s.commands ++ [join "\n" s.currentCmd], currentCmd := [] }

/-- Set the flag of the last marker. -/
def setLastContent (hasContent : Bool) : List PasteMarker → List PasteMarker
  | [] => []
  | [marker] => [{ marker with hasContent }]
  | marker :: rest => marker :: setLastContent hasContent rest

def BlockScan.line (s : BlockScan) (idx : ℕ) (line : Text) : BlockScan :=
  if startsWith line "```" then
    if s.inCodeBlock then { s.flush with inCodeBlock := false }
    else { s with inCodeBlock := true, currentCmd := [] }
  else if s.inCodeBlock then { s with currentCmd := s.currentCmd ++ [line] }
  else if contains line "<!-- PASTE START -->" then
    { s with
      inPasteRegion := true
      pasteHasContent := false
      -- updated when the end marker is met
      pasteMarkers := s.pasteMarkers ++ [{ lineNumber := idx, hasContent := false }] }
  else if contains line "<!-- PASTE END -->" then
    let markers :=
      if s.inPasteRegion then setLastContent s.pasteHasContent s.pasteMarkers else s.pasteMarkers
    { s with
      pasteMarkers := markers ++ [{ lineNumber := idx, hasContent := s.pasteHasContent }]
      inPasteRegion := false }
  else if s.inPasteRegion ∧ ¬ Blank line then { s with pasteHasContent := true }
  else s

def parseVerificationBlock (lines : List Text) : VerificationBlock :=
  let s := (lines.zipIdx.foldl (fun s (line, idx) => BlockScan.line s idx line) {}).flush
  { commands := s.commands, pasteMarkers := s.pasteMarkers }

/-- What `parse_step` is reading. -/
inductive Mode where
  | metadata | description | files | verification | checklist
  deriving DecidableEq

/-- The state of `parse_step`. -/
structure StepScan where
  project : Option Text := none
  effort : Option Text := none
  dependsOn : List Text := []
  filesToModify : List FileModification := []
  checklist : List ChecklistItem := []
  mode : Mode := .metadata
  descLines : List Text := []
  verifyLines : List Text := []

/-- The text of a checklist line after its box. -/
def checklistItem (line : Text) : Option ChecklistItem :=
  (sliceFrom line 4).map fun rest =>
    { text := trim (trimStartMatches ']' rest)
      checked := contains line "[x]" ∨ contains line "[X]" }

/-- The mode a marker line switches to. -/
def markerMode (line : Text) : Option Mode :=
  if startsWith line "#### Files to modify" then some .files
  else if startsWith line "#### Verification" then some .verification
  else if startsWith line "**Checklist:**" ∨ startsWith line "**Checklist :**" then some .checklist
  else none

/-- A line at which `parse_step` stops reading. -/
def stopsStep (line : Text) : Prop :=
  startsWith line "---" ∨ startsWith line "### " ∧ ¬ contains line ":"

instance (line : Text) : Decidable (stopsStep line) :=
  inferInstanceAs (Decidable (startsWith line "---" ∨ startsWith line "### " ∧ ¬ contains line ":"))

/-- The branches of `parse_step` that read text, mode by mode. -/
def StepScan.body (s : StepScan) (line : Text) : Option StepScan :=
  match s.mode with
  | .verification =>
    if startsWith line "```" ∨ s.verifyLines ≠ [] then
      some { s with verifyLines := s.verifyLines ++ [line] }
    else some s
  | .checklist =>
    if startsWith line "- [" then
      (checklistItem line).map fun item => { s with checklist := s.checklist ++ [item] }
    else some s
  | .files =>
    if startsWith line "**`" then
      (extractFileModification line).map fun
        | some (path, desc) =>
          { s with filesToModify := s.filesToModify ++ [{ path, description := desc }] }
        | none => s
    else some s
  | .metadata =>
    if ¬ startsWith line "**" ∧ line ≠ [] then
      some { s with mode := .description, descLines := s.descLines ++ [line] }
    else some s
  | .description =>
    if ¬ startsWith line "####" then some { s with descLines := s.descLines ++ [line] } else some s

/-- The loop of `parse_step`. -/
def scanStep : List Text → StepScan → Option StepScan
  | [], s => some s
  | line :: rest, s =>
    if s.mode = .metadata ∧ startsWith line "**Project:**" then do
      let value ← extractKeyValue line "**Project:**"
      scanStep rest { s with project := value.map (trimMatches '`') }
    else if s.mode = .metadata ∧ startsWith line "**Effort:**" then do
      let value ← extractKeyValue line "**Effort:**"
      scanStep rest { s with effort := value }
    else if s.mode = .metadata ∧ startsWith line "**Depends on:**" then do
      let value ← extractDependencies line
      scanStep rest { s with dependsOn := value }
    else
      match markerMode line with
      | some mode => scanStep rest { s with mode }
      | none =>
        if stopsStep line then some s
        else do
          let s ← s.body line
          scanStep rest s

/-- The step that a scan has read. -/
def StepScan.step (s : StepScan) (number : UInt32) (title : Text) : ParsedStep where
  number := number
  title := title
  project := s.project
  effort := s.effort
  dependsOn := s.dependsOn
  description := trim (join "\n" s.descLines)
  filesToModify := s.filesToModify
  verification := if s.verifyLines = [] then none else some (parseVerificationBlock s.verifyLines)
  checklist := s.checklist

def parseStep (number : UInt32) (title : Text) (lines : List Text) : Option ParsedStep :=
  (scanStep lines.tail {}).map fun s => s.step number title

/-- The step that starts at line `idx`, when the line is the heading of one. -/
def stepAt (lines : List Text) (line : Text) (idx : ℕ) : Option (Option ParsedStep) :=
  if startsWith line "### Step " ∧ contains line ":" then do
    match ← extractStepNumber line with
    | none => return none
    | some stepNum =>
      let title ← extractStepTitle line
      let stepEnd := findNextSectionBoundary lines idx
      let step ← parseStep stepNum title ((lines.take stepEnd).drop idx)
      return some step
  else return none

/-- The loop of `extract_steps`. -/
def collectSteps (lines : List Text) : List (Text × ℕ) → Option (List ParsedStep)
  | [] => some []
  | (line, idx) :: rest => do
    let step ← stepAt lines line idx
    let steps ← collectSteps lines rest
    return step.toList ++ steps

def extractSteps (lines : List Text) : Option (Except ParseError (List ParsedStep)) := do
  let steps ← collectSteps lines lines.zipIdx
  if steps = [] then
    some (.error (.missingSection "steps".toList
      ["### Step 1: ...".toList, "### Step N: ...".toList]))
  else some (.ok steps)

/-! ## Handoffs -/

/-- Parse a handoff markdown document. -/
def parseHandoff (content : Text) : Option (Except ParseError ParsedHandoff) := do
  let lines := lines content
  let aliases ← buildSectionAliases U
  onOk (extractTitle lines) fun title => do
    let metadata ← extractMetadata U lines
    let problem ← extractSectionByType U lines .problem aliases
    onOk problem fun problem => do
      let state ← extractListSectionByType U lines .whatExists aliases
      let intent ← extractSectionByType U lines .whatNeedsDoing aliases
      onOk intent fun intent => do
        let steps ← extractSteps lines
        onOk steps fun steps => do
          let completionProtocol ← extractSectionByType U lines .completionProtocol aliases
          let context ← extractSectionByType U lines .context aliases
          return .ok
            { title, metadata, problem, state, intent, steps
              completionProtocol := completionProtocol.toOption
              context := context.toOption }

end Hymenium
