import Hymenium.Parser.Markdown

/-!
# The slices of the parser

Every slice of the parser but two follows a search for the character or the marker at its bound,
so it has a value. The two others are taken at fixed offsets: `line[4..]` of a checklist line that
is only known to start with `- [`, and `line[3..end]` of a file line whose closing mark may overlap
the opening one.

1. Headings: `headingKey` is the value of `normalize_heading`, and `sectionKey` the only key of each
   section (`exists_aliases`).
2. Sections: `sectionLines` is what the two section loops collect.
3. Steps: `PanicsFrom` says that the loop of `parse_step` meets a line it cannot slice
   (`scanStep_eq_none_iff`).
-/

namespace Hymenium

open Text

variable (U : Unicode)

/-! ## Headings -/

/-- A heading without its mark. -/
def bareHeading (heading : Text) : Text := (stripPrefix (trim heading) "## ").getD (trim heading)

/-- A heading without its mark and its parenthetical suffix. -/
def headingName (heading : Text) : Text :=
  match rfind '(' (bareHeading heading) with
  | some parenIdx => trim ((sliceTo (bareHeading heading) parenIdx).getD [])
  | none => bareHeading heading

/-- The key under which a heading is looked up. -/
def headingKey (heading : Text) : Text := U.toLowercase (headingName heading)

theorem headingName_cases (heading : Text) :
    '(' ∉ bareHeading heading ∧ headingName heading = bareHeading heading ∨
      ∃ a b, bareHeading heading = a ++ '(' :: b ∧ headingName heading = trim a := by
  unfold headingName
  cases h : rfind '(' (bareHeading heading) with
  | none => exact .inl ⟨rfind_eq_none.mp h, rfl⟩
  | some i =>
    obtain ⟨a, b, hab, -, hslice⟩ := rfind_eq_some h
    exact .inr ⟨a, b, hab, by simp [hslice]⟩

theorem infix_bareHeading (heading : Text) : bareHeading heading <:+: heading := by
  refine List.IsInfix.trans ?_ (infix_trim heading)
  unfold bareHeading
  cases h : stripPrefix (trim heading) "## " with
  | none => exact List.infix_refl _
  | some rest =>
    rw [stripPrefix_eq_some.mp h]
    exact (List.suffix_append _ _).isInfix

theorem infix_headingName (heading : Text) : headingName heading <:+: heading := by
  refine List.IsInfix.trans ?_ (infix_bareHeading heading)
  obtain ⟨-, h⟩ | ⟨a, b, hab, h⟩ := headingName_cases heading
  · rw [h]
  · rw [h, hab]
    exact (infix_trim a).trans (List.prefix_append _ _).isInfix

theorem normalizeHeading_eq (heading : Text) :
    normalizeHeading U heading = some (headingKey U heading) := by
  unfold headingKey headingName normalizeHeading
  change (match rfind '(' (bareHeading heading) with
    | some parenIdx => (sliceTo (bareHeading heading) parenIdx).map fun h => U.toLowercase (trim h)
    | none => some (U.toLowercase (bareHeading heading))) = _
  cases h : rfind '(' (bareHeading heading) with
  | none => rfl
  | some i =>
    obtain ⟨a, b, -, -, hslice⟩ := rfind_eq_some h
    simp [hslice]

/-- The key of the headings of a section. -/
def sectionKey : SectionType → Text
  | .problem => "problem".toList
  | .whatExists => "what exists".toList
  | .whatNeedsDoing => "what needs doing".toList
  | .completionProtocol => "completion protocol".toList
  | .context => "context".toList

/-- Whether a line is a heading of a section. -/
def opens (sectionType : SectionType) (line : Text) : Bool :=
  decide (headingKey U line = sectionKey sectionType)

theorem sectionKey_injective : Function.Injective sectionKey := fun a b h => by
  revert h
  cases a <;> cases b <;> decide

/-- The key of an accepted heading. -/
theorem headingKey_eq {heading name key : Text} (hname : headingName heading = name)
    (hascii : Ascii name) (hkey : name.map Char.toLower = key) :
    headingKey U heading = key := by
  rw [headingKey, hname, U.ascii name hascii, hkey]

theorem headingKey_alias {sectionType : SectionType} {heading : Text}
    (h : heading ∈ getAliasesForSection sectionType) :
    headingKey U heading = sectionKey sectionType := by
  have hkey (name key : Text) (hall : ∀ heading ∈ getAliasesForSection sectionType,
      headingName heading = name) (hascii : Ascii name)
      (hlower : name.map Char.toLower = key) : headingKey U heading = key :=
    headingKey_eq U (hall heading h) hascii hlower
  cases sectionType with
  | problem => exact hkey "Problem".toList _ (by decide +kernel) (by decide) rfl
  | whatExists => exact hkey "What exists".toList _ (by decide +kernel) (by decide) rfl
  | whatNeedsDoing =>
    exact hkey "What needs doing".toList _ (by decide +kernel) (by decide) rfl
  | completionProtocol =>
    exact hkey "Completion Protocol".toList _ (by decide +kernel) (by decide) rfl
  | context => exact hkey "Context".toList _ (by decide +kernel) (by decide) rfl

/-- The lists of `build_section_aliases` and of the error messages are in sync. -/
theorem sectionAliases_eq {entry : SectionType × List Text} (h : entry ∈ sectionAliases) :
    entry.2 = getAliasesForSection entry.1 := by
  revert entry
  decide

/-- Whether a line of ASCII is a heading does not depend on the tables. -/
theorem opens_ascii (sectionType : SectionType) {line : Text} (h : Ascii line) :
    opens U sectionType line = opens .asciiTables sectionType line := by
  have hname : Ascii (headingName line) :=
    fun c hc => h c ((infix_headingName line).subset hc)
  rw [opens, opens, headingKey, headingKey, U.ascii _ hname, Unicode.ascii _ _ hname]

/-- A map whose entries are keyed by the keys of their sections. -/
def AliasMap.Keyed (map : AliasMap) : Prop := ∀ e ∈ map, e.1 = sectionKey e.2.1

theorem insertAliases_eq {sectionType : SectionType} (aliases : List Text) {headings : List Text}
    {map : AliasMap} (hsub : ∀ heading ∈ headings, heading ∈ getAliasesForSection sectionType) (hmap : map.Keyed) :
    ∃ map', insertAliases U sectionType aliases headings map = some map' ∧ map'.Keyed ∧
      (∀ e ∈ map, e ∈ map') ∧
      (headings ≠ [] → (sectionKey sectionType, sectionType, aliases) ∈ map') := by
  induction headings generalizing map with
  | nil => exact ⟨map, rfl, hmap, fun _ h => h, fun h => absurd rfl h⟩
  | cons heading rest ih =>
    have hkey := headingKey_alias U (hsub heading List.mem_cons_self)
    have hkeyed : AliasMap.Keyed ((headingKey U heading, sectionType, aliases) :: map) := by
      intro e he
      rcases List.mem_cons.mp he with rfl | he
      · exact hkey
      · exact hmap e he
    obtain ⟨map', hrun, hk, hold, -⟩ :=
      ih (fun h hh => hsub h (List.mem_cons_of_mem _ hh)) hkeyed
    refine ⟨map', ?_, hk, fun e he => hold e (List.mem_cons_of_mem _ he), fun _ => ?_⟩
    · rw [insertAliases, normalizeHeading_eq]
      exact hrun
    · rw [← hkey]
      exact hold _ List.mem_cons_self

theorem foldlM_insertAliases {entries : List (SectionType × List Text)} {map : AliasMap}
    (hsub : ∀ entry ∈ entries, entry ∈ sectionAliases) (hmap : map.Keyed) :
    ∃ map', entries.foldlM (fun map entry => insertAliases U entry.1 entry.2 entry.2 map) map =
        some map' ∧ map'.Keyed ∧ (∀ e ∈ map, e ∈ map') ∧
      ∀ entry ∈ entries, (sectionKey entry.1, entry.1, entry.2) ∈ map' := by
  induction entries generalizing map with
  | nil => exact ⟨map, rfl, hmap, fun _ h => h, fun _ h => by cases h⟩
  | cons entry rest ih =>
    have hentry := sectionAliases_eq (hsub entry List.mem_cons_self)
    obtain ⟨map₁, hrun₁, hk₁, hold₁, hnew₁⟩ := insertAliases_eq U entry.2
      (fun h (hh : h ∈ entry.2) => hentry ▸ hh) hmap
    obtain ⟨map₂, hrun₂, hk₂, hold₂, hnew₂⟩ :=
      ih (fun e he => hsub e (List.mem_cons_of_mem _ he)) hk₁
    refine ⟨map₂, ?_, hk₂, fun e he => hold₂ e (hold₁ e he), ?_⟩
    · rw [List.foldlM_cons, hrun₁]
      exact hrun₂
    · rintro e he
      rcases List.mem_cons.mp he with rfl | he
      · refine hold₂ _ (hnew₁ ?_)
        rw [hentry]
        cases e.1 <;> simp [getAliasesForSection]
      · exact hnew₂ e he

/-- The map of aliases can be built, and sends the key of each section to it. -/
theorem exists_aliases : ∃ aliases, buildSectionAliases U = some aliases ∧
    ∀ line sectionType,
      matchesSection U line sectionType aliases = some (opens U sectionType line) := by
  have hempty : AliasMap.Keyed [] := fun _ h => by cases h
  obtain ⟨aliases, hbuild, hkeyed, -, hall⟩ := foldlM_insertAliases U (fun _ h => h) hempty
  refine ⟨aliases, hbuild, fun line sectionType => ?_⟩
  rw [matchesSection, normalizeHeading_eq]
  simp only [Option.bind_eq_bind, Option.bind_some]
  cases hlookup : aliases.lookup (headingKey U line) with
  | none =>
    rw [List.lookup_eq_none_iff] at hlookup
    have hne : headingKey U line ≠ sectionKey sectionType := by
      intro he
      have hmem : ∃ l, (sectionType, l) ∈ sectionAliases := by
        cases sectionType <;> simp [sectionAliases]
      obtain ⟨l, hl⟩ := hmem
      have := hlookup _ (hall _ hl)
      simp [he] at this
    simp [opens, hne]
  | some entry =>
    obtain ⟨l₁, l₂, hsplit, -⟩ := List.lookup_eq_some_iff.mp hlookup
    have hkey := hkeyed (headingKey U line, entry) (by rw [hsplit]; simp)
    dsimp only at hkey
    rw [opens, hkey]
    simp only [sectionKey_injective.eq_iff, Option.pure_def]

/-! ## Metadata and sections -/

theorem parseMetadataLine_ne_none (line : Text) : parseMetadataLine line ≠ none := by
  unfold parseMetadataLine
  split
  · simp
  · next rest _ =>
    split
    · simp
    · next colonPos hfind =>
      obtain ⟨_, _, -, -, hkey, -, hvalue⟩ := find_eq_some hfind
      have hlen : byteLen ":**".toList = 3 := by decide
      rw [hlen] at hvalue
      simp [hkey, hvalue]

theorem readMetadata_ne_none (lines : List Text) (metadata : HandoffMetadata) :
    readMetadata U lines metadata ≠ none := by
  induction lines generalizing metadata with
  | nil => simp [readMetadata]
  | cons line rest ih =>
    cases h : parseMetadataLine line with
    | none => exact absurd h (parseMetadataLine_ne_none line)
    | some entry => cases entry <;> simp [readMetadata, h, ih]

theorem exists_extractMetadata (lines : List Text) :
    ∃ metadata, extractMetadata U lines = some metadata := by
  rw [← Option.ne_none_iff_exists']
  unfold extractMetadata
  split
  · simp
  · simp [readMetadata_ne_none]

/-- The lines that a section collects; `heads` are the lines that open it. -/
def sectionLines (heads : Text → Bool) : List Text → (inSection inCodeBlock : Bool) → List Text
  | [], _, _ => []
  | line :: rest, inSection, inCodeBlock =>
    if heads line then sectionLines heads rest true inCodeBlock
    else if inSection then
      if ¬ inCodeBlock ∧ isBoundary line then []
      else if startsWith line "```" then line :: sectionLines heads rest true (!inCodeBlock)
      else if inCodeBlock ∨ line ≠ [] then line :: sectionLines heads rest true inCodeBlock
      else sectionLines heads rest true inCodeBlock
    else sectionLines heads rest false inCodeBlock

theorem collectSection_eq {sectionType : SectionType} {aliases : AliasMap} {heads : Text → Bool}
    (hheads : ∀ line, matchesSection U line sectionType aliases = some (heads line))
    (lines : List Text) (inSection inCodeBlock : Bool) (result : List Text) :
    collectSection U sectionType aliases lines inSection inCodeBlock result =
      some (result ++ sectionLines heads lines inSection inCodeBlock) := by
  induction lines generalizing inSection inCodeBlock result with
  | nil => simp [collectSection, sectionLines]
  | cons line rest ih =>
    unfold collectSection sectionLines
    simp only [hheads, Option.bind_eq_bind, Option.bind_some, ih]
    split_ifs <;> simp

/-- The text of a section. -/
def sectionText (sectionType : SectionType) (lines : List Text) : Text :=
  trim (join "\n" (sectionLines (opens U sectionType) lines false false))

theorem extractSectionByType_eq {aliases : AliasMap}
    (haliases : ∀ line sectionType,
      matchesSection U line sectionType aliases = some (opens U sectionType line))
    (lines : List Text) (sectionType : SectionType) :
    extractSectionByType U lines sectionType aliases =
      some (if sectionText U sectionType lines = [] then
        .error (.missingSection (sectionNameForType sectionType)
          (getAliasesForSection sectionType))
      else .ok (sectionText U sectionType lines)) := by
  unfold extractSectionByType sectionText
  rw [collectSection_eq U (fun line => haliases line sectionType)]
  simp only [Option.bind_eq_bind, Option.bind_some, List.nil_append]
  split_ifs <;> rfl

theorem sectionLines_congr {heads heads' : Text → Bool} {lines : List Text}
    (h : ∀ line ∈ lines, heads line = heads' line) (inSection inCodeBlock : Bool) :
    sectionLines heads lines inSection inCodeBlock =
      sectionLines heads' lines inSection inCodeBlock := by
  induction lines generalizing inSection inCodeBlock with
  | nil => rfl
  | cons line rest ih =>
    have ih := ih fun l hl => h l (List.mem_cons_of_mem _ hl)
    unfold sectionLines
    simp only [h line List.mem_cons_self, ih]

theorem sectionText_ascii (sectionType : SectionType) {lines : List Text}
    (h : ∀ line ∈ lines, Ascii line) :
    sectionText U sectionType lines = sectionText .asciiTables sectionType lines := by
  rw [sectionText, sectionText,
    sectionLines_congr fun line hline => opens_ascii U sectionType (h line hline)]

/-- The text of a section that may be missing. -/
def optionalSection (sectionType : SectionType) (lines : List Text) : Option Text :=
  if sectionText U sectionType lines = [] then none else some (sectionText U sectionType lines)

theorem listItem_ne_none (rest : Text) : listItem rest ≠ none := by
  have hitem (pat : String) (hlen : byteLen pat.toList = 3) (pos : ℕ)
      (hfind : find rest pat = some pos) :
      ∃ key value, sliceTo rest pos = some key ∧ sliceFrom rest (pos + 3) = some value := by
    obtain ⟨a, b, -, -, hkey, -, hvalue⟩ := find_eq_some hfind
    rw [hlen] at hvalue
    exact ⟨a, b, hkey, hvalue⟩
  unfold listItem
  split
  · next pos hfind =>
    obtain ⟨key, value, hkey, hvalue⟩ := hitem "**:" (by decide) pos hfind
    simp [hkey, hvalue]
  · split
    · next pos hfind =>
      obtain ⟨key, value, hkey, hvalue⟩ := hitem ":**" (by decide) pos hfind
      simp [hkey, hvalue]
    · simp

theorem exists_extractList (sectionType : SectionType) {aliases : AliasMap}
    (haliases : ∀ line sectionType,
      matchesSection U line sectionType aliases = some (opens U sectionType line))
    (lines : List Text) :
    ∃ state, extractListSectionByType U lines sectionType aliases = some state := by
  suffices h : ∀ lines inSection result,
      collectList U sectionType aliases lines inSection result ≠ none from
    Option.ne_none_iff_exists'.mp (h lines false [])
  intro lines
  induction lines with
  | nil => simp [collectList]
  | cons line rest ih =>
    intro inSection result
    unfold collectList
    simp only [haliases, Option.bind_eq_bind, Option.bind_some]
    split_ifs
    · exact ih _ _
    · simp
    · split
      · exact ih _ _
      · next item _ =>
        obtain ⟨item', hitem⟩ := Option.ne_none_iff_exists'.mp (listItem_ne_none item)
        rw [hitem]
        exact ih _ _
    · exact ih _ _

/-! ## Lines of a step -/

theorem extractStepNumber_ne_none (line : Text) : extractStepNumber line ≠ none := by
  unfold extractStepNumber
  split
  · next start hfind =>
    obtain ⟨a, b, -, -, -, -, hrest⟩ := find_eq_some hfind
    rw [show byteLen "Step ".toList = 5 by decide] at hrest
    simp [hrest]
  · simp

theorem extractStepTitle_ne_none (line : Text) : extractStepTitle line ≠ none := by
  unfold extractStepTitle
  split
  · next colonPos hfind =>
    obtain ⟨a, b, -, -, -, -, hrest⟩ := find_eq_some hfind
    rw [show byteLen ":".toList = 1 by decide] at hrest
    simp [hrest]
  · simp

theorem extractKeyValue_ne_none (line : Text) (key : String) : extractKeyValue line key ≠ none := by
  unfold extractKeyValue
  split
  · next start hfind =>
    obtain ⟨a, b, -, -, -, -, hrest⟩ := find_eq_some hfind
    simp [hrest]
  · simp

theorem extractDependencies_ne_none (line : Text) : extractDependencies line ≠ none := by
  unfold extractDependencies
  split
  · next start hfind =>
    obtain ⟨a, b, -, -, -, -, hrest⟩ := find_eq_some hfind
    rw [show byteLen "**Depends on:**".toList = 15 by decide] at hrest
    simp [hrest]
  · simp

/-- A line that `parse_step` cannot slice in a mode: a checklist line that ends at its opening
bracket or has a character of several bytes there, and a file line that closes its mark at once. -/
def Unreadable : Mode → Text → Prop
  | .checklist, line => startsWith line "- [" ∧ (line.drop 3).head?.all (·.utf8Size ≠ 1)
  | .files, line => startsWith line "**`** "
  | _, _ => False

instance (mode : Mode) (line : Text) : Decidable (Unreadable mode line) := by
  cases mode <;> unfold Unreadable <;> infer_instance

theorem checklistItem_eq_none_iff {line : Text} (h : startsWith line "- [") :
    checklistItem line = none ↔ Unreadable .checklist line := by
  obtain ⟨rest, rfl⟩ := h
  rw [checklistItem, Option.map_eq_none_iff]
  have hfour : sliceFrom ("- [".toList ++ rest) 4 = sliceFrom rest 1 :=
    sliceFrom_append "- [".toList rest 1
  rw [hfour, Unreadable]
  cases rest with
  | nil => simp [sliceFrom, startsWith]
  | cons c rest =>
    have hc := Char.utf8Size_pos c
    rw [sliceFrom_cons _ (by decide)]
    by_cases h1 : c.utf8Size = 1
    · simp [h1]
    · rw [if_neg (by omega)]
      simp [h1, startsWith]

/-- The search for the closing mark of a file line. -/
theorem find_fileMark (rest : Text) :
    find ("**`".toList ++ rest) "`** " =
      if startsWith rest "** " then some 2 else (find rest "`** ").map (3 + ·) := by
  have hstar : ('*' : Char).utf8Size = 1 := rfl
  have htick : ('`' : Char).utf8Size = 1 := rfl
  change findList ['`', '*', '*', ' '] ('*' :: '*' :: '`' :: rest) = _
  have hskip (t : Text) : ¬ ['`', '*', '*', ' '] <+: '*' :: t := by simp
  have hmark : ['`', '*', '*', ' '] <+: '`' :: rest ↔ startsWith rest "** " := by
    simp [startsWith]
  rw [findList, if_neg (hskip _), findList, if_neg (hskip _), findList]
  by_cases h : startsWith rest "** "
  · rw [if_pos (hmark.mpr h), if_pos h]
    rfl
  · rw [if_neg (mt hmark.mp h), if_neg h, hstar, htick, Option.map_map, Option.map_map]
    exact Option.map_congr fun i _ => by simp only [Function.comp_apply]; omega

theorem extractFileModification_eq_none_iff {line : Text} (h : startsWith line "**`") :
    extractFileModification line = none ↔ Unreadable .files line := by
  obtain ⟨rest, rfl⟩ := h
  have hiff : Unreadable .files ("**`".toList ++ rest) ↔ startsWith rest "** " := by
    simp [Unreadable, startsWith]
  rw [hiff, extractFileModification, find_fileMark]
  by_cases hrest : startsWith rest "** "
  · rw [if_pos hrest]
    simp [slice, hrest]
  · rw [if_neg hrest]
    cases hfind : find rest "`** " with
    | none => simp [hrest]
    | some i =>
      obtain ⟨a, b, rfl, rfl, -, -, -⟩ := find_eq_some hfind
      have hpath : slice ("**`".toList ++ (a ++ "`** ".toList ++ b)) 3 (3 + byteLen a) = some a := by
        have hslice := slice_byteLen "**`".toList a ("`** ".toList ++ b)
        rwa [show byteLen "**`".toList = 3 from rfl, List.append_assoc, ← List.append_assoc a]
          at hslice
      have htail : sliceFrom ("**`".toList ++ (a ++ "`** ".toList ++ b)) (3 + byteLen a + 4) =
          some b := by
        have hslice := sliceFrom_byteLen ("**`".toList ++ (a ++ "`** ".toList)) b
        rwa [byteLen_append, byteLen_append, show byteLen "**`".toList = 3 from rfl,
          show byteLen "`** ".toList = 4 from rfl, ← Nat.add_assoc, List.append_assoc] at hslice
      simp only [Option.map_some, hpath, htail, Option.bind_eq_bind, Option.bind_some]
      refine iff_of_false ?_ hrest
      split
      · next sep hsep =>
        obtain ⟨_, _, -, -, -, hslice, -⟩ := find_eq_some hsep
        simp [hslice]
      · split
        · next sep hsep =>
          obtain ⟨_, _, -, -, -, hslice, -⟩ := find_eq_some hsep
          simp [hslice]
        · simp

/-! ## The loop of a step -/

/-- The loop meets a line it cannot slice, when it reads lines in a mode. -/
def PanicsFrom : Mode → List Text → Prop
  | _, [] => False
  | mode, line :: rest => Unreadable mode line ∨ PanicsFrom ((markerMode line).getD mode) rest

instance : (mode : Mode) → (lines : List Text) → Decidable (PanicsFrom mode lines)
  | _, [] => inferInstanceAs (Decidable False)
  | mode, line :: rest =>
    have := instDecidablePanicsFrom ((markerMode line).getD mode) rest
    inferInstanceAs (Decidable (_ ∨ _))

theorem panicsFrom_description (lines : List Text) :
    PanicsFrom .description lines ↔ PanicsFrom .metadata lines := by
  induction lines with
  | nil => rfl
  | cons line rest ih =>
    unfold PanicsFrom
    cases markerMode line with
    | none => simpa [Unreadable] using ih
    | some mode => simp [Unreadable]

theorem isBoundary_of_stopsStep {line : Text} (h : stopsStep line) : isBoundary line := by
  rcases h with h | ⟨h, -⟩
  · exact .inr (.inr h)
  · exact .inr (.inl h)

/-- A marker line is read in no mode. -/
theorem not_unreadable_of_marker {line : Text} {mode : Mode} (h : markerMode line = some mode)
    (m : Mode) : ¬ Unreadable m line := by
  have hmarker : startsWith line "#### Files to modify" ∨ startsWith line "#### Verification" ∨
      startsWith line "**Checklist:**" ∨ startsWith line "**Checklist :**" := by
    by_contra hn
    simp only [not_or] at hn
    simp [markerMode, hn] at h
  rcases hmarker with ⟨rest, rfl⟩ | ⟨rest, rfl⟩ | ⟨rest, rfl⟩ | ⟨rest, rfl⟩ <;>
    cases m <;> simp [Unreadable, startsWith]

/-- A key line of the metadata is no marker. -/
theorem markerMode_key {line : Text} (h : startsWith line "**Project:**" ∨
    startsWith line "**Effort:**" ∨ startsWith line "**Depends on:**") : markerMode line = none := by
  rcases h with ⟨rest, rfl⟩ | ⟨rest, rfl⟩ | ⟨rest, rfl⟩ <;> simp [markerMode, startsWith]

/-- What the lines outside the markers add to a scan. -/
inductive StepScan.Reads (s : StepScan) (line : Text) : StepScan → Prop
  | skipped : ¬ (s.mode = .metadata ∧ ¬ startsWith line "**" ∧ line ≠ []) → s.Reads line s
  | opening : s.mode = .metadata → ¬ startsWith line "**" ∧ line ≠ [] →
      s.Reads line { s with mode := .description, descLines := s.descLines ++ [line] }
  | description : s.mode = .description → s.Reads line { s with descLines := s.descLines ++ [line] }
  | fenced : s.mode = .verification → s.Reads line { s with verifyLines := s.verifyLines ++ [line] }
  | item {item : ChecklistItem} : s.mode = .checklist → checklistItem line = some item →
      s.Reads line { s with checklist := s.checklist ++ [item] }
  | file {path description : Text} : s.mode = .files →
      extractFileModification line = some (some (path, description)) →
      s.Reads line { s with filesToModify := s.filesToModify ++ [{ path, description }] }

theorem StepScan.reads_of_body {s t : StepScan} {line : Text} (h : s.body line = some t) :
    s.Reads line t := by
  have hother (hmode : s.mode ≠ .metadata) :
      ¬ (s.mode = .metadata ∧ ¬ startsWith line "**" ∧ line ≠ []) :=
    fun hnot => hmode hnot.1
  unfold StepScan.body at h
  cases hmode : s.mode with
  | metadata =>
    rw [hmode] at h
    dsimp only at h
    split_ifs at h with htext
    · cases h
      exact .opening hmode htext
    · cases h
      exact .skipped fun hnot => htext hnot.2
  | description =>
    rw [hmode] at h
    dsimp only at h
    split_ifs at h
    · cases h
      exact .skipped (hother (by simp [hmode]))
    · cases h
      rw [← hmode]
      exact .description hmode
  | files =>
    rw [hmode] at h
    dsimp only at h
    split_ifs at h
    · obtain ⟨file, hfile, rfl⟩ := Option.map_eq_some_iff.mp h
      cases file with
      | none => exact .skipped (hother (by simp [hmode]))
      | some file =>
        dsimp only
        rw [← hmode]
        exact .file hmode hfile
    · cases h
      exact .skipped (hother (by simp [hmode]))
  | verification =>
    rw [hmode] at h
    dsimp only at h
    split_ifs at h
    · cases h
      rw [← hmode]
      exact .fenced hmode
    · cases h
      exact .skipped (hother (by simp [hmode]))
  | checklist =>
    rw [hmode] at h
    dsimp only at h
    split_ifs at h
    · obtain ⟨item, hitem, rfl⟩ := Option.map_eq_some_iff.mp h
      rw [← hmode]
      exact .item hmode hitem
    · cases h
      exact .skipped (hother (by simp [hmode]))

/-- A line that is read leaves the mode, or ends the metadata. -/
theorem StepScan.Reads.mode {s t : StepScan} {line : Text} (h : s.Reads line t) :
    t.mode = s.mode ∨ s.mode = .metadata ∧ t.mode = .description := by
  cases h with
  | skipped _ => exact .inl rfl
  | opening hmode _ => exact .inr ⟨hmode, rfl⟩
  | description _ => exact .inl rfl
  | fenced _ => exact .inl rfl
  | item _ _ => exact .inl rfl
  | file _ _ => exact .inl rfl

/-- The loop stops at a line only when it cannot slice it. -/
theorem body_eq_none_iff (s : StepScan) (line : Text) :
    s.body line = none ↔ Unreadable s.mode line := by
  unfold StepScan.body
  cases s.mode with
  | verification =>
    dsimp only
    split_ifs
    · exact iff_of_false (by simp) id
    · exact iff_of_false (by simp) id
  | checklist =>
    dsimp only
    split_ifs with h
    · rw [Option.map_eq_none_iff, checklistItem_eq_none_iff h]
    · exact iff_of_false (by simp) fun hu => h hu.1
  | files =>
    dsimp only
    split_ifs with h
    · rw [Option.map_eq_none_iff, extractFileModification_eq_none_iff h]
    · refine iff_of_false (by simp) fun hu => h ?_
      exact List.IsPrefix.trans (by decide) hu
  | metadata =>
    dsimp only
    split_ifs
    · exact iff_of_false (by simp) id
    · exact iff_of_false (by simp) id
  | description =>
    dsimp only
    split_ifs
    · exact iff_of_false (by simp) id
    · exact iff_of_false (by simp) id

/-- A line of a step is a key of the metadata, a marker, or a line that is read in its mode. -/
theorem scanStep_cons {line : Text} (hline : ¬ isBoundary line) (rest : List Text) (s : StepScan) :
    s.mode = .metadata ∧ markerMode line = none ∧ (∃ s', s'.mode = .metadata ∧
        s'.filesToModify = s.filesToModify ∧ s'.checklist = s.checklist ∧
        s'.descLines = s.descLines ∧ s'.verifyLines = s.verifyLines ∧
        scanStep (line :: rest) s = scanStep rest s') ∨
      (∃ mode, markerMode line = some mode ∧
        scanStep (line :: rest) s = scanStep rest { s with mode }) ∨
      markerMode line = none ∧ scanStep (line :: rest) s = (s.body line).bind (scanStep rest) := by
  have hstop : ¬ stopsStep line := mt isBoundary_of_stopsStep hline
  by_cases hproject : s.mode = .metadata ∧ startsWith line "**Project:**"
  · obtain ⟨value, hvalue⟩ :=
      Option.ne_none_iff_exists'.mp (extractKeyValue_ne_none line "**Project:**")
    refine .inl ⟨hproject.1, markerMode_key (.inl hproject.2),
      { s with project := value.map (trimMatches '`') }, hproject.1, rfl, rfl, rfl, rfl, ?_⟩
    rw [scanStep, if_pos hproject, hvalue]
    rfl
  by_cases heffort : s.mode = .metadata ∧ startsWith line "**Effort:**"
  · obtain ⟨value, hvalue⟩ :=
      Option.ne_none_iff_exists'.mp (extractKeyValue_ne_none line "**Effort:**")
    refine .inl ⟨heffort.1, markerMode_key (.inr (.inl heffort.2)), { s with effort := value },
      heffort.1, rfl, rfl, rfl, rfl, ?_⟩
    rw [scanStep, if_neg hproject, if_pos heffort, hvalue]
    rfl
  by_cases hdepends : s.mode = .metadata ∧ startsWith line "**Depends on:**"
  · obtain ⟨value, hvalue⟩ := Option.ne_none_iff_exists'.mp (extractDependencies_ne_none line)
    refine .inl ⟨hdepends.1, markerMode_key (.inr (.inr hdepends.2)), { s with dependsOn := value },
      hdepends.1, rfl, rfl, rfl, rfl, ?_⟩
    rw [scanStep, if_neg hproject, if_neg heffort, if_pos hdepends, hvalue]
    rfl
  refine .inr ?_
  rw [scanStep, if_neg hproject, if_neg heffort, if_neg hdepends]
  cases hmarker : markerMode line with
  | some mode => exact .inl ⟨mode, rfl, rfl⟩
  | none => exact .inr ⟨rfl, if_neg hstop⟩

/-- The loop of `parse_step` panics exactly when it meets a line it cannot slice. -/
theorem scanStep_eq_none_iff {lines : List Text} (hlines : ∀ l ∈ lines, ¬ isBoundary l)
    (s : StepScan) : scanStep lines s = none ↔ PanicsFrom s.mode lines := by
  induction lines generalizing s with
  | nil => simp [scanStep, PanicsFrom]
  | cons line rest ih =>
    have ih := ih fun l hl => hlines l (List.mem_cons_of_mem _ hl)
    obtain ⟨hmode, hmarker, s', hmode', -, -, -, -, hrun⟩ | ⟨mode, hmarker, hrun⟩ | ⟨hmarker, hrun⟩ :=
      scanStep_cons (hlines line List.mem_cons_self) rest s
    · rw [hrun, ih, hmode', hmode, PanicsFrom, hmarker]
      simp [Unreadable]
    · rw [hrun, ih, PanicsFrom, hmarker, or_iff_right (not_unreadable_of_marker hmarker _)]
      rfl
    · rw [hrun, PanicsFrom, hmarker, Option.getD_none]
      rw [← body_eq_none_iff]
      cases hbody : s.body line with
      | none => exact iff_of_true rfl (.inl rfl)
      | some s' =>
        rw [Option.bind_some, or_iff_right (Option.some_ne_none _), ih]
        rcases (StepScan.reads_of_body hbody).mode with hmode | ⟨hmode, hmode'⟩
        · rw [hmode]
        · rw [hmode, hmode', panicsFrom_description]

/-! ## The steps of a document -/

/-- The number of a step heading. -/
def headingNumber (line : Text) : Option UInt32 :=
  if startsWith line "### Step " ∧ contains line ":" then (extractStepNumber line).join else none

/-- The lines of a step after its heading. -/
def stepBody (rest : List Text) : List Text := rest.takeWhile fun line => ¬ isBoundary line

theorem not_isBoundary_of_mem_stepBody {rest : List Text} {line : Text} (h : line ∈ stepBody rest) :
    ¬ isBoundary line := by
  simpa using List.mem_takeWhile_imp h

theorem takeWhile_eq_take_findIdx (p : Text → Bool) (l : List Text) :
    l.takeWhile (fun x => !p x) = l.take ((l.findIdx? p).getD l.length) := by
  induction l with
  | nil => rfl
  | cons x l ih =>
    cases hx : p x with
    | true => simp [List.findIdx?_cons, hx]
    | false =>
      rw [List.takeWhile_cons_of_pos (by simp [hx]), ih, List.findIdx?_cons, hx]
      cases l.findIdx? p <;> simp

/-- A step ends behind its body. -/
theorem findNextSectionBoundary_eq (pre : List Text) (line : Text) (rest : List Text) :
    findNextSectionBoundary (pre ++ line :: rest) pre.length =
      pre.length + 1 + (stepBody rest).length := by
  have hdrop : (pre ++ line :: rest).drop (pre.length + 1) = rest := by simp
  have hbody : (stepBody rest).length =
      (rest.findIdx? fun l => decide (isBoundary l)).getD rest.length := by
    have htake := takeWhile_eq_take_findIdx (fun l => decide (isBoundary l)) rest
    have hle : (rest.findIdx? fun l => decide (isBoundary l)).getD rest.length ≤ rest.length := by
      cases hfind : rest.findIdx? fun l => decide (isBoundary l) with
      | none => exact le_refl _
      | some k => exact (List.findIdx?_eq_some_iff_getElem.mp hfind).1.le
    rw [stepBody]
    simp only [decide_not]
    rw [htake, List.length_take, min_eq_left hle]
  rw [hbody]
  unfold findNextSectionBoundary
  rw [hdrop]
  cases rest.findIdx? fun l => decide (isBoundary l) with
  | none => simp only [List.length_append, List.length_cons, Option.getD_none]; omega
  | some k => simp only [Option.getD_some]

/-- The lines handed to `parse_step`. -/
theorem stepLines_eq (pre : List Text) (line : Text) (rest : List Text) :
    ((pre ++ line :: rest).take (findNextSectionBoundary (pre ++ line :: rest) pre.length)).drop
      pre.length = line :: stepBody rest := by
  have htake : rest.take (stepBody rest).length = stepBody rest :=
    (List.prefix_iff_eq_take.mp (List.takeWhile_prefix _)).symm
  rw [findNextSectionBoundary_eq, List.drop_take, Nat.add_assoc, Nat.add_sub_cancel_left,
    List.drop_left, Nat.add_comm 1, List.take_succ_cons, htake]

/-- What is read at a line. -/
theorem stepAt_eq (pre : List Text) (line : Text) (rest : List Text) :
    ∃ title, extractStepTitle line = some title ∧
      stepAt (pre ++ line :: rest) line pre.length =
        match headingNumber line with
        | none => some none
        | some number => (parseStep number title (line :: stepBody rest)).map some := by
  obtain ⟨title, htitle⟩ := Option.ne_none_iff_exists'.mp (extractStepTitle_ne_none line)
  obtain ⟨number, hnumber⟩ := Option.ne_none_iff_exists'.mp (extractStepNumber_ne_none line)
  refine ⟨title, htitle, ?_⟩
  unfold stepAt headingNumber
  rw [hnumber, htitle, ← stepLines_eq pre line rest]
  split_ifs
  · cases number with
    | none => rfl
    | some number =>
      exact (Option.map_eq_bind (f := some)).symm
  · rfl

/-- The document has a step that reads a line it cannot slice. -/
def HasUnreadableStep (lines : List Text) : Prop :=
  ∃ pre line rest, lines = pre ++ line :: rest ∧ headingNumber line ≠ none ∧
    PanicsFrom .metadata (stepBody rest)

theorem stepAt_eq_none_iff (pre : List Text) (line : Text) (rest : List Text) :
    stepAt (pre ++ line :: rest) line pre.length = none ↔
      headingNumber line ≠ none ∧ PanicsFrom .metadata (stepBody rest) := by
  obtain ⟨title, -, heq⟩ := stepAt_eq pre line rest
  rw [heq]
  cases headingNumber line with
  | none => simp
  | some number =>
    have hbody : ∀ l ∈ stepBody rest, ¬ isBoundary l := fun _ => not_isBoundary_of_mem_stepBody
    have hscan := scanStep_eq_none_iff hbody {}
    simp [parseStep, hscan]

theorem collectSteps_eq_none_iff (lines : List Text) (entries : List (Text × ℕ)) :
    collectSteps lines entries = none ↔
      ∃ entry ∈ entries, stepAt lines entry.1 entry.2 = none := by
  induction entries with
  | nil => simp [collectSteps]
  | cons entry rest ih =>
    cases hstep : stepAt lines entry.1 entry.2 with
    | none => simp [collectSteps, hstep]
    | some step =>
      cases hrest : collectSteps lines rest with
      | none => simp [collectSteps, hstep, hrest, ← ih]
      | some steps => simp [collectSteps, hstep, hrest, ← ih]

theorem extractSteps_eq_none_iff (lines : List Text) :
    extractSteps lines = none ↔ HasUnreadableStep lines := by
  have hsteps : extractSteps lines = none ↔ collectSteps lines lines.zipIdx = none := by
    unfold extractSteps
    cases collectSteps lines lines.zipIdx with
    | none => exact iff_of_true rfl rfl
    | some steps =>
      rw [Option.bind_eq_bind, Option.bind_some]
      refine iff_of_false ?_ (Option.some_ne_none _)
      by_cases h : steps = []
      · rw [if_pos h]
        exact Option.some_ne_none _
      · rw [if_neg h]
        exact Option.some_ne_none _
  rw [hsteps, collectSteps_eq_none_iff]
  constructor
  · rintro ⟨⟨line, idx⟩, hmem, hnone⟩
    obtain ⟨hlt, hget⟩ := List.mem_zipIdx' hmem
    obtain ⟨pre, rest, hsplit, rfl⟩ : ∃ pre rest, lines = pre ++ line :: rest ∧ pre.length = idx := by
      refine ⟨lines.take idx, lines.drop (idx + 1), ?_, by simp; omega⟩
      rw [hget, List.cons_getElem_drop_succ, List.take_append_drop]
    subst hsplit
    exact ⟨pre, line, rest, rfl, (stepAt_eq_none_iff pre line rest).mp hnone⟩
  · rintro ⟨pre, line, rest, rfl, hstep⟩
    refine ⟨(line, pre.length), ?_, (stepAt_eq_none_iff pre line rest).mpr hstep⟩
    rw [List.mem_zipIdx_iff_getElem?]
    simp

/-! ## Documents -/

/-- The sections without which a document is refused before its steps are read. -/
def HasRequiredSections (lines : List Text) : Prop :=
  (∃ line ∈ lines, startsWith line "# ") ∧ sectionText U .problem lines ≠ [] ∧
    sectionText U .whatNeedsDoing lines ≠ []

theorem extractTitle_ok_iff (lines : List Text) :
    (∃ title, extractTitle lines = .ok title) ↔ ∃ line ∈ lines, startsWith line "# " := by
  induction lines with
  | nil => simp [extractTitle]
  | cons line rest ih =>
    rw [List.exists_mem_cons_iff, ← ih, extractTitle, stripPrefix]
    by_cases h : startsWith line "# " <;> simp [h]

/-- A document with the required sections is parsed up to its steps. -/
theorem parseHandoff_required {content : Text} (h : HasRequiredSections U (lines content)) :
    ∃ title metadata state, extractTitle (lines content) = .ok title ∧
      extractMetadata U (lines content) = some metadata ∧ parseHandoff U content = (extractSteps (lines content)).map (Except.map fun steps =>
        { title, metadata, state, steps
          problem := sectionText U .problem (lines content)
          intent := sectionText U .whatNeedsDoing (lines content)
          completionProtocol := optionalSection U .completionProtocol (lines content)
          context := optionalSection U .context (lines content) }) := by
  obtain ⟨htitle, hproblem, hintent⟩ := h
  obtain ⟨title, htitle⟩ := (extractTitle_ok_iff _).mpr htitle
  obtain ⟨aliases, hbuild, haliases⟩ := exists_aliases U
  obtain ⟨metadata, hmetadata⟩ := exists_extractMetadata U (lines content)
  obtain ⟨state, hstate⟩ := exists_extractList U .whatExists haliases (lines content)
  refine ⟨title, metadata, state, htitle, hmetadata, ?_⟩
  have hoption (sectionType : SectionType) (e : ParseError) :
      (if sectionText U sectionType (lines content) = [] then .error e
        else .ok (sectionText U sectionType (lines content)) : Except ParseError Text).toOption =
      optionalSection U sectionType (lines content) := by
    unfold optionalSection
    split_ifs <;> rfl
  unfold parseHandoff
  simp only [hbuild, hmetadata, hstate, htitle, extractSectionByType_eq U haliases,
    Option.bind_eq_bind, Option.bind_some, onOk, if_neg hproblem, if_neg hintent, hoption]
  cases extractSteps (lines content) with
  | none => rfl
  | some steps => cases steps <;> rfl

/-- A document without one of the required sections is refused. -/
theorem parseHandoff_refused {content : Text} (h : ¬ HasRequiredSections U (lines content)) :
    ∃ e, parseHandoff U content = some (.error e) := by
  obtain ⟨aliases, hbuild, haliases⟩ := exists_aliases U
  obtain ⟨metadata, hmetadata⟩ := exists_extractMetadata U (lines content)
  obtain ⟨state, hstate⟩ := exists_extractList U .whatExists haliases (lines content)
  unfold parseHandoff
  simp only [hbuild, hmetadata, hstate, extractSectionByType_eq U haliases, Option.bind_eq_bind,
    Option.bind_some]
  cases htitle : extractTitle (lines content) with
  | error e => exact ⟨e, rfl⟩
  | ok title =>
    by_cases hproblem : sectionText U .problem (lines content) = []
    · rw [if_pos hproblem]
      exact ⟨_, rfl⟩
    · rw [if_neg hproblem]
      by_cases hintent : sectionText U .whatNeedsDoing (lines content) = []
      · rw [if_pos hintent]
        exact ⟨_, rfl⟩
      · exact absurd ⟨(extractTitle_ok_iff _).mp ⟨title, htitle⟩, hproblem, hintent⟩ h

/-- The parser panics exactly on the documents that have the required sections and a step with a
line that is cut at a wrong offset. -/
theorem parseHandoff_total_iff (content : Text) :
    parseHandoff U content ≠ none ↔
      ¬ (HasRequiredSections U (lines content) ∧ HasUnreadableStep (lines content)) := by
  rw [ne_eq, not_iff_not]
  by_cases hsections : HasRequiredSections U (lines content)
  · obtain ⟨_, _, _, -, -, hparse⟩ := parseHandoff_required U hsections
    rw [hparse, Option.map_eq_none_iff, extractSteps_eq_none_iff, and_iff_right hsections]
  · obtain ⟨e, hparse⟩ := parseHandoff_refused U hsections
    rw [hparse]
    exact iff_of_false (Option.some_ne_none _) fun h => hsections h.1

/-- A checklist line that ends at its opening bracket is cut behind its end, whatever the tables. -/
theorem truncated_item_panics : ∃ content, ∀ U, parseHandoff U content = none := by
  let content := ("# T\n## Problem\np\n## What needs doing\nd\n" ++
    "### Step 1: a\n**Checklist:**\n- [").toList
  have hlines : lines content = ["# T".toList, "## Problem".toList, "p".toList,
      "## What needs doing".toList, "d".toList, "### Step 1: a".toList, "**Checklist:**".toList,
      "- [".toList] := by decide +kernel
  have hascii : ∀ line ∈ lines content, Ascii line := by
    rw [hlines]
    decide
  refine ⟨content, fun U => ?_⟩
  by_contra h
  refine (parseHandoff_total_iff U content).mp h ⟨⟨?_, ?_, ?_⟩, ?_⟩
  · exact ⟨"# T".toList, by rw [hlines]; decide, by decide⟩
  · rw [sectionText_ascii U _ hascii, hlines]
    decide +kernel
  · rw [sectionText_ascii U _ hascii, hlines]
    decide +kernel
  · exact ⟨(lines content).take 5, "### Step 1: a".toList, (lines content).drop 6,
      by rw [hlines]; rfl, by decide +kernel, by rw [hlines]; decide +kernel⟩

end Hymenium
