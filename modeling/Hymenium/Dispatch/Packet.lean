import Hymenium.Decompose.RoundTrip
import Hymenium.Dispatch.Brief

/-!
# Task packets, of a handoff and of its pieces

The lists that a task packet takes from a handoff (`src/dispatch/orchestrate.rs`): the tools and the
constraints from the allowed write scope, the acceptance criteria from the steps.

A handoff may be dispatched whole, or decomposed first, each piece being rendered, parsed and
dispatched by itself. The renderer takes the metadata of the handoff; the command `decompose` gives
it none.

1. The criteria survive the way through the pieces: together the children demand what the handoff
   demands (`criteria_of_pieces`).
2. The metadata does not, with either. The block that the renderer writes is not the one that the
   parser reads, so that a child has no constraints, no write tool and no repository, whatever the
   handoff says (`child_unconstrained`).
-/

namespace Hymenium

open Text

/-! ## Packet helpers -/

/-- Source patterns that indicate write access to source code is needed. -/
def sourcePatterns : List String := ["src/", ".rs", ".ts", ".py", ".js", "lib/"]

/-- Some path of the scope is one of source code. -/
def WritesSource (scope : List Text) : Prop :=
  ∃ path ∈ scope, ∃ pat ∈ sourcePatterns, contains path pat

instance : DecidablePred WritesSource := fun scope =>
  inferInstanceAs (Decidable (∃ path ∈ scope, ∃ pat ∈ sourcePatterns, contains path pat))

def toolsForWriteScope (scope : List Text) : List String :=
  ["bash", "read"] ++ if WritesSource scope then ["write"] else []

/-- The write scope of a handoff; none without metadata. -/
def allowedWriteScope (handoff : ParsedHandoff) : List Text :=
  handoff.metadata.elim [] (·.allowedWriteScope)

/-- The boundary of a task that may write, but no source code. -/
def readOnlyConstraint (scope : List Text) : Text :=
  "Source code is read-only; artifact writes allowed at: ".toList ++ join ", " scope

def buildConstraints (handoff : ParsedHandoff) : List Text :=
  match handoff.metadata with
  | none => []
  | some metadata =>
    let scope := metadata.allowedWriteScope
    (scope.map fun path => "Write scope limited to ".toList ++ path) ++
      (if scope ≠ [] ∧ ¬ WritesSource scope then [readOnlyConstraint scope] else []) ++
      metadata.nonGoals.map fun goal => "Non-goal (do not implement): ".toList ++ goal

/-- What a step demands. -/
def stepCriteria (step : ParsedStep) : List Text :=
  (step.commands.map fun cmd => "Verification passes: ".toList ++ cmd) ++
    step.checklist.map (·.text)

def buildAcceptanceCriteria (handoff : ParsedHandoff) : List Text :=
  handoff.steps.flatMap stepCriteria

/-- What the packets of a handoff ask of a worker, in every phase. -/
structure PacketTerms where
  constraints : List Text
  acceptanceCriteria : List Text
  tools : List String
  deriving DecidableEq

def packetTerms (handoff : ParsedHandoff) : PacketTerms where
  constraints := buildConstraints handoff
  acceptanceCriteria := buildAcceptanceCriteria handoff
  tools := toolsForWriteScope (allowedWriteScope handoff)

theorem head?_append {a : Text} {c : Char} (h : a.head? = some c) (b : Text) :
    (a ++ b).head? = some c := by
  rw [List.head?_append, h, Option.some_or]

/-- **Tools and constraints agree.** A worker has the write tool exactly when its scope has source
code; where there is a scope, exactly when it is not told that the source code is read-only. -/
theorem packetTerms_agree {handoff : ParsedHandoff} (h : allowedWriteScope handoff ≠ []) :
    "write" ∈ (packetTerms handoff).tools ↔
      readOnlyConstraint (allowedWriteScope handoff) ∉ (packetTerms handoff).constraints := by
  cases hmeta : handoff.metadata with
  | none =>
    rw [allowedWriteScope, hmeta] at h
    exact absurd rfl h
  | some metadata =>
    have hscope : allowedWriteScope handoff = metadata.allowedWriteScope := by
      rw [allowedWriteScope, hmeta, Option.elim_some]
    rw [hscope] at h ⊢
    have hread : (readOnlyConstraint metadata.allowedWriteScope).head? = some 'S' :=
      head?_append (by decide) _
    have hlimit : ∀ path : Text, "Write scope limited to ".toList ++ path ≠
        readOnlyConstraint metadata.allowedWriteScope := by
      intro path heq
      rw [← heq, head?_append (by decide : "Write scope limited to ".toList.head? = some 'W')] at hread
      cases hread
    have hgoal : ∀ goal : Text, "Non-goal (do not implement): ".toList ++ goal ≠
        readOnlyConstraint metadata.allowedWriteScope := by
      intro goal heq
      rw [← heq,
        head?_append (by decide : "Non-goal (do not implement): ".toList.head? = some 'N')] at hread
      cases hread
    simp only [packetTerms, hscope, toolsForWriteScope, buildConstraints, hmeta, List.mem_append,
      List.mem_map, hlimit, hgoal, and_false, exists_false, or_false, false_or]
    by_cases hsource : WritesSource metadata.allowedWriteScope <;> simp [hsource, h]

/-! ## Criteria of the pieces -/

theorem stepCriteria_of_contents {a b : ParsedStep} (h : a.contents = b.contents) :
    stepCriteria a = stepCriteria b := by
  have hcommands : a.commands = b.commands := congrArg StepContents.commands h
  have hchecklist : a.checklist = b.checklist := congrArg StepContents.checklist h
  rw [stepCriteria, stepCriteria, hcommands, hchecklist]

/-- Steps of the same contents demand the same. -/
theorem flatMap_stepCriteria {as bs : List ParsedStep}
    (h : as.map ParsedStep.contents = bs.map ParsedStep.contents) :
    as.flatMap stepCriteria = bs.flatMap stepCriteria := by
  induction as generalizing bs with
  | nil =>
    cases bs with
    | nil => rfl
    | cons b bs => cases h
  | cons a as ih =>
    cases bs with
    | nil => cases h
    | cons b bs =>
      obtain ⟨hhead, htail⟩ := List.cons.inj h
      rw [List.flatMap_cons, List.flatMap_cons, stepCriteria_of_contents hhead, ih htail]

variable (U : Unicode)

/-- The rendered piece is parsed as the child, with the contents of its own steps. -/
def ReadsBack (parentTitle : Text) (parentMetadata : Option HandoffMetadata) (piece : HandoffPiece)
    (child : ParsedHandoff) : Prop :=
  parseHandoff U (renderPiece piece parentTitle parentMetadata) = some (.ok child) ∧
    child.steps.map ParsedStep.contents = piece.steps.map ParsedStep.contents

/-- Children that are parsed from pieces demand what the pieces demand. -/
theorem criteria_of_readsBack {parentTitle : Text} {parentMetadata : Option HandoffMetadata}
    {pieces : List HandoffPiece} {children : List ParsedHandoff}
    (h : List.Forall₂ (ReadsBack U parentTitle parentMetadata) pieces children) :
    children.flatMap buildAcceptanceCriteria =
      (pieces.map (·.steps)).flatten.flatMap stepCriteria := by
  induction h with
  | nil => rfl
  | cons hchild _ ih =>
    rw [List.flatMap_cons, ih, List.map_cons, List.flatten_cons, List.flatMap_append,
      buildAcceptanceCriteria, flatMap_stepCriteria hchild.2]

/-! ## Metadata of the pieces -/

/-- The line at which the parser begins to read metadata. -/
def metadataHeading : Text := "## Handoff Metadata".toList

theorem isBoundary_metadataHeading : isBoundary metadataHeading := by decide

theorem ne_metadataHeading_of_unmarked {l : Text} (h : Unmarked l) : l ≠ metadataHeading := by
  rintro rfl
  exact h.1 isBoundary_metadataHeading

theorem ne_metadataHeading_of_head {l : Text} {c : Char} (h : l.head? = some c) (hc : c ≠ '#') :
    l ≠ metadataHeading := by
  rintro rfl
  exact hc (Option.some.inj h).symm

theorem metadataLines_eq_nil {ls : List Text} (h : ∀ l ∈ ls, l ≠ metadataHeading) :
    metadataLines ls false = [] := by
  induction ls with
  | nil => rfl
  | cons l ls ih =>
    obtain ⟨hl, hls⟩ := List.forall_mem_cons.mp h
    exact (if_neg hl).trans ((if_neg Bool.false_ne_true).trans (ih hls))

/-- A text that ends its lines, none of which opens the metadata. -/
structure Unheaded (t : Text) : Prop where
  ends : EndsLine t
  lines : ∀ l ∈ lines t, l ≠ metadataHeading

namespace Unheaded

theorem nil : Unheaded [] := ⟨endsLine_nil, fun _ h => (List.not_mem_nil h).elim⟩

theorem append {a b : Text} (ha : Unheaded a) (hb : Unheaded b) : Unheaded (a ++ b) := by
  refine ⟨ha.ends.append hb.ends, ?_⟩
  rw [ha.ends.lines_append]
  exact List.forall_mem_append.mpr ⟨ha.lines, hb.lines⟩

theorem flatMap {α : Type} {f : α → Text} {xs : List α} (h : ∀ x ∈ xs, Unheaded (f x)) :
    Unheaded (xs.flatMap f) := by
  induction xs with
  | nil => exact nil
  | cons x xs ih =>
    obtain ⟨hx, hxs⟩ := List.forall_mem_cons.mp h
    exact hx.append (ih hxs)

/-- A line that begins with another character. -/
theorem line {c : Char} {line : Text} (hhead : line.head? = some c) (hc : c ≠ '\r' ∧ c ≠ '#')
    (hnl : '\n' ∉ line) : Unheaded (line ++ "\n".toList) := by
  refine ⟨endsLine_line line, ?_⟩
  obtain ⟨t, rfl⟩ := List.head?_eq_some_iff.mp hhead
  have hline : Text.lines (c :: t ++ "\n".toList) = [chomp (c :: t)] := lines_line hnl
  rw [hline]
  exact List.forall_mem_singleton.mpr (ne_metadataHeading_of_head (head?_chomp hc.1 t) hc.2)

end Unheaded

theorem unheaded_renderMetadata {piece : HandoffPiece} (hpiece : ∀ s ∈ piece.steps, s.Tidy)
    {metadata : HandoffMetadata} (h : metadata.Tidy) : Unheaded (renderMetadata piece metadata) := by
  have hscope : Unheaded (renderScope piece) := by
    unfold renderScope
    split_ifs
    · exact .nil
    · refine Unheaded.append ⟨by decide, by decide +kernel⟩ (.flatMap fun path hmem => ?_)
      rw [writeScope, List.mem_insertionSort, List.mem_dedup] at hmem
      obtain ⟨s, hs, hmem⟩ := List.mem_flatMap.mp hmem
      obtain ⟨f, hf, rfl⟩ := List.mem_map.mp hmem
      have hpath : '\n' ∉ f.path := ((hpiece s hs).files f hf).1
      exact .line (c := ' ') rfl (by decide) (by simp [hpath])
  have howning : Unheaded ("owning_repo: ".toList ++ metadata.owningRepo ++ "\n".toList) :=
    .line rfl (by decide) (by simp [h.1])
  have hcontract : Unheaded ("verification_contract: ".toList ++ metadata.verificationContract ++
      "\n".toList) := .line rfl (by decide) (by simp [h.2])
  have hfence : Unheaded "```yaml\n".toList := ⟨by decide, by decide +kernel⟩
  have hclose : Unheaded "```\n\n".toList := ⟨by decide, by decide +kernel⟩
  exact (((hfence.append howning).append hscope).append hcontract).append hclose

theorem unheaded_title {title : Text} (h : '\n' ∉ title) (hne : title ≠ []) :
    Unheaded ("# ".toList ++ title ++ "\n\n".toList) := by
  have hnl : '\n' ∉ "# ".toList ++ title := by simp [h]
  refine ⟨endsLine_paragraph _, ?_⟩
  rw [lines_paragraph hnl]
  have hchomp : chomp ("# ".toList ++ title) = '#' :: ' ' :: chomp title := by
    rw [← chomp_cons ' ' hne, ← chomp_cons '#' (List.cons_ne_nil _ _)]
    rfl
  rw [hchomp]
  refine List.forall_mem_cons.mpr ⟨fun h => ?_, List.forall_mem_singleton.mpr (by decide)⟩
  exact absurd (List.cons.inj (List.cons.inj h).2).1 (by decide)

theorem unheaded_renderOpening {piece : HandoffPiece} (htitle : '\n' ∉ piece.title)
    (hpiece : ∀ s ∈ piece.steps, s.Tidy) {parentTitle : Text} (hparent : '\n' ∉ parentTitle)
    {parentMetadata : Option HandoffMetadata} (hmeta : ∀ m ∈ parentMetadata, m.Tidy) :
    Unheaded (renderOpening piece parentTitle parentMetadata) := by
  have hheading : Unheaded ("# ".toList ++ parentTitle ++ ": ".toList ++ piece.title ++
      "\n\n".toList) := by
    have hnl : '\n' ∉ parentTitle ++ ": ".toList ++ piece.title := by simp [hparent, htitle]
    have hne : parentTitle ++ ": ".toList ++ piece.title ≠ [] := by simp
    simpa only [List.append_assoc] using unheaded_title hnl hne
  have hmetadata : Unheaded (parentMetadata.elim [] (renderMetadata piece)) := by
    cases hm : parentMetadata with
    | none => exact .nil
    | some m => exact unheaded_renderMetadata hpiece (hmeta m hm)
  have hproblem : Unheaded "## Problem\n\n".toList := ⟨by decide, by decide +kernel⟩
  have hchild : Unheaded ("Child piece of parent handoff \"".toList ++ parentTitle ++
      "\".\n\n".toList) := by
    have hnl : '\n' ∉ "Child piece of parent handoff \"".toList ++ parentTitle ++ "\".".toList := by
      simp only [List.mem_append, not_or]
      exact ⟨⟨by decide, hparent⟩, by decide⟩
    have hline := Unheaded.line (c := 'C') rfl (by decide) hnl
    have hblank : Unheaded "\n".toList := ⟨by decide, by decide +kernel⟩
    have hparagraph := hline.append hblank
    rwa [show "\".\n\n".toList = "\".".toList ++ "\n".toList ++ "\n".toList from rfl,
      ← List.append_assoc, ← List.append_assoc]
  have hsteps : Unheaded "## Steps\n\n".toList := ⟨by decide, by decide +kernel⟩
  exact (((hheading.append hmetadata).append hproblem).append hchild).append hsteps

/-- A step opens the metadata only with the first line of its description. -/
theorem unheaded_renderStep {step : ParsedStep} (h : step.Tidy)
    (hfirst : (lines step.description).head? ≠ some metadataHeading) :
    Unheaded (renderStep step) := by
  obtain ⟨hlines, hends⟩ := lines_renderStep h
  have hdescription : ∀ l ∈ descriptionLines step.description, l ≠ metadataHeading := by
    unfold descriptionLines
    split_ifs
    · exact fun l hl => (List.not_mem_nil hl).elim
    · refine List.forall_mem_append.mpr ⟨fun l hl => ?_, List.forall_mem_singleton.mpr (by decide)⟩
      cases hdesc : lines step.description with
      | nil =>
        rw [hdesc] at hl
        cases hl
      | cons first rest =>
        rw [hdesc] at hl hfirst
        rcases List.mem_cons.mp hl with rfl | hrest
        · exact fun heq => hfirst (congrArg some heq)
        · exact ne_metadataHeading_of_unmarked (h.descriptionLines l (by rwa [hdesc]))
  refine ⟨hends, ?_⟩
  rw [hlines, stepLines]
  simp only [List.forall_mem_cons, List.forall_mem_append]
  refine ⟨fun heq => ?_, by decide, ⟨hdescription, fun l hl => ?_⟩, ?_⟩
  · have hthird := congrArg (fun l : Text => l[2]?) heq
    cases hthird
  · exact ne_metadataHeading_of_unmarked (unmarked_middleLines h l hl)
  · exact forall_mem_checklistLines (by decide) (by decide)
      (fun t => ne_metadataHeading_of_unmarked (unmarked_bullet t)) _

theorem unheaded_renderClosing (piece : HandoffPiece) {parentTitle : Text}
    (hparent : '\n' ∉ parentTitle) : Unheaded (renderClosing piece parentTitle) := by
  have hfixed : Unheaded ("## Completion Protocol\n\n".toList ++
      "Run all verification commands above. ".toList ++
      "Report results with pass/fail evidence.\n\n".toList ++ "## Context\n\n".toList) :=
    ⟨by decide, by decide +kernel⟩
  have hcontext : Unheaded ("This piece was decomposed from: **".toList ++ parentTitle ++
      "**\n".toList) := by
    have hnl : '\n' ∉ "This piece was decomposed from: **".toList ++ parentTitle ++ "**".toList := by
      simp only [List.mem_append, not_or]
      exact ⟨⟨by decide, hparent⟩, by decide⟩
    have hline := Unheaded.line (c := 'T') rfl (by decide) hnl
    rwa [show "**\n".toList = "**".toList ++ "\n".toList from rfl, ← List.append_assoc]
  have hdepends : Unheaded (renderDependsOn piece) := by
    unfold renderDependsOn
    split_ifs
    · exact .nil
    · have hnl : '\n' ∉ "Depends on piece(s): ".toList ++
          join ", " (piece.dependsOn.map fun i => "#".toList ++ ofNat (i + 1)) := by
        simp only [List.mem_append, not_or]
        refine ⟨by decide, notMem_join (by decide) fun l hl => ?_⟩
        obtain ⟨i, -, rfl⟩ := List.mem_map.mp hl
        simp only [List.mem_append, not_or]
        exact ⟨by decide, notMem_ofNat (by decide) _⟩
      have hline := Unheaded.line (c := 'D') rfl (by decide) hnl
      have hblank : Unheaded "\n".toList := ⟨by decide, by decide +kernel⟩
      have hparagraph := hblank.append hline
      rwa [← List.append_assoc, ← List.append_assoc] at hparagraph
  exact (hfixed.append hcontext).append hdepends

theorem metadata_of_parseHandoff {content : Text} {handoff : ParsedHandoff}
    (hparse : parseHandoff U content = some (.ok handoff)) :
    extractMetadata U (lines content) = some handoff.metadata := by
  have hsections := ((parseHandoff_ok_iff U).mp ⟨handoff, hparse, rfl⟩).1
  obtain ⟨title, metadata, state, -, hmetadata, hrun⟩ := parseHandoff_required U hsections
  rw [hrun] at hparse
  obtain ⟨steps, -, heq⟩ := Option.map_eq_some_iff.mp hparse
  cases steps with
  | error e => cases heq
  | ok steps =>
    cases heq
    exact hmetadata

/-! ## A handoff with a scope -/

/-- A handoff that may write source code, with steps of two projects. -/
def scopedContent : Text :=
  "# Ship\n## Handoff Metadata\n- **Owning repo:** `hymenium`\n".toList ++
    "- **Allowed write scope:** src/\n## Problem\np\n## What needs doing\nd\n".toList ++
    "### Step 1: Build\n**Project:** `a`\nWhat needs doing\n\nBuild it.\n".toList ++
    "**Checklist:**\n- [ ] built\n".toList ++
    "### Step 2: Test\n**Project:** `b`\nWhat needs doing\n\nTest it.\n".toList ++
    "**Checklist:**\n- [ ] tested\n".toList ++
    "### Step 3: Pack\n**Project:** `a`\nWhat needs doing\n\nPack it.\n".toList ++
    "**Checklist:**\n- [ ] packed\n".toList

/-- The handoff and the children of its two pieces. -/
structure Scoped (handoff : ParsedHandoff) (r : DecompositionResult) (first second : HandoffPiece)
    (child other : ParsedHandoff) : Prop where
  parsed : parseHandoff .asciiTables scopedContent = some (.ok handoff)
  decomposed : decompose .asciiTables {} (fun _ => .inOrder) handoff = some (.ok r)
  pieces : r.pieces = [first, second]
  readBack : List.Forall₂ (ReadsBack .asciiTables handoff.title none) r.pieces [child, other]
  untitled : ∀ piece ∈ r.pieces, ∀ step ∈ piece.steps,
    (lines step.description).head? ≠ some metadataHeading
  tools : (packetTerms handoff).tools = ["bash", "read", "write"]
  constraints : (packetTerms handoff).constraints ≠ []
  criteria : buildAcceptanceCriteria child = ["built".toList, "packed".toList] ∧
    buildAcceptanceCriteria other = ["tested".toList]

/-- The child that has the steps of the piece. -/
def readBack (parentTitle : Text) (piece : HandoffPiece) : Option ParsedHandoff :=
  ((parseHandoff .asciiTables (renderPiece piece parentTitle none)).bind Except.toOption).filter
    fun child => child.steps.map ParsedStep.contents = piece.steps.map ParsedStep.contents

theorem readsBack_of_readBack {parentTitle : Text} {piece : HandoffPiece} {child : ParsedHandoff}
    (h : readBack parentTitle piece = some child) :
    ReadsBack .asciiTables parentTitle none piece child := by
  obtain ⟨hread, hcontents⟩ := Option.filter_eq_some_iff.mp h
  obtain ⟨parsed, hparsed, hchild⟩ := Option.bind_eq_some_iff.mp hread
  cases parsed with
  | error e => cases hchild
  | ok _ =>
    cases hchild
    exact ⟨hparsed, of_decide_eq_true hcontents⟩

theorem exists_scoped : ∃ handoff r first second child other,
    Scoped handoff r first second child other := by
  have h : (piecesOf scopedContent).map (fun e => decide (
      (e.2.pieces.map fun p => (readBack e.1.title p).map buildAcceptanceCriteria) =
        [some ["built".toList, "packed".toList], some ["tested".toList]] ∧
      (∀ p ∈ e.2.pieces, ∀ step ∈ p.steps,
        (lines step.description).head? ≠ some metadataHeading) ∧
      (packetTerms e.1).tools = ["bash", "read", "write"] ∧
      (packetTerms e.1).constraints ≠ [])) = some true := by
    decide +kernel
  obtain ⟨⟨handoff, r⟩, hpieces, h⟩ := Option.map_eq_some_iff.mp h
  obtain ⟨hparse, hrun⟩ := piecesOf_eq_some hpieces
  obtain ⟨hcut, huntitled, htools, hconstraints⟩ := of_decide_eq_true h
  obtain ⟨first, rest, hcons, hfirst, hrest⟩ := List.map_eq_cons_iff.mp hcut
  obtain ⟨second, rfl, hsecond⟩ := List.map_eq_singleton_iff.mp hrest
  obtain ⟨child, hchild, hcriteria⟩ := Option.map_eq_some_iff.mp hfirst
  obtain ⟨other, hother, hcriteria'⟩ := Option.map_eq_some_iff.mp hsecond
  have hreadBack : List.Forall₂ (ReadsBack .asciiTables handoff.title none) r.pieces
      [child, other] :=
    hcons ▸ .cons (readsBack_of_readBack hchild) (.cons (readsBack_of_readBack hother) .nil)
  exact ⟨handoff, r, first, second, child, other, hparse, hrun, hcons, hreadBack, huntitled, htools,
    hconstraints, hcriteria, hcriteria'⟩

/-! ## Dispatching the pieces -/

/-- **Criteria of the pieces.** When every piece is parsed to its own steps, the children together
demand what the handoff demands, each as often. -/
theorem criteria_of_pieces {handoff : ParsedHandoff} {config : DecompositionConfig}
    {orders : ℕ → HashOrder} {r : DecompositionResult}
    (hrun : decompose U config orders handoff = some (.ok r)) {parentTitle : Text}
    {parentMetadata : Option HandoffMetadata} {children : List ParsedHandoff}
    (hchildren : List.Forall₂ (ReadsBack U parentTitle parentMetadata) r.pieces children) :
    (children.flatMap buildAcceptanceCriteria).Perm (buildAcceptanceCriteria handoff) := by
  rw [criteria_of_readsBack U hchildren]
  exact (decomposed_of_ok U hrun).perm.flatMap_right stepCriteria

/-- The children of the two pieces demand in another order what the handoff demands. -/
theorem criteria_of_pieces_scoped : ∃ handoff r child other,
    decompose .asciiTables {} (fun _ => .inOrder) handoff = some (.ok r) ∧
      List.Forall₂ (ReadsBack .asciiTables handoff.title none) r.pieces [child, other] ∧
      [child, other].flatMap buildAcceptanceCriteria =
        ["built".toList, "packed".toList, "tested".toList] ∧
      ([child, other].flatMap buildAcceptanceCriteria).Perm (buildAcceptanceCriteria handoff) := by
  obtain ⟨handoff, r, first, second, child, other, h⟩ := exists_scoped
  refine ⟨handoff, r, child, other, h.decomposed, h.readBack, ?_,
    criteria_of_pieces .asciiTables h.decomposed h.readBack⟩
  obtain ⟨hchild, hother⟩ := h.criteria
  simp only [List.flatMap_cons, List.flatMap_nil, hchild, hother, List.append_nil,
    List.cons_append, List.nil_append]

/-- **Metadata of the pieces.** Whatever the write scope, the non-goals and the repository of a
handoff, and whether the renderer is given them or not: the packets of a piece have no constraints
and no write tool, and its tasks belong to the project `.`, unless the description of a step opens a
metadata block of its own. -/
theorem child_unconstrained {content : Text} {handoff : ParsedHandoff}
    (hparse : parseHandoff U content = some (.ok handoff)) {config : DecompositionConfig}
    {orders : ℕ → HashOrder} {r : DecompositionResult}
    (hrun : decompose U config orders handoff = some (.ok r)) {piece : HandoffPiece}
    (hpiece : piece ∈ r.pieces)
    (hfirst : ∀ step ∈ piece.steps, (lines step.description).head? ≠ some metadataHeading)
    {parentMetadata : Option HandoffMetadata}
    (hmetadata : parentMetadata = handoff.metadata ∨ parentMetadata = none) {child : ParsedHandoff}
    (hchild : parseHandoff U (renderPiece piece handoff.title parentMetadata) = some (.ok child)) :
    packetTerms child = ⟨[], buildAcceptanceCriteria child, ["bash", "read"]⟩ ∧
      projectRoot child = ".".toList := by
  obtain ⟨htitle, hmeta, hsteps⟩ := parseHandoff_tidy U hparse
  have hr := decomposed_of_ok U hrun
  have htidy : ∀ s ∈ piece.steps, s.Tidy := fun s hs => hsteps s (hr.mem_steps U hpiece hs)
  have hpieceTitle : '\n' ∉ piece.title := hr.titles piece hpiece ▸ notMem_pieceTitle htidy
  have hparent : ∀ m ∈ parentMetadata, m.Tidy := by
    rcases hmetadata with rfl | rfl
    · exact hmeta
    · exact fun _ h => nomatch h
  have hunheaded : Unheaded (renderPiece piece handoff.title parentMetadata) :=
    ((unheaded_renderOpening hpieceTitle htidy htitle hparent).append
      (.flatMap fun s hs => unheaded_renderStep (htidy s hs) (hfirst s hs))).append
        (unheaded_renderClosing piece htitle)
  have hnone : child.metadata = none := by
    have hextract := metadata_of_parseHandoff U hchild
    rw [extractMetadata, metadataLines_eq_nil hunheaded.lines] at hextract
    exact (Option.some.inj hextract).symm
  unfold packetTerms buildConstraints allowedWriteScope projectRoot
  rw [hnone]
  exact ⟨by simp [toolsForWriteScope, WritesSource], rfl⟩

/-- The handoff may write source code; the child of its first piece may not. -/
theorem child_unconstrained_scoped : ∃ handoff child,
    (packetTerms handoff).tools = ["bash", "read", "write"] ∧
      (packetTerms handoff).constraints ≠ [] ∧
      packetTerms child = ⟨[], buildAcceptanceCriteria child, ["bash", "read"]⟩ := by
  obtain ⟨handoff, r, first, second, child, other, h⟩ := exists_scoped
  have hpiece : first ∈ r.pieces := h.pieces ▸ List.mem_cons_self
  have hchild := h.readBack
  rw [h.pieces] at hchild
  obtain ⟨hread, -⟩ := List.forall₂_cons.mp hchild
  exact ⟨handoff, child, h.tools, h.constraints, (child_unconstrained .asciiTables h.parsed
    h.decomposed hpiece (h.untitled first hpiece) (.inr rfl) hread.1).1⟩

end Hymenium
