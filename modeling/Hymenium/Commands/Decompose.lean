import Hymenium.Decompose.Determinism
import Hymenium.Decompose.RoundTrip
import Hymenium.Foundations.Runs
import Hymenium.Foundations.Writes
import Hymenium.Parser.Outline

/-!
# The `decompose` command

`src/commands/decompose.rs`: the pieces of a handoff are written as files beside it, each under its
slug. A write can fail, and the pieces before it stay written. A run leaves the handoff alone unless
a piece has its file name, so that the command can be run again: the first run without a failure
leaves what it would have left alone (`decompose_resumed`).
-/

namespace Hymenium

open Text

/-- The texts in the directory of the handoff, by file name. A text that cannot be read is not
there. -/
abbrev Directory := Text → Option Text

/-- Errors of the `decompose` command; the texts of the operating system are given. -/
inductive DecomposeCommandError where
  | readFile (path source : Text)
  | parse (e : ParseError)
  | decompose (e : DecompositionError)
  | writeFile (path source : Text)

/-- `Debug` of a tier. -/
def AgentTier.debug : AgentTier → String
  | .opus => "Opus"
  | .sonnet => "Sonnet"
  | .haiku => "Haiku"
  | .any => "Any"

/-- A run of the command on the handoff `name`: its flag, the orders of its hash maps, how a failure
to read is told, how its writes end, and how the file names of the directory are shown. -/
structure DecomposeRun where
  name : Text
  dryRun : Bool
  orders : ℕ → HashOrder
  readError : Text
  ends : ℕ → Writes.End Text Text
  display : Text → Text

/-- What a run prints, and how it ends; `none` is a panic. -/
structure DecomposeOutput where
  stderr : List Text := []
  stdout : List Text := []
  result : Option (Except DecomposeCommandError Unit)

/-- The file name of a piece. -/
def pieceFile (piece : HandoffPiece) : Text := piece.suggestedSlug ++ ".md".toList

/-- The files of a decomposition. -/
def DecompositionResult.files (r : DecompositionResult) : List (Text × Text) :=
  r.pieces.map fun piece => (pieceFile piece, renderPiece piece r.originalTitle none)

def dryRunLines (piece : HandoffPiece) : List Text := [
  "  [dry-run] would write: ".toList ++ pieceFile piece,
  "    title: ".toList ++ piece.title,
  "    steps: ".toList ++ ofNat piece.steps.length ++ "  tier: ".toList ++
    piece.suggestedTier.debug.toList]

def wroteLine (piece : HandoffPiece) : Text :=
  "  wrote: ".toList ++ pieceFile piece ++ "  (".toList ++ ofNat piece.steps.length ++
    " step(s), tier: ".toList ++ piece.suggestedTier.debug.toList ++ ")".toList

def decomposedLine (r : DecompositionResult) : Text :=
  "decomposed '".toList ++ r.originalTitle ++ "' into ".toList ++ ofNat r.pieces.length ++
    " piece(s)".toList

/-- The error of a run that wrote some pieces. -/
def writeError (run : DecomposeRun) (r : DecompositionResult) (written : ℕ) (source : Text) :
    DecomposeCommandError :=
  .writeFile (run.display (((r.pieces.map pieceFile)[written]?).getD [])) source

variable (U : Unicode)

/-- Run the `decompose` command. -/
def decomposeCommand (run : DecomposeRun) (dir : Directory) : DecomposeOutput × Directory :=
  match dir run.name with
  | none =>
    ({ result := some (.error (.readFile (run.display run.name) run.readError)) }, dir)
  | some source =>
    match parseHandoff U source with
    | none => ({ result := none }, dir)
    | some (.error e) => ({ result := some (.error (.parse e)) }, dir)
    | some (.ok handoff) =>
      match decompose U {} run.orders handoff with
      | none => ({ result := none }, dir)
      | some (.error e) => ({ result := some (.error (.decompose e)) }, dir)
      | some (.ok r) =>
        let stderr := r.warnings.map ("warning: ".toList ++ ·)
        if run.dryRun then
          ({ stderr
             stdout := decomposedLine r :: r.pieces.flatMap dryRunLines
             result := some (.ok ()) }, dir)
        else
          let ((written, failure), dir) := Writes.all run.ends r.files dir
          ({ stderr
             stdout := decomposedLine r :: (r.pieces.take written).map wroteLine
             result := some (match failure with
               | none => .ok ()
               | some source => .error (writeError run r written source)) }, dir)

/-! ## One run -/

/-- The handoff `name` is decomposed into `r`. -/
def CutsInto (dir : Directory) (name : Text) (r : DecompositionResult) : Prop :=
  ∃ source handoff, dir name = some source ∧ parseHandoff U source = some (.ok handoff) ∧
    decompose U {} (fun _ => .inOrder) handoff = some (.ok r)

section OneRun

variable {U} {dir : Directory} {run : DecomposeRun} {r : DecompositionResult}

theorem CutsInto.congr {dir' : Directory} {name : Text} (h : CutsInto U dir name r)
    (hname : dir' name = dir name) : CutsInto U dir' name r := by
  obtain ⟨source, handoff, hread, hparse, hcut⟩ := h
  exact ⟨source, handoff, hname.trans hread, hparse, hcut⟩

/-- The pieces have different file names. -/
theorem CutsInto.nodup_files {name : Text} (h : CutsInto U dir name r) :
    (r.files.map Prod.fst).Nodup := by
  obtain ⟨_, _, -, -, hcut⟩ := h
  have hslugs := (decomposed_of_ok U hcut).nodup_slugs U
  have hfiles : r.files.map Prod.fst =
      (r.pieces.map (·.suggestedSlug)).map (· ++ ".md".toList) := by
    rw [DecompositionResult.files, List.map_map, List.map_map]
    rfl
  rw [hfiles]
  exact hslugs.map fun _ _ => List.append_cancel_right

/-- What a run does to the directory, whatever the order of its hash maps. -/
theorem CutsInto.decomposeCommand (h : CutsInto U dir run.name r) :
    (Hymenium.decomposeCommand U run dir).2 =
      if run.dryRun then dir else (Writes.all run.ends r.files dir).2 := by
  obtain ⟨source, handoff, hread, hparse, hcut⟩ := h
  rw [← decompose_inOrder U {} run.orders] at hcut
  unfold Hymenium.decomposeCommand
  simp only [hread, hparse, hcut]
  split <;> rfl

/-- A run touches the files of the pieces only. -/
theorem CutsInto.frame (h : CutsInto U dir run.name r) {n : Text}
    (hn : n ∉ r.files.map Prod.fst) : (Hymenium.decomposeCommand U run dir).2 n = dir n := by
  rw [h.decomposeCommand]
  split
  · rfl
  · exact Writes.all_of_notMem hn

/-- A run without a failure succeeds, and writes every piece. -/
theorem CutsInto.written (h : CutsInto U dir run.name r) (hwet : run.dryRun = false)
    (hdone : ∀ k < r.pieces.length, run.ends k = .done) :
    (Hymenium.decomposeCommand U run dir).1.result = some (.ok ()) ∧
      ∀ piece ∈ r.pieces, (Hymenium.decomposeCommand U run dir).2 (pieceFile piece) =
        some (renderPiece piece r.originalTitle none) := by
  have hdone' : ∀ k < r.files.length, run.ends k = .done := by
    rw [DecompositionResult.files, List.length_map]
    exact hdone
  constructor
  · obtain ⟨source, handoff, hread, hparse, hcut⟩ := h
    rw [← decompose_inOrder U {} run.orders] at hcut
    unfold Hymenium.decomposeCommand
    simp only [hread, hparse, hcut, hwet, Writes.all_done hdone']
    rfl
  · intro piece hpiece
    rw [h.decomposeCommand, hwet]
    exact Writes.all_of_mem h.nodup_files hdone' (List.mem_map_of_mem hpiece)

end OneRun

/-! ## Runs -/

/-- The directory after runs of the command. -/
abbrev runDecompositions (dir : Directory) (runs : List DecomposeRun) : Directory :=
  Runs.run (fun dir run => (decomposeCommand U run dir).2) dir runs

/-- Runs on one handoff keep it, and touch the files of its pieces only. -/
theorem CutsInto.runs {U : Unicode} {dir : Directory} {name : Text} {r : DecompositionResult}
    (h : CutsInto U dir name r) (hsafe : name ∉ r.files.map Prod.fst) {runs : List DecomposeRun}
    (hruns : ∀ run ∈ runs, run.name = name) :
    CutsInto U (runDecompositions U dir runs) name r ∧
      ∀ n, n ∉ r.files.map Prod.fst → runDecompositions U dir runs n = dir n := by
  induction runs generalizing dir with
  | nil => exact ⟨h, fun _ _ => rfl⟩
  | cons run rest ih =>
    obtain ⟨hrun, hrest⟩ := List.forall_mem_cons.mp hruns
    have hcuts : CutsInto U dir run.name r := hrun ▸ h
    obtain ⟨hkept, hframe⟩ := ih (h.congr (hcuts.frame hsafe)) hrest
    exact ⟨hkept, fun n hn => (hframe n hn).trans (hcuts.frame hn)⟩

/-- **Running again.** However many runs of `decompose` were tried on a handoff, and wherever their
writes failed, a run without a failure writes every piece and leaves the other files as they were
at first. Only a handoff that has the file name of a piece is lost. -/
theorem decompose_resumed {dir : Directory} {name : Text} {r : DecompositionResult}
    (hcuts : CutsInto U dir name r) (hsafe : name ∉ r.files.map Prod.fst)
    (runs : List DecomposeRun) (hruns : ∀ run ∈ runs, run.name = name) {last : DecomposeRun}
    (hname : last.name = name) (hwet : last.dryRun = false)
    (hdone : ∀ k < r.pieces.length, last.ends k = .done) :
    let final := decomposeCommand U last (runDecompositions U dir runs)
    final.1.result = some (.ok ()) ∧
      (∀ piece ∈ r.pieces,
        final.2 (pieceFile piece) = some (renderPiece piece r.originalTitle none)) ∧
      ∀ n, n ∉ r.files.map Prod.fst → final.2 n = dir n := by
  intro final
  obtain ⟨hkept, hframe⟩ := hcuts.runs hsafe hruns
  have hlast : CutsInto U (runDecompositions U dir runs) last.name r := hname ▸ hkept
  obtain ⟨hok, hfiles⟩ := hlast.written hwet hdone
  exact ⟨hok, hfiles, fun n hn => (hlast.frame hn).trans (hframe n hn)⟩

/-! ## Overwritten handoffs -/

/-- The number of characters that are not white space. -/
def ink (t : Text) : ℕ := t.countP fun c => !isWhitespace c

theorem ink_append (t u : Text) : ink (t ++ u) = ink t + ink u := List.countP_append

theorem ink_of_blank {t : Text} (h : Blank t) : ink t = 0 :=
  List.countP_eq_zero.mpr fun c hc => by simp [h c hc]

theorem ink_trim (t : Text) : ink (trim t) = ink t := by
  obtain ⟨u, v, ht, hu, hv⟩ := exists_blank_trim t
  have hink := congrArg ink ht
  rw [ink_append, ink_append, ink_of_blank hu, ink_of_blank hv] at hink
  omega

theorem ink_chomp (t : Text) : ink (chomp t) = ink t := by
  unfold chomp
  split_ifs with h
  · obtain ⟨u, rfl⟩ := List.getLast?_eq_some_iff.mp h
    rw [List.dropLast_concat, ink_append]
    rfl
  · rfl

/-- A piece is not titled like its parent. -/
theorem titleText_renderPiece {piece : HandoffPiece} {parentTitle title : Text}
    (hparent : '\n' ∉ parentTitle) (hpiece : '\n' ∉ piece.title)
    (h : (lines (renderPiece piece parentTitle none)).findSome? titleText = some title) :
    title ≠ parentTitle := by
  let text := parentTitle ++ ": ".toList ++ piece.title
  have hne : text ≠ [] := by simp [text]
  have hlines : ∃ rest, lines (renderPiece piece parentTitle none) =
      ('#' :: ' ' :: chomp text) :: rest := by
    refine ⟨lines ('\n' :: ("## Problem\n\n".toList ++
      ("Child piece of parent handoff \"".toList ++ parentTitle ++ "\".\n\n".toList) ++
      "## Steps\n\n".toList ++ piece.steps.flatMap renderStep ++
      renderClosing piece parentTitle)), ?_⟩
    rw [← chomp_cons _ hne, ← chomp_cons _ (List.cons_ne_nil _ _), ← lines_append]
    · unfold renderPiece renderOpening
      rw [show "# ".toList = ['#', ' '] from rfl, show "\n\n".toList = ['\n', '\n'] from rfl]
      simp only [text, Option.elim_none, List.append_assoc, List.cons_append, List.nil_append]
    · simpa [text] using ⟨hparent, hpiece⟩
  obtain ⟨rest, hlines⟩ := hlines
  have hstrip : stripPrefix ('#' :: ' ' :: chomp text) "# " = some (chomp text) :=
    stripPrefix_eq_some.mpr rfl
  have htitle : titleText ('#' :: ' ' :: chomp text) = some (trim (chomp text)) := by
    rw [titleText, hstrip, Option.map_some]
  rw [hlines, List.findSome?_cons, htitle] at h
  cases h
  intro heq
  have hink := congrArg ink heq
  have hcolon : ink ": ".toList = 1 := by simp [ink, isWhitespace]
  rw [ink_trim, ink_chomp, ink_append, ink_append, hcolon] at hink
  omega

theorem decompose_originalTitle {config : DecompositionConfig} {orders : ℕ → HashOrder}
    {handoff : ParsedHandoff} {r : DecompositionResult}
    (h : decompose U config orders handoff = some (.ok r)) : r.originalTitle = handoff.title := by
  unfold decompose at h
  split_ifs at h
  · cases h
  · simp only [Option.bind_eq_bind, Option.bind_eq_some_iff, Option.pure_def,
      Option.some.injEq, Except.ok.injEq] at h
    obtain ⟨cut, -, rfl⟩ := h
    rfl

/-- **The handoff itself.** A run that writes every piece leaves a handoff that is decomposed into
the same pieces again if and only if no piece has its file name. -/
theorem handoff_kept_iff {dir : Directory} {run : DecomposeRun} {r : DecompositionResult}
    (hcuts : CutsInto U dir run.name r) (hwet : run.dryRun = false)
    (hdone : ∀ k < r.pieces.length, run.ends k = .done) :
    CutsInto U (decomposeCommand U run dir).2 run.name r ↔ run.name ∉ r.files.map Prod.fst := by
  constructor
  · rintro ⟨source, child, hread, hparse, hcut⟩ hmem
    obtain ⟨file, hfile, hname⟩ := List.mem_map.mp hmem
    obtain ⟨piece, hpiece, rfl⟩ := List.mem_map.mp hfile
    -- the handoff is overwritten by a piece, whose title is longer
    rw [← hname, (hcuts.written hwet hdone).2 piece hpiece] at hread
    cases hread
    obtain ⟨_, handoff, -, hparsed, hdecomposed⟩ := hcuts
    have hr := decomposed_of_ok U hdecomposed
    obtain ⟨hparent, -, hsteps⟩ := parseHandoff_tidy U hparsed
    have htitle : '\n' ∉ piece.title := hr.titles piece hpiece ▸
      notMem_pieceTitle fun s hs => hsteps s (hr.mem_steps U hpiece hs)
    rw [← decompose_originalTitle U hdecomposed] at hparent
    exact titleText_renderPiece hparent htitle (parseHandoff_read U hparse).2.1
      (decompose_originalTitle U hcut).symm
  · exact fun hsafe => hcuts.congr (hcuts.frame hsafe)

/-! ## A handoff with one piece -/

/-- A directory with one file. -/
def handoffAt (name : Text) : Directory := fun n => if n = name then some namedContent else none

/-- A run on the handoff `name` whose writes end as given. -/
def sampleRun (name : Text) (ends : ℕ → Writes.End Text Text) : DecomposeRun where
  name
  dryRun := false
  orders _ := .inOrder
  readError := "No such file or directory".toList
  ends
  display := id

theorem files_namedContent : (piecesOf namedContent).map (fun e => e.2.files.map Prod.fst) =
    some ["ship-1.md".toList] := by decide +kernel

/-- The decomposition of the handoff, wherever it stands. -/
theorem cutsInto_namedContent (name : Text) : ∃ r,
    CutsInto .asciiTables (handoffAt name) name r ∧ r.files.map Prod.fst = ["ship-1.md".toList] := by
  obtain ⟨⟨handoff, r⟩, hrun, hfiles⟩ := Option.map_eq_some_iff.mp files_namedContent
  obtain ⟨hparse, hcut⟩ := piecesOf_eq_some hrun
  exact ⟨r, ⟨namedContent, handoff, if_pos rfl, hparse, hcut⟩, hfiles⟩

/-- A run on `plan.md` whose first write breaks off is completed by a second. -/
theorem decompose_resumed_plan : ∃ r,
    CutsInto .asciiTables (handoffAt "plan.md".toList) "plan.md".toList r ∧
    let broken := sampleRun "plan.md".toList fun _ => .failed "disk full".toList (some [])
    let final := decomposeCommand .asciiTables (sampleRun "plan.md".toList fun _ => .done)
      (runDecompositions .asciiTables (handoffAt "plan.md".toList) [broken])
    final.1.result = some (.ok ()) ∧
      (∀ piece ∈ r.pieces,
        final.2 (pieceFile piece) = some (renderPiece piece r.originalTitle none)) ∧
      ∀ n, n ∉ r.files.map Prod.fst → final.2 n = handoffAt "plan.md".toList n := by
  obtain ⟨r, hcuts, hfiles⟩ := cutsInto_namedContent "plan.md".toList
  refine ⟨r, hcuts, ?_⟩
  have hsafe : "plan.md".toList ∉ r.files.map Prod.fst := by
    rw [hfiles]
    decide
  exact decompose_resumed .asciiTables hcuts hsafe _ (List.forall_mem_singleton.mpr rfl) rfl rfl
    fun _ _ => rfl

/-- A handoff with the file name of its piece is lost. -/
theorem handoff_kept_iff_ship : ∃ r,
    CutsInto .asciiTables (handoffAt "ship-1.md".toList) "ship-1.md".toList r ∧
    ¬ CutsInto .asciiTables (decomposeCommand .asciiTables
      (sampleRun "ship-1.md".toList fun _ => .done) (handoffAt "ship-1.md".toList)).2
      "ship-1.md".toList r := by
  obtain ⟨r, hcuts, hfiles⟩ := cutsInto_namedContent "ship-1.md".toList
  refine ⟨r, hcuts, fun hkept => ?_⟩
  let run := sampleRun "ship-1.md".toList fun _ => .done
  have hruns : CutsInto .asciiTables (handoffAt "ship-1.md".toList) run.name r := hcuts
  have hsafe := (handoff_kept_iff .asciiTables hruns rfl fun _ _ => rfl).mp hkept
  rw [hfiles] at hsafe
  exact hsafe List.mem_cons_self

end Hymenium
