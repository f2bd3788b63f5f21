import Hymenium.Decompose.Decompose

/-!
# Child handoffs

`render_piece` (`src/decompose/render.rs`): a piece is written as a handoff document of its own.
-/

namespace Hymenium

open Text

/-- The paths that the steps of a piece write to. -/
def writeScope (piece : HandoffPiece) : List Text :=
  ((piece.steps.flatMap fun s => s.filesToModify.map (·.path)).dedup).insertionSort (· ≤ ·)

def renderScope (piece : HandoffPiece) : Text :=
  if writeScope piece = [] then []
  else "allowed_write_scope:\n".toList ++
    (writeScope piece).flatMap fun path => "  - ".toList ++ path ++ "\n".toList

def renderMetadata (piece : HandoffPiece) (metadata : HandoffMetadata) : Text :=
  "```yaml\n".toList ++
  ("owning_repo: ".toList ++ metadata.owningRepo ++ "\n".toList) ++
  renderScope piece ++
  ("verification_contract: ".toList ++ metadata.verificationContract ++ "\n".toList) ++
  "```\n\n".toList

def renderDescription (description : Text) : Text :=
  if description = [] then [] else description ++ "\n\n".toList

def renderFiles (files : List FileModification) : Text :=
  if files = [] then []
  else "**Files to modify:**\n\n".toList ++
    (files.flatMap fun f =>
      "- `".toList ++ f.path ++ "` — ".toList ++ f.description ++ "\n".toList) ++ "\n".toList

def renderVerification : Option VerificationBlock → Text
  | none => []
  | some ver =>
    "**Verification:**\n\n```bash\n".toList ++
      (ver.commands.flatMap fun cmd => cmd ++ "\n".toList) ++ "```\n\n".toList

def renderChecklist (checklist : List ChecklistItem) : Text :=
  if checklist = [] then []
  else "**Checklist:**\n\n".toList ++
    (checklist.flatMap fun item =>
      "- [".toList ++ (if item.checked then "x" else " ").toList ++ "] ".toList ++ item.text ++
        "\n".toList) ++ "\n".toList

def renderStep (step : ParsedStep) : Text :=
  ("### Step ".toList ++ ofNat step.number.toNat ++ ": ".toList ++ step.title ++ "\n\n".toList) ++
  renderDescription step.description ++
  renderFiles step.filesToModify ++
  renderVerification step.verification ++
  renderChecklist step.checklist

/-- What stands before the steps. -/
def renderOpening (piece : HandoffPiece) (parentTitle : Text)
    (parentMetadata : Option HandoffMetadata) : Text :=
  ("# ".toList ++ parentTitle ++ ": ".toList ++ piece.title ++ "\n\n".toList) ++
  parentMetadata.elim [] (renderMetadata piece) ++
  "## Problem\n\n".toList ++
  ("Child piece of parent handoff \"".toList ++ parentTitle ++ "\".\n\n".toList) ++
  "## Steps\n\n".toList

def renderDependsOn (piece : HandoffPiece) : Text :=
  if piece.dependsOn = [] then []
  else "\nDepends on piece(s): ".toList ++
    join ", " (piece.dependsOn.map fun i => "#".toList ++ ofNat (i + 1)) ++ "\n".toList

/-- What stands after the steps. -/
def renderClosing (piece : HandoffPiece) (parentTitle : Text) : Text :=
  "## Completion Protocol\n\n".toList ++
  "Run all verification commands above. ".toList ++
  "Report results with pass/fail evidence.\n\n".toList ++
  "## Context\n\n".toList ++
  ("This piece was decomposed from: **".toList ++ parentTitle ++ "**\n".toList) ++
  renderDependsOn piece

/-- Render a child piece as a standalone handoff document. -/
def renderPiece (piece : HandoffPiece) (parentTitle : Text)
    (parentMetadata : Option HandoffMetadata) : Text :=
  renderOpening piece parentTitle parentMetadata ++ piece.steps.flatMap renderStep ++
    renderClosing piece parentTitle

end Hymenium
