import Hymenium.Decompose.Algorithm

/-!
# Decomposition

`decompose` (`src/decompose/mod.rs`): the steps of a handoff are grouped by project, merged along
their dependencies, and packed into pieces; the dependency graph of the pieces follows from the
dependencies of their steps.
-/

namespace Hymenium

open Text

variable (U : Unicode)

/-- A single child handoff. -/
structure HandoffPiece where
  suggestedSlug : Text
  title : Text
  steps : List ParsedStep
  estimatedEffortSecs : Option UInt64
  suggestedTier : AgentTier
  dependsOn : List ℕ
  deriving DecidableEq

/-- The output of decomposing a handoff. -/
structure DecompositionResult where
  originalTitle : Text
  pieces : List HandoffPiece
  dependencyGraph : List (ℕ × ℕ)
  warnings : List Text
  deriving DecidableEq

/-- The pieces cut so far, with the piece of each step number. -/
structure Cut where
  pieces : List HandoffPiece := []
  stepToPiece : List (UInt32 × ℕ) := []
  warnings : List Text := []

/-- Cut one piece. -/
def Cut.piece (parentSlug : Text) (cut : Cut) (sub : List ParsedStep) : Option Cut := do
  let pieceIdx := cut.pieces.length
  let stepToPiece := sub.foldl (fun map step => mapInsert step.number pieceIdx map) cut.stepToPiece
  let (effort, warnings) ← totalEffortSecs U sub 0 false
  let tier := match effort with
    | some secs => tierFromEffortSecs secs
    | none => tierFromStepCount sub.length
  return {
    pieces := cut.pieces ++ [{
      suggestedSlug := parentSlug ++ "-".toList ++ ofNat (pieceIdx + 1)
      title := pieceTitle sub
      steps := sub
      estimatedEffortSecs := effort
      suggestedTier := tier
      dependsOn := [] }]
    stepToPiece
    warnings := cut.warnings ++ warnings }

/-- The steps of a project that stay together. -/
def atomicChunks (config : DecompositionConfig) (order : HashOrder) (steps : List ParsedStep) :
    Option (List (List ParsedStep)) :=
  if config.respectDependencies then mergeDependencyGroups U order steps
  else some (steps.map fun s => [s])

/-- Cut the pieces of one project. -/
def Cut.project (config : DecompositionConfig) (parentSlug : Text) (cut : Cut) (order : HashOrder)
    (steps : List ParsedStep) : Option Cut := do
  let chunks ← atomicChunks U config order steps
  let (packed, warnings) ← packChunks U config chunks
  packed.foldlM (Cut.piece U parentSlug) { cut with warnings := cut.warnings ++ warnings }

/-- Cut the pieces of all projects; `orders k` is the order of the hash map of the `k`-th. -/
def Cut.projects (config : DecompositionConfig) (parentSlug : Text) (orders : ℕ → HashOrder) :
    List (List ParsedStep × ℕ) → Cut → Option Cut
  | [], cut => some cut
  | (steps, k) :: rest, cut => do
    let cut ← cut.project U config parentSlug (orders k) steps
    Cut.projects config parentSlug orders rest cut

/-- The warning for a dependency that names no step. -/
def missingWarning (step : ParsedStep) (dep : UInt32) : Text :=
  "step ".toList ++ ofNat step.number.toNat ++ ": dependency 'Step ".toList ++ ofNat dep.toNat ++
    "' not found in handoff steps".toList

/-- The pieces, other than `pieceIdx`, that hold the dependencies of steps of that piece. -/
def pieceDeps (numbers : List UInt32) (stepToPiece : List (UInt32 × ℕ)) (pieceIdx : ℕ)
    (steps : List ParsedStep) : List ℕ :=
  let found := steps.flatMap fun step =>
    (stepDeps U step).filterMap fun dep =>
      if dep ∈ numbers then (stepToPiece.lookup dep).filter (· ≠ pieceIdx) else none
  found.dedup.insertionSort (· ≤ ·)

/-- The warnings for dependencies of a piece that name no step. -/
def missingDeps (numbers : List UInt32) (steps : List ParsedStep) : List Text :=
  steps.flatMap fun step =>
    (stepDeps U step).filterMap fun dep =>
      if dep ∈ numbers then none else some (missingWarning step dep)

/-- Fill in the dependencies of the pieces. -/
def fillDeps (deps : HandoffPiece → ℕ → List ℕ) (pieces : List HandoffPiece) : List HandoffPiece :=
  pieces.zipIdx.map fun (piece, i) => { piece with dependsOn := deps piece i }

/-- The edges between the pieces. -/
def pieceGraph (deps : HandoffPiece → ℕ → List ℕ) (pieces : List HandoffPiece) : List (ℕ × ℕ) :=
  pieces.zipIdx.flatMap fun (piece, i) => (deps piece i).map fun j => (i, j)

/-- Decompose a parsed handoff into focused child pieces. -/
def decompose (config : DecompositionConfig) (orders : ℕ → HashOrder) (handoff : ParsedHandoff) :
    Option (Except DecompositionError DecompositionResult) :=
  if handoff.steps = [] then some (.error .noSteps)
  else do
    let parentSlug := slugify U handoff.title
    let projectGroups := groupByProject handoff.steps config.respectProjectBoundaries
    let cut ← Cut.projects U config parentSlug orders (projectGroups.map Prod.snd).zipIdx {}
    let numbers := (handoff.steps.map (·.number)).dedup
    let deps (piece : HandoffPiece) (pieceIdx : ℕ) : List ℕ :=
      pieceDeps U numbers cut.stepToPiece pieceIdx piece.steps
    return .ok {
      originalTitle := handoff.title
      pieces := fillDeps deps cut.pieces
      dependencyGraph := pieceGraph deps cut.pieces
      warnings := cut.warnings ++ cut.pieces.flatMap fun piece => missingDeps U numbers piece.steps }

end Hymenium
