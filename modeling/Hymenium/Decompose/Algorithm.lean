import Hymenium.Foundations.Grouped
import Hymenium.Foundations.UnionFind
import Hymenium.Parser.Markdown
import Hymenium.Workflow.Template
import Mathlib.Data.List.Sort
import Mathlib.Data.List.Lex

/-!
# Decomposition algorithms

Effort estimates, the grouping of steps and the packing of groups into pieces
(`src/decompose/effort.rs`, `src/decompose/algorithm.rs`).

Effort sums are `u64`; `none` is an addition that overflows. The dependency map of
`merge_dependency_groups` is a hash map, iterated in an order that is a parameter (`HashOrder`).
-/

namespace Hymenium

open Text

variable (U : Unicode)

/-! ## Configuration -/

/-- Errors of the decomposition. -/
inductive DecompositionError where
  | noSteps
  | invalidEffort (effort : Text)
  | configError (message : Text)
  deriving DecidableEq

/-- `Display` of a decomposition error. -/
def DecompositionError.message : DecompositionError → Text
  | .noSteps => "handoff contains no steps".toList
  | .invalidEffort effort => "invalid effort estimate: ".toList ++ effort
  | .configError message => "decomposition config error: ".toList ++ message

structure DecompositionConfig where
  maxEffortPerPieceSecs : UInt64 := 4 * 3600
  maxStepsPerPiece : ℕ := 3
  respectDependencies : Bool := true
  respectProjectBoundaries : Bool := true
  deriving DecidableEq

/-- `a + b`, if it has 64 bits. -/
def addSecs (a b : UInt64) : Option UInt64 :=
  if a.toNat + b.toNat < 2 ^ 64 then some (a + b) else none

/-! ## Effort -/

/-- `t.parse::<f64>()` of a text without letters and without minus sign. -/
def parseF64 (t : Text) : Option Float :=
  let t := (stripPrefix t "+").getD t
  let whole := t.takeWhile (· ≠ '.')
  let frac := (t.drop whole.length).drop 1
  if Digits (whole ++ frac) ∧ whole ++ frac ≠ [] then
    some (Float.ofScientific (Nat.ofDigitChars 10 (whole ++ frac) 0) true frac.length)
  else none

/-- The number before the unit, and the seconds of the unit. -/
def effortUnit (s : Text) : Option (Text × UInt64) :=
  let numeric := s.takeWhile fun c => ¬ (U.isAlphabetic c ∨ c = ' ')
  if contains s "day" then some (numeric, 8 * 3600)
  else if contains s "hour" ∨ s.getLast? = some 'h' then some (numeric, 3600)
  else if contains s "minute" ∨ s.getLast? = some 'm' then some (numeric, 60)
  else none

/-- `a.max(b)`, where `a` is a number. -/
def floatMax (a b : Float) : Float := if a < b then b else a

/-- `a.min(b)`, where `b` is a number. -/
def floatMin (a b : Float) : Float := if a < b then a else b

/-- `u64::MAX as f64`. -/
def maxU64 : Float := (18446744073709551615 : UInt64).toFloat

/-- Parse an effort string into seconds; of a range, the maximum counts. -/
def parseEffortSecs (effort : Text) : Except DecompositionError UInt64 :=
  let s := U.toLowercase (trim effort)
  match effortUnit U s with
  | none => .error (.invalidEffort effort)
  | some (numericPart, multiplier) =>
    if startsWith numericPart "-" then .error (.invalidEffort effort)
    else
      let value :=
        if contains numericPart "-" then
          ((numericPart.splitOn '-').mapM fun p => parseF64 (trim p)).map fun parts =>
            parts.foldl floatMax 0
        else parseF64 (trim numericPart)
      match value with
      | none => .error (.invalidEffort effort)
      | some value =>
        if value ≤ 0 then .error (.invalidEffort effort)
        else
          let effortValue := value * multiplier.toFloat
          if effortValue.isFinite ∧ 0 ≤ effortValue then .ok (floatMin effortValue maxU64).toUInt64
          else .ok 0

/-- The agent tier for an effort. -/
def tierFromEffortSecs (secs : UInt64) : AgentTier :=
  let hours := secs.toFloat / 3600
  if hours > 6 then .opus
  else if hours ≥ 2 then .sonnet
  else .haiku

/-- The agent tier for a number of steps. -/
def tierFromStepCount (count : ℕ) : AgentTier :=
  if count ≤ 1 then .haiku else if count ≤ 3 then .sonnet else .opus

/-- The warning for an effort that cannot be parsed. -/
def effortWarning (step : ParsedStep) (err : DecompositionError) : Text :=
  "step ".toList ++ ofNat step.number.toNat ++ ": ".toList ++ err.message

/-- The effort of a chunk, with the warnings for efforts that cannot be parsed. -/
def chunkEffortSecs : List ParsedStep → (total : UInt64) → Option (UInt64 × List Text)
  | [], total => some (total, [])
  | step :: rest, total =>
    match step.effort with
    | none => chunkEffortSecs rest total
    | some effort =>
      match parseEffortSecs U effort with
      | .ok secs => do
        let total ← addSecs total secs
        chunkEffortSecs rest total
      | .error err => do
        let (total, warnings) ← chunkEffortSecs rest total
        return (total, effortWarning step err :: warnings)

/-- The effort of a piece, if one of its steps has an effort that can be parsed. -/
def totalEffortSecs : List ParsedStep → (total : UInt64) → (anyParsed : Bool) →
    Option (Option UInt64 × List Text)
  | [], total, anyParsed => some (if anyParsed then some total else none, [])
  | step :: rest, total, anyParsed =>
    match step.effort with
    | none => totalEffortSecs rest total anyParsed
    | some effort =>
      match parseEffortSecs U effort with
      | .ok secs => do
        let total ← addSecs total secs
        totalEffortSecs rest total true
      | .error err => do
        let (effort, warnings) ← totalEffortSecs rest total anyParsed
        return (effort, effortWarning step err :: warnings)

/-! ## Grouping -/

/-- The project of a step. -/
def projectKey (step : ParsedStep) : Text := step.project.getD "default".toList

/-- Group steps by project, or all together. -/
def groupByProject (steps : List ParsedStep) (respectBoundaries : Bool) :
    List (Text × List ParsedStep) :=
  if respectBoundaries then Grouped.group projectKey steps else [("default".toList, steps)]

/-- The number in a dependency such as `Step 1`. -/
def parseDepStepNumber (dep : Text) : Option UInt32 :=
  (stripPrefix (U.toLowercase (trim dep)) "step").bind fun numStr => parseU32 (trim numStr)

/-- The step numbers that a step depends on. -/
def stepDeps (step : ParsedStep) : List UInt32 := step.dependsOn.filterMap (parseDepStepNumber U)

/-- Insert into a hash map. -/
def mapInsert {κ ν : Type} [DecidableEq κ] (key : κ) (value : ν) (map : List (κ × ν)) :
    List (κ × ν) :=
  (key, value) :: map.filter fun e => e.1 ≠ key

/-- The dependencies of each step number; the last step of a number counts. -/
def buildStepDeps (steps : List ParsedStep) : List (UInt32 × List UInt32) :=
  steps.foldl (fun map step => mapInsert step.number (stepDeps U step) map) []

/-- The order in which a hash map is iterated. -/
structure HashOrder where
  arrange : List (UInt32 × List UInt32) → List (UInt32 × List UInt32)
  perm : ∀ entries, (arrange entries).Perm entries

/-- Iteration in the order of the entries. -/
def HashOrder.inOrder : HashOrder where
  arrange entries := entries
  perm entries := .refl entries

/-- The pairs of steps that are united, in the order of the iteration. -/
def dependencyEdges (numbers : List UInt32) (deps : List (UInt32 × List UInt32)) :
    List (UInt32 × UInt32) :=
  deps.flatMap fun (stepNum, depList) =>
    (depList.filter (· ∈ numbers)).map fun dep => (stepNum, dep)

/-- Collect the steps by the root of their number. -/
def groupByRoot (fuel : ℕ) :
    List ParsedStep → UnionFind.Parents UInt32 → (groups : List (ℕ × List ParsedStep)) →
      Option (List (ℕ × List ParsedStep))
  | [], _, groups => some groups
  | step :: rest, parent, groups => do
    let (root, parent) ← UnionFind.find fuel parent step.number
    groupByRoot fuel rest parent (Grouped.insert root.toNat step groups)

/-- The number of the first step of a group. -/
def firstNumber (group : List ParsedStep) : ℕ := (group.head?.map (·.number.toNat)).getD 0

/-- Merge steps into the connected components of their dependencies. The recursion of a search ends
within as many steps as there are nodes. -/
def mergeDependencyGroups (order : HashOrder) (steps : List ParsedStep) :
    Option (List (List ParsedStep)) :=
  if steps = [] then some []
  else do
    let numbers := (steps.map (·.number)).dedup
    let deps := buildStepDeps U steps
    let parent : UnionFind.Parents UInt32 := fun n => if n ∈ numbers then some n else none
    let fuel := numbers.length
    let parent ← UnionFind.unionAll fuel (dependencyEdges numbers (order.arrange deps)) parent
    let groups ← groupByRoot fuel steps parent []
    let result := groups.map fun g => g.2.insertionSort fun s t => s.number.toNat ≤ t.number.toNat
    return result.insertionSort fun g h => firstNumber g ≤ firstNumber h

/-! ## Packing -/

/-- Whether a piece is closed before a chunk; an empty piece is not. -/
def closesBefore (config : DecompositionConfig) (current : List ParsedStep)
    (currentSecs chunkSecs : UInt64) : Option Bool :=
  if current = [] then some false
  else (addSecs currentSecs chunkSecs).map fun sum => decide (config.maxEffortPerPieceSecs < sum)

/-- Packing by effort. -/
def packByEffort (config : DecompositionConfig) :
    List (List ParsedStep) → (current : List ParsedStep) → (currentSecs : UInt64) →
      Option (List (List ParsedStep) × List Text)
  | [], current, _ => some (if current = [] then [] else [current], [])
  | chunk :: rest, current, currentSecs => do
    let (chunkSecs, warnings) ← chunkEffortSecs U chunk 0
    let close ← closesBefore config current currentSecs chunkSecs
    if close then
      let secs ← addSecs 0 chunkSecs
      let (pieces, more) ← packByEffort config rest chunk secs
      return (current :: pieces, warnings ++ more)
    else
      let secs ← addSecs currentSecs chunkSecs
      let (pieces, more) ← packByEffort config rest (current ++ chunk) secs
      return (pieces, warnings ++ more)

/-- Packing by the number of steps. -/
def packByCount (config : DecompositionConfig) :
    List (List ParsedStep) → (current : List ParsedStep) → (currentCount : ℕ) →
      List (List ParsedStep)
  | [], current, _ => if current = [] then [] else [current]
  | chunk :: rest, current, currentCount =>
    if current ≠ [] ∧ config.maxStepsPerPiece < currentCount + chunk.length then
      current :: packByCount config rest chunk chunk.length
    else packByCount config rest (current ++ chunk) (currentCount + chunk.length)

/-- Pack chunks into pieces. -/
def packChunks (config : DecompositionConfig) (chunks : List (List ParsedStep)) :
    Option (List (List ParsedStep) × List Text) :=
  if chunks = [] then some ([], [])
  else if chunks.flatten.any (·.effort.isSome) then packByEffort U config chunks [] 0
  else some (packByCount config chunks [] 0, [])

/-! ## Names -/

/-- A human-readable title for a list of steps. -/
def pieceTitle (steps : List ParsedStep) : Text :=
  match steps with
  | [] => []
  | [step] => step.title
  | first :: second :: rest =>
    let last := (second :: rest).getLast (List.cons_ne_nil _ _)
    "Steps ".toList ++ ofNat first.number.toNat ++ "-".toList ++ ofNat last.number.toNat ++
      ": ".toList ++ first.title ++ " & ".toList ++ last.title

/-- Convert text to a URL-safe slug. -/
def slugify (text : Text) : Text :=
  let raw := (U.toLowercase text).map fun c => if U.isAlphanumeric c then c else '-'
  join "-" ((raw.splitOn '-').filter fun s => s ≠ [])

end Hymenium
