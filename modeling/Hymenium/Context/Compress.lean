import Hymenium.Foundations.Grouped
import Hymenium.Foundations.Text
import Mathlib.Logic.Function.Basic

/-!
# Context compression

The budget engine (`src/context.rs`): `pruneToBudget` selects messages in priority order while they
fit into the token budget, `sanitizeToolPairs` drops orphaned and repeated tool messages and inserts
stub results, and `compress` does one after the other.

The sums of token counts are natural numbers: every message takes more bytes than it counts tokens,
so that no list of messages in memory saturates them. The hash sets that are only asked for members
are lists. `insertMissingToolStubs` iterates one in an order that is a parameter (`SetOrder`).
-/

namespace Hymenium

/-! ## Messages -/

/-- The role assigned to a context message. -/
inductive ContextMessageRole where
  | system | user | assistant | toolCall | toolResult
  deriving DecidableEq

/-- A single context message. -/
structure ContextMessage where
  id : String
  role : ContextMessageRole
  content : Text
  toolCallId : Option String := none
  toolName : Option String := none
  deriving DecidableEq

def estimateTextTokens (text : Text) : ℕ := (Text.splitWhitespace text).length

namespace ContextMessage

/-- Build a plain text message. -/
def text (id : String) (role : ContextMessageRole) (content : Text) : ContextMessage where
  id
  role
  content

/-- Build a tool call message. -/
def toolCall (id toolName : String) (content : Text) : ContextMessage where
  id
  role := .toolCall
  content
  toolName := some toolName

/-- Build a tool result message. -/
def toolResult (id toolCallId toolName : String) (content : Text) : ContextMessage where
  id
  role := .toolResult
  content
  toolCallId := some toolCallId
  toolName := some toolName

def tokenCost (message : ContextMessage) : ℕ := estimateTextTokens message.content + 4

def isToolCall (message : ContextMessage) : Bool := message.role = .toolCall

def isToolResult (message : ContextMessage) : Bool := message.role = .toolResult

end ContextMessage

/-- Parameters that steer a compression pass. -/
structure CompressionParams where
  focusTopic : Option Text
  tokenBudget : ℕ

/-- A single item included in a compression report. -/
structure CompressionItem where
  messageId : String
  role : ContextMessageRole
  note : String
  deriving DecidableEq

/-- Report describing what changed during compression. -/
structure CompressionReport where
  removed : List CompressionItem := []
  summarized : List CompressionItem := []
  stubbed : List CompressionItem := []
  deriving DecidableEq

/-- The report with one more removed message. -/
def CompressionReport.remove (report : CompressionReport) (message : ContextMessage)
    (note : String) : CompressionReport :=
  { report with removed := report.removed ++ [⟨message.id, message.role, note⟩] }

/-- The result of a compression pass. -/
structure CompressionResult where
  messages : List ContextMessage
  report : CompressionReport
  deriving DecidableEq

/-- Errors that can occur while compressing context. -/
inductive ContextError where
  | invalidBudget
  deriving DecidableEq

/-! ## Pruning to the budget -/

/-- The indices of the messages, those on the focus topic first, and the last message first. -/
def prioritizedIndices (U : Unicode) (messages : List ContextMessage)
    (focusTopic : Option Text) : List ℕ :=
  let focusTopic := ((focusTopic.map Text.trim).filter (· ≠ [])).map U.toLowercase
  let (matching, remaining) := messages.zipIdx.partition fun (message, _) =>
    focusTopic.any fun topic => decide (topic <:+: U.toLowercase message.content)
  (matching.reverse ++ remaining.reverse).map fun (_, idx) => idx

def truncateMessageToBudget (message : ContextMessage) (tokenBudget : ℕ) :
    Option (ContextMessage × CompressionItem) :=
  let contentBudget := tokenBudget - 4
  if contentBudget = 0 then none
  else
    let words := Text.splitWhitespace message.content
    let truncated := if contentBudget < words.length then
        { message with content := Text.join " " (words.take contentBudget) }
      else message
    some (truncated, ⟨message.id, message.role, "summarized to fit token budget"⟩)

/-- The variables of the pruning loop. -/
structure PruneState where
  keptIndices : List ℕ := []
  totalTokens : ℕ := 0
  report : CompressionReport := {}
  truncatedFallback : Option (ℕ × ContextMessage) := none

/-- One turn of the pruning loop. -/
def pruneMessage (messages : List ContextMessage) (tokenBudget : ℕ) (s : PruneState) (idx : ℕ) :
    PruneState :=
  match messages[idx]? with
  | none => s
  | some message =>
    let cost := message.tokenCost
    if s.totalTokens + cost ≤ tokenBudget then
      { s with keptIndices := idx :: s.keptIndices, totalTokens := s.totalTokens + cost }
    else if s.keptIndices = [] then
      match truncateMessageToBudget message tokenBudget with
      | some (truncated, summary) =>
        { s with
          totalTokens := truncated.tokenCost
          truncatedFallback := some (idx, truncated)
          keptIndices := [idx]
          report := { s.report with summarized := s.report.summarized ++ [summary] } }
      | none => { s with report := s.report.remove message "removed to fit token budget" }
    else { s with report := s.report.remove message "removed to fit token budget" }

/-- The kept messages in their order, and the truncated one in its place. -/
def PruneState.kept (s : PruneState) (messages : List ContextMessage) : List ContextMessage :=
  messages.zipIdx.filterMap fun (message, idx) =>
    if idx ∉ s.keptIndices then none
    else match s.truncatedFallback with
    | some (fallbackIdx, truncated) => if fallbackIdx = idx then some truncated else some message
    | none => some message

def pruneToBudget (U : Unicode) (messages : List ContextMessage) (params : CompressionParams) :
    List ContextMessage × CompressionReport :=
  let s := (prioritizedIndices U messages params.focusTopic).foldl
    (pruneMessage messages params.tokenBudget) {}
  (s.kept messages, s.report)

/-! ## Sanitizing tool pairs -/

structure SanitizedRetention where
  output : List ContextMessage := []
  retainedCalls : List String := []
  retainedResults : List String := []
  report : CompressionReport := {}
  retainedCallPositions : String → Option ℕ := fun _ => none
  callNames : String → Option String := fun _ => none

/-- One turn of the retention loop. -/
def retainMessage (s : SanitizedRetention) (message : ContextMessage) : SanitizedRetention :=
  if message.isToolCall then
    if message.id ∉ s.retainedCalls then
      { s with
        retainedCalls := message.id :: s.retainedCalls
        retainedCallPositions :=
          Function.update s.retainedCallPositions message.id (some s.output.length)
        callNames :=
          Function.update s.callNames message.id (some (message.toolName.getD "tool"))
        output := s.output ++ [message] }
    else
      { s with
        report := s.report.remove message "duplicate tool call removed during sanitization" }
  else if message.isToolResult then
    match message.toolCallId with
    | some callId =>
      if (s.retainedCallPositions callId).isSome then
        if callId ∉ s.retainedResults then
          { s with
            retainedResults := callId :: s.retainedResults
            output := s.output ++ [message] }
        else
          { s with report := s.report.remove message "tool result removed during sanitization" }
      else { s with report := s.report.remove message "orphaned tool result removed" }
    | none =>
      { s with
        report :=
          s.report.remove message "tool result missing call id removed during sanitization" }
  else { s with output := s.output ++ [message] }

def retainAndPrune (messages : List ContextMessage) : SanitizedRetention :=
  messages.foldl retainMessage {}

/-- The order in which a hash set is iterated. -/
structure SetOrder where
  arrange : List String → List String
  perm : ∀ ids, (arrange ids).Perm ids

/-- Iteration in the order of the list. -/
def SetOrder.inOrder : SetOrder where
  arrange ids := ids
  perm ids := .refl ids

/-- The result of a call that has none. -/
def stubResult (callId toolName : String) : ContextMessage :=
  .toolResult s!"{callId}-stub" callId toolName "[stub result inserted after compression]".toList

/-- One turn of the stub loop. -/
def insertStub (s : SanitizedRetention)
    (acc : List (ℕ × List ContextMessage) × CompressionReport) (callId : String) :
    List (ℕ × List ContextMessage) × CompressionReport :=
  if callId ∈ s.retainedResults then acc
  else match s.retainedCallPositions callId with
  | none => acc
  | some callIndex =>
    match s.callNames callId with
    | none => acc
    | some toolName =>
      let stub := stubResult callId toolName
      (Grouped.insert callIndex stub acc.1,
        { acc.2 with stubbed := acc.2.stubbed ++
          [⟨stub.id, stub.role, s!"stubbed missing tool result for call {callId}"⟩] })

/-- The stubs by the index of their call, and the report with them. -/
def insertMissingToolStubs (order : SetOrder) (s : SanitizedRetention) :
    List (ℕ × List ContextMessage) × CompressionReport :=
  (order.arrange s.retainedCalls).foldl (insertStub s) ([], s.report)

def stitchStubs (output : List ContextMessage)
    (stubsAfterIndex : List (ℕ × List ContextMessage)) : List ContextMessage :=
  if stubsAfterIndex = [] then output
  else output.zipIdx.flatMap fun (message, idx) =>
    message :: (stubsAfterIndex.lookup idx).getD []

/-- Remove orphaned tool results and insert stub results for retained tool calls. -/
def sanitizeToolPairs (order : SetOrder) (messages : List ContextMessage) :
    List ContextMessage × CompressionReport :=
  let s := retainAndPrune messages
  let (stubsAfterIndex, report) := insertMissingToolStubs order s
  (stitchStubs s.output stubsAfterIndex, report)

/-- Compress the messages of a context. -/
def compress (U : Unicode) (order : SetOrder) (messages : List ContextMessage)
    (params : CompressionParams) : Except ContextError CompressionResult :=
  if params.tokenBudget = 0 then .error .invalidBudget
  else
    let (pruned, report) := pruneToBudget U messages params
    let (messages, sanitization) := sanitizeToolPairs order pruned
    .ok ⟨messages,
      { report with
        removed := report.removed ++ sanitization.removed
        stubbed := report.stubbed ++ sanitization.stubbed }⟩

end Hymenium
