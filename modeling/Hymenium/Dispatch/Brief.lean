import Hymenium.Context.Budget
import Hymenium.Dispatch.Compensation
import Hymenium.Dispatch.Slug
import Hymenium.Parser.Markdown

/-!
# From a handoff to its dispatch

What dispatch derives from a handoff before it calls Canopy (`src/dispatch/orchestrate.rs`): the
messages of the handoff, their rendering as the description of the parent task, and the names. They
make up the `DispatchBrief` of a handoff.

1. The description of the parent task always exists and has at most 64 words: it is the rendering of
   the messages, or that of the compressed ones, of which the final truncation takes nothing
   (`prepareParentDescription_spec`).
2. Preflight: a dispatch fails before its first call to Canopy if and only if the template has no
   phases or the title has no letter or digit (`dispatch_silent_iff`).
-/

namespace Hymenium

open Text

/-! ## Messages -/

def buildDispatchContextMessages (handoff : ParsedHandoff) : List ContextMessage :=
  [.text "handoff-title" .system handoff.title,
    .text "handoff-problem" .user handoff.problem,
    .text "handoff-intent" .assistant handoff.intent] ++
  (handoff.context.toList.map fun context => .text "handoff-context" .user context) ++
  handoff.steps.map fun step =>
    let number := step.number.toNat
    .text s!"step-{number}" .user
      ("Step ".toList ++ ofNat number ++ ": ".toList ++ step.title ++ "\n".toList ++
        step.description)

def dispatchFocusTopic (template : WorkflowTemplate) : Option Text :=
  template.phases.head?.map fun phase => s!"{phase.phaseId} {phase.role.toString}".toList

def roleLabel : ContextMessageRole → String
  | .system => "system"
  | .user => "user"
  | .assistant => "assistant"
  | .toolCall => "tool_call"
  | .toolResult => "tool_result"

/-- The line of a message, with its end. -/
def renderMessage (message : ContextMessage) : Text :=
  "- ".toList ++ (roleLabel message.role).toList ++ ": ".toList ++ message.content ++ "\n".toList

def renderContext (messages : List ContextMessage) (compressed : Bool) : Text :=
  trim ((if compressed then "Compressed context:\n".toList else []) ++
    messages.flatMap renderMessage)

def truncateRenderedContext (text : Text) (tokenBudget : ℕ) : Text :=
  if (splitWhitespace text).length ≤ tokenBudget then text
  else join " " ((splitWhitespace text).take tokenBudget)

def dispatchContextTokenBudget : ℕ := 64

/-- The description of the parent task: the rendered messages, compressed when they are too long. -/
def prepareParentDescription (U : Unicode) (order : SetOrder) (messages : List ContextMessage)
    (focusTopic : Option Text) : Except DispatchError Text :=
  let initial := renderContext messages false
  if estimateTextTokens initial ≤ dispatchContextTokenBudget then .ok initial
  else
    match compress U order messages ⟨focusTopic, dispatchContextTokenBudget⟩ with
    | .error .invalidBudget => .error (.invalidState
        "context compression failed: token budget must be greater than zero")
    | .ok compressed =>
      .ok (truncateRenderedContext (renderContext compressed.messages true)
        dispatchContextTokenBudget)

/-! ## The words of a rendering -/

/-- The words that a message adds. -/
def messageWords (message : ContextMessage) : List Text :=
  ["-".toList, (roleLabel message.role).toList ++ [':']] ++ splitWhitespace message.content

theorem splitWhitespace_renderMessage (message : ContextMessage) (rest : Text) :
    splitWhitespace (renderMessage message ++ rest) =
      messageWords message ++ splitWhitespace rest := by
  have hline : renderMessage message ++ rest = "-".toList ++ ' ' ::
      ((roleLabel message.role).toList ++ [':'] ++ ' ' :: (message.content ++ '\n' :: rest)) := by
    simp [renderMessage]
  have hlabel : IsWord ((roleLabel message.role).toList ++ [':']) := by
    cases message.role <;> exact ⟨by simp, by simp [roleLabel, isWhitespace]⟩
  rw [hline, splitWhitespace_append_cons "-".toList _ (by decide),
    splitWhitespace_append_cons ((roleLabel message.role).toList ++ [':']) _ (by decide),
    splitWhitespace_append_cons message.content _ (by decide), splitWhitespace_word hlabel]
  simp [messageWords]
  rfl

theorem splitWhitespace_renderContext (messages : List ContextMessage) (compressed : Bool) :
    splitWhitespace (renderContext messages compressed) =
      (if compressed then ["Compressed".toList, "context:".toList] else []) ++
        messages.flatMap messageWords := by
  have hmessages : splitWhitespace (messages.flatMap renderMessage) =
      messages.flatMap messageWords := by
    induction messages with
    | nil => rfl
    | cons message messages ih =>
      rw [List.flatMap_cons, splitWhitespace_renderMessage, ih, List.flatMap_cons]
  unfold renderContext
  rw [splitWhitespace_trim]
  cases compressed with
  | false => exact hmessages
  | true =>
    have hheader : "Compressed context:\n".toList ++ messages.flatMap renderMessage =
        "Compressed".toList ++ ' ' :: ("context:".toList ++ '\n' ::
          messages.flatMap renderMessage) := rfl
    rw [if_pos rfl, hheader, splitWhitespace_append_cons "Compressed".toList _ (by decide),
      splitWhitespace_append_cons "context:".toList _ (by decide), hmessages]
    rfl

/-- A message has at most as many words as it counts tokens: two instead of four beside its
content. -/
theorem length_flatMap_messageWords (messages : List ContextMessage) :
    (messages.flatMap messageWords).length + 2 * messages.length = totalCost messages := by
  unfold totalCost
  induction messages with
  | nil => rfl
  | cons message messages ih =>
    rw [List.flatMap_cons, List.length_append, List.length_cons, List.map_cons, List.sum_cons, ← ih,
      ContextMessage.tokenCost, estimateTextTokens, messageWords, List.length_append]
    simp only [List.length_cons, List.length_nil]
    omega

/-- The compressed messages with their header stay within the budget of their tokens. -/
theorem words_renderContext_le {messages : List ContextMessage}
    (h : totalCost messages ≤ dispatchContextTokenBudget) :
    estimateTextTokens (renderContext messages true) ≤ dispatchContextTokenBudget := by
  have hwords := length_flatMap_messageWords messages
  unfold estimateTextTokens
  rw [splitWhitespace_renderContext, if_pos rfl, List.length_append]
  unfold dispatchContextTokenBudget at *
  cases messages with
  | nil => decide
  | cons message messages =>
    simp only [List.length_cons, List.length_nil] at hwords ⊢
    omega

/-! ## Messages without tools -/

theorem foldl_retainMessage_plain {messages : List ContextMessage}
    (h : ∀ message ∈ messages, message.isToolCall = false ∧ message.isToolResult = false)
    (s : SanitizedRetention) :
    messages.foldl retainMessage s = { s with output := s.output ++ messages } := by
  induction messages generalizing s with
  | nil => simp
  | cons message messages ih =>
    obtain ⟨⟨hcall, hresult⟩, hrest⟩ := List.forall_mem_cons.mp h
    rw [List.foldl_cons, ih hrest, retainMessage, hcall, hresult]
    simp

/-- Sanitizing keeps messages without tools as they are. -/
theorem sanitizeToolPairs_plain (order : SetOrder) {messages : List ContextMessage}
    (h : ∀ message ∈ messages, message.isToolCall = false ∧ message.isToolResult = false) :
    (sanitizeToolPairs order messages).1 = messages := by
  have hretain : retainAndPrune messages = { output := messages } :=
    foldl_retainMessage_plain h {}
  have hnone : order.arrange [] = [] := (order.perm []).eq_nil
  unfold sanitizeToolPairs insertMissingToolStubs
  simp only [hretain, hnone, List.foldl_nil]
  rfl

/-- What is selected has the roles of the messages it is selected from. -/
theorem exists_of_mem_selected {U : Unicode} {messages : List ContextMessage}
    {params : CompressionParams} {message : ContextMessage}
    (h : message ∈ selected U messages params) : ∃ m ∈ messages, message.role = m.role := by
  unfold selected at h
  dsimp only at h
  split at h
  next m hm =>
    obtain ⟨idx, -, hidx⟩ := Option.bind_eq_some_iff.mp (Option.filter_eq_some_iff.mp hm).1
    obtain rfl := List.mem_singleton.mp h
    exact ⟨m, List.mem_of_getElem? hidx, rfl⟩
  next => exact ⟨message, (atIndices_sublist messages _).subset h, rfl⟩

theorem buildDispatchContextMessages_plain (handoff : ParsedHandoff) :
    ∀ message ∈ buildDispatchContextMessages handoff,
      message.role ≠ .toolCall ∧ message.role ≠ .toolResult := by
  intro message hmem
  unfold buildDispatchContextMessages at hmem
  simp only [List.mem_append, List.mem_cons, List.not_mem_nil, or_false, List.mem_map] at hmem
  rcases hmem with ((rfl | rfl | rfl) | ⟨context, -, rfl⟩) | ⟨step, -, rfl⟩ <;>
    exact ⟨nofun, nofun⟩

/-- The description of the parent task. The final truncation takes nothing from it: the budget counts
four tokens for a message, of which its line and the header use at most four. -/
theorem prepareParentDescription_eq (U : Unicode) (order : SetOrder) (handoff : ParsedHandoff)
    (focusTopic : Option Text) :
    let messages := buildDispatchContextMessages handoff
    prepareParentDescription U order messages focusTopic =
      .ok (if estimateTextTokens (renderContext messages false) ≤ dispatchContextTokenBudget then
          renderContext messages false
        else
          renderContext (selected U messages ⟨focusTopic, dispatchContextTokenBudget⟩) true) := by
  intro messages
  unfold prepareParentDescription
  dsimp only
  by_cases hfits : estimateTextTokens (renderContext messages false) ≤ dispatchContextTokenBudget
  · rw [if_pos hfits, if_pos hfits]
  · rw [if_neg hfits, if_neg hfits]
    set params : CompressionParams := ⟨focusTopic, dispatchContextTokenBudget⟩ with hparams
    obtain ⟨report, hok⟩ := compress_ok U order messages params (Nat.succ_pos 63)
    have hplain : ∀ message ∈ selected U messages params,
        message.isToolCall = false ∧ message.isToolResult = false := by
      intro message hmem
      obtain ⟨m, hm, hrole⟩ := exists_of_mem_selected hmem
      have hroles := buildDispatchContextMessages_plain handoff m hm
      rw [← hrole] at hroles
      exact ⟨decide_eq_false hroles.1, decide_eq_false hroles.2⟩
    rw [sanitizeToolPairs_plain order hplain] at hok
    have hbudget : (splitWhitespace (renderContext (selected U messages params) true)).length ≤
        dispatchContextTokenBudget := words_renderContext_le (totalCost_selected U messages params)
    rw [hok]
    dsimp only
    rw [truncateRenderedContext, if_pos hbudget]

/-- **Parent description.** The description of the parent task exists and has at most 64 words. It is
the rendering of the messages of the handoff, or, when that is too long, the rendering of the
messages that are selected, in full. -/
theorem prepareParentDescription_spec (U : Unicode) (order : SetOrder) (handoff : ParsedHandoff)
    (template : WorkflowTemplate) :
    let messages := buildDispatchContextMessages handoff
    let focusTopic := dispatchFocusTopic template
    ∃ description, prepareParentDescription U order messages focusTopic = .ok description ∧
      estimateTextTokens description ≤ 64 ∧
      description = if estimateTextTokens (renderContext messages false) ≤ 64 then
          renderContext messages false
        else renderContext (selected U messages ⟨focusTopic, 64⟩) true := by
  intro messages focusTopic
  refine ⟨_, prepareParentDescription_eq U order handoff focusTopic, ?_, rfl⟩
  split_ifs with hfits
  · exact hfits
  · exact words_renderContext_le
      (totalCost_selected U messages ⟨focusTopic, dispatchContextTokenBudget⟩)

/-! ## The brief of a handoff -/

/-- The last component of a path, when it is a name. -/
def fileName (path : Text) : Option Text :=
  ((path.splitOn '/').filter fun c => c ≠ [] ∧ c ≠ ".".toList).getLast?.filter (· ≠ "..".toList)

def projectRoot (handoff : ParsedHandoff) : Text :=
  match handoff.metadata with
  | some metadata => metadata.owningRepo
  | none => ".".toList

/-- The name of the repository, for the names of agents. -/
def repoName (projectRoot : Text) : Text := (fileName projectRoot).getD projectRoot

/-- What dispatch derives from a handoff; `describe` writes the descriptions of the subtasks. -/
def dispatchBrief (U : Unicode) (order : SetOrder) (handoff : ParsedHandoff)
    (template : WorkflowTemplate) (describe : Phase → String) : DispatchBrief where
  title := String.ofList handoff.title
  projectRoot := String.ofList (projectRoot handoff)
  repoName := String.ofList (repoName (projectRoot handoff))
  slug := String.ofList (handoffSlug U handoff.title)
  parentDescription := (prepareParentDescription U order (buildDispatchContextMessages handoff)
    (dispatchFocusTopic template)).map String.ofList
  phaseDescription := describe

/-- The context of a handoff is never refused. -/
theorem exists_parentDescription (U : Unicode) (order : SetOrder) (handoff : ParsedHandoff)
    (template : WorkflowTemplate) (describe : Phase → String) :
    ∃ description,
      (dispatchBrief U order handoff template describe).parentDescription = .ok description := by
  unfold dispatchBrief
  dsimp only
  rw [prepareParentDescription_eq]
  exact ⟨_, rfl⟩

theorem dispatchBrief_slug (U : Unicode) (order : SetOrder) (handoff : ParsedHandoff)
    (template : WorkflowTemplate) (describe : Phase → String) :
    (dispatchBrief U order handoff template describe).slug = "" ↔
      ∀ c ∈ U.toLowercase handoff.title, U.isAlphanumeric c = true → c = '-' := by
  unfold dispatchBrief
  dsimp only
  rw [← handoffSlug_eq_nil, ← String.ofList_nil, String.ofList_inj]

/-! ## Preflight -/

/-- The calls of the subtasks come after those made before. -/
theorem prefix_createSubtasks (brief : DispatchBrief) (workflowId : WorkflowId)
    (canopy : CanopyPort) (parentId : String) (phases : List (Phase × PhaseState))
    (created : List String) (calls : List CanopyCall) :
    calls <+: (createSubtasks brief workflowId canopy parentId phases created calls).2 := by
  induction phases generalizing created calls with
  | nil => exact List.prefix_refl calls
  | cons p rest ih =>
    obtain ⟨phase, state⟩ := p
    rw [createSubtasks]
    split
    · exact List.prefix_append _ _
    next subtaskId _ =>
    have hrest := ih (created ++ [subtaskId])
      (calls ++ [brief.subtaskCall workflowId parentId phase])
    split
    next hsub =>
      rw [hsub] at hrest
      exact (List.prefix_append _ _).trans hrest
    next hsub =>
      rw [hsub] at hrest
      exact (List.prefix_append _ _).trans hrest

theorem prefix_assignFirst (agent : String) (canopy : CanopyPort) (states : List PhaseState)
    (calls : List CanopyCall) : calls <+: (assignFirst agent canopy states calls).2 := by
  unfold assignFirst
  split
  · exact List.prefix_refl calls
  split
  · exact List.prefix_refl calls
  dsimp only
  split <;> exact List.prefix_append _ _

/-- Once its checks are passed, a dispatch calls Canopy. -/
theorem dispatchWorkflow_calls {brief : DispatchBrief} {template : WorkflowTemplate}
    {firstPhase : Phase} {rest : List Phase} {description : String}
    (hphases : template.phases = firstPhase :: rest) (hslug : brief.slug ≠ "")
    (hdescription : brief.parentDescription = .ok description) (workflowId : WorkflowId)
    (path : String) (canopy : CanopyPort) (now : DateTime) :
    [brief.parentCall description] <+:
      (dispatchWorkflow brief template workflowId path canopy now).2 := by
  cases hparent : canopy.create [] (brief.parentCall description) with
  | error e =>
    unfold dispatchWorkflow
    rw [hphases]
    dsimp only
    rw [if_neg hslug, hdescription]
    dsimp only
    rw [hparent]
  | ok parentId =>
    rw [dispatchWorkflow_eq workflowId path now hphases hslug hdescription hparent]
    dsimp only
    have hsubtasks := prefix_createSubtasks brief workflowId canopy parentId
      (template.phases.zip (WorkflowInstance.new workflowId template path now).phaseStates) []
      [brief.parentCall description]
    split
    next hsub =>
      rw [hsub] at hsubtasks
      exact hsubtasks
    next states calls hsub =>
      rw [hsub] at hsubtasks
      have hassign := prefix_assignFirst
        (agentName firstPhase.effectiveAgentRole brief.repoName brief.slug 1) canopy states calls
      split
      next h =>
        rw [h] at hassign
        exact hsubtasks.trans hassign
      next h =>
        rw [h] at hassign
        exact hsubtasks.trans hassign

/-- **Preflight.** The dispatch of a handoff calls Canopy unless the template has no phases or the
title has no letter or digit; it then fails as an invalid state. -/
theorem dispatch_silent_iff (U : Unicode) (order : SetOrder) (handoff : ParsedHandoff)
    (template : WorkflowTemplate) (describe : Phase → String) (workflowId : WorkflowId)
    (path : String) (canopy : CanopyPort) (now : DateTime) :
    let out := dispatchWorkflow (dispatchBrief U order handoff template describe) template
      workflowId path canopy now
    (out.2 = [] ↔ template.phases = [] ∨
      ∀ c ∈ U.toLowercase handoff.title, U.isAlphanumeric c = true → c = '-') ∧
    (out.2 = [] → ∃ msg, out.1 = .error (.invalidState msg)) := by
  have hslug := dispatchBrief_slug U order handoff template describe
  have hdescription := exists_parentDescription U order handoff template describe
  generalize dispatchBrief U order handoff template describe = brief at hslug hdescription
  obtain ⟨description, hdescription⟩ := hdescription
  intro out
  rw [← hslug]
  cases hphases : template.phases with
  | nil =>
    have hout : out = (.error (.invalidState "template has no phases — cannot dispatch"), []) := by
      show dispatchWorkflow brief template workflowId path canopy now = _
      unfold dispatchWorkflow
      rw [hphases]
    rw [hout]
    exact ⟨by simp, fun _ => ⟨_, rfl⟩⟩
  | cons firstPhase rest =>
    by_cases hempty : brief.slug = ""
    · have hout : out = (.error (.invalidState
          "handoff title produced an empty slug — cannot form agent name"), []) := by
        show dispatchWorkflow brief template workflowId path canopy now = _
        unfold dispatchWorkflow
        rw [hphases]
        exact if_pos hempty
      rw [hout]
      exact ⟨by simp [hempty], fun _ => ⟨_, rfl⟩⟩
    · have hcalls : out.2 ≠ [] := by
        have hprefix := dispatchWorkflow_calls hphases hempty hdescription workflowId path canopy now
        intro hnil
        exact absurd (List.prefix_nil.mp (hnil ▸ hprefix)) (List.cons_ne_nil _ _)
      exact ⟨by simp [hcalls, hempty], fun hnil => absurd hnil hcalls⟩

end Hymenium
