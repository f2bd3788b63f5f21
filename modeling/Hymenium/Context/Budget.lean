import Hymenium.Context.Pairs
import Hymenium.Foundations.Greedy

/-!
# The token budget of a compression

Pruning is a greedy selection in priority order, except that a first message that does not fit is
truncated and then stands alone (`pruneToBudget_eq`). It respects the budget. The stubs that the
sanitization inserts afterwards are not counted: the result respects the budget exactly when they fit
into what the retained messages leave of it (`compress_within_budget_iff`).
-/

namespace Hymenium

open ContextMessage

/-- The tokens of a list of messages. -/
def totalCost (messages : List ContextMessage) : ℕ := (messages.map (·.tokenCost)).sum

/-! ## The abstract selection -/

/-- The tokens of the message at an index. -/
def costAt (messages : List ContextMessage) (idx : ℕ) : ℕ :=
  (messages[idx]?.map (·.tokenCost)).getD 0

/-- The messages at these indices, in the order of the list. -/
def atIndices (messages : List ContextMessage) (indices : List ℕ) : List ContextMessage :=
  (messages.zipIdx.filter fun p => p.2 ∈ indices).map Prod.fst

/-- The message with as many words as the budget has room for. -/
def ContextMessage.clipped (message : ContextMessage) (tokenBudget : ℕ) : ContextMessage :=
  { message with
    content := Text.join " " ((Text.splitWhitespace message.content).take (tokenBudget - 4)) }

/-- The message does not fit, and there is room for a first word of it. -/
def ContextMessage.IsClipped (message : ContextMessage) (tokenBudget : ℕ) : Prop :=
  4 < tokenBudget ∧ tokenBudget < message.tokenCost

instance (message : ContextMessage) (tokenBudget : ℕ) : Decidable (message.IsClipped tokenBudget) :=
  inferInstanceAs (Decidable (_ ∧ _))

/-- The messages that are selected: the first one in priority order alone and clipped when it does
not fit, or all that fit one after the other. -/
def selected (U : Unicode) (messages : List ContextMessage) (params : CompressionParams) :
    List ContextMessage :=
  let order := prioritizedIndices U messages params.focusTopic
  match (order.head?.bind fun idx => messages[idx]?).filter (·.IsClipped params.tokenBudget) with
  | some message => [message.clipped params.tokenBudget]
  | none => atIndices messages (Greedy.select (costAt messages) params.tokenBudget order)

/-! ## The priority order -/

section Order

variable {messages : List ContextMessage}

theorem map_snd_zipIdx (messages : List ContextMessage) :
    messages.zipIdx.map Prod.snd = List.range messages.length := by
  rw [List.zipIdx_map_snd, List.range_eq_range']

/-- The priority order visits every message once. -/
theorem prioritizedIndices_perm (U : Unicode) (messages : List ContextMessage)
    (focusTopic : Option Text) :
    (prioritizedIndices U messages focusTopic).Perm (List.range messages.length) := by
  unfold prioritizedIndices
  dsimp only
  rw [List.partition_eq_filter_filter, ← map_snd_zipIdx]
  apply List.Perm.map
  apply ((List.reverse_perm _).append (List.reverse_perm _)).trans
  exact List.filter_append_perm _ _

theorem costAt_pos {idx : ℕ} (h : idx < messages.length) : 0 < costAt messages idx := by
  rw [costAt, List.getElem?_eq_getElem h]
  exact Nat.succ_pos _

theorem atIndices_sublist (messages : List ContextMessage) (indices : List ℕ) :
    (atIndices messages indices).Sublist messages := by
  have hfst : messages.zipIdx.map Prod.fst = messages := List.zipIdx_map_fst 0 messages
  conv_rhs => rw [← hfst]
  exact List.filter_sublist.map _

/-- What is read off the messages at distinct indices can be read off the indices. -/
theorem map_atIndices_perm {α : Type} {f : ContextMessage → α} {g : ℕ → α} {indices : List ℕ}
    (hfg : ∀ idx message, messages[idx]? = some message → f message = g idx)
    (hnodup : indices.Nodup) (hrange : ∀ idx ∈ indices, idx < messages.length) :
    ((atIndices messages indices).map f).Perm (indices.map g) := by
  have hperm : ((List.range messages.length).filter (· ∈ indices)).Perm indices := by
    rw [List.perm_ext_iff_of_nodup (List.nodup_range.filter _) hnodup]
    intro idx
    rw [List.mem_filter, List.mem_range, decide_eq_true_iff]
    exact ⟨And.right, fun hidx => ⟨hrange idx hidx, hidx⟩⟩
  have hsnd : (messages.zipIdx.filter fun p => p.2 ∈ indices).map Prod.snd =
      (List.range messages.length).filter (· ∈ indices) := by
    rw [← map_snd_zipIdx, List.filter_map]
    rfl
  have hmap : (atIndices messages indices).map f =
      ((List.range messages.length).filter (· ∈ indices)).map g := by
    rw [← hsnd, atIndices, List.map_map, List.map_map]
    apply List.map_congr_left
    intro p hp
    exact hfg p.2 p.1 (List.mk_mem_zipIdx_iff_getElem?.mp (List.mem_filter.mp hp).1)
  rw [hmap]
  exact hperm.map g

/-- The tokens of the messages at distinct indices. -/
theorem totalCost_atIndices {indices : List ℕ} (hnodup : indices.Nodup)
    (hrange : ∀ idx ∈ indices, idx < messages.length) :
    totalCost (atIndices messages indices) = (indices.map (costAt messages)).sum := by
  refine (map_atIndices_perm (fun idx message hm => ?_) hnodup hrange).sum_eq
  rw [costAt, hm]
  rfl

end Order

/-! ## The pruning loop -/

section Loop

variable {messages : List ContextMessage} {tokenBudget : ℕ} {s : PruneState}

theorem tokenCost_clipped {message : ContextMessage} (h : message.IsClipped tokenBudget) :
    (message.clipped tokenBudget).tokenCost = tokenBudget := by
  obtain ⟨hroom, hcost⟩ := h
  have hwords : Text.splitWhitespace (message.clipped tokenBudget).content =
      (Text.splitWhitespace message.content).take (tokenBudget - 4) :=
    Text.splitWhitespace_join fun w hw =>
      Text.isWord_of_mem_splitWhitespace (List.mem_of_mem_take hw)
  unfold tokenCost estimateTextTokens at hcost ⊢
  rw [hwords, List.length_take]
  omega

theorem truncateMessageToBudget_clipped {message : ContextMessage}
    (h : message.IsClipped tokenBudget) :
    ∃ summary, truncateMessageToBudget message tokenBudget =
      some (message.clipped tokenBudget, summary) := by
  obtain ⟨hroom, hcost⟩ := h
  unfold tokenCost estimateTextTokens at hcost
  have hne : tokenBudget - 4 ≠ 0 := by omega
  have hlong : tokenBudget - 4 < (Text.splitWhitespace message.content).length := by omega
  unfold truncateMessageToBudget
  dsimp only
  rw [if_neg hne, if_pos hlong]
  exact ⟨_, rfl⟩

theorem truncateMessageToBudget_none (message : ContextMessage) (h : tokenBudget ≤ 4) :
    truncateMessageToBudget message tokenBudget = none :=
  if_pos (Nat.sub_eq_zero_of_le h)

section Step

variable {message : ContextMessage} {idx : ℕ}

theorem pruneMessage_fits (hm : messages[idx]? = some message)
    (hfits : s.totalTokens + message.tokenCost ≤ tokenBudget) :
    pruneMessage messages tokenBudget s idx =
      { s with
        keptIndices := idx :: s.keptIndices
        totalTokens := s.totalTokens + message.tokenCost } := by
  rw [pruneMessage, hm]
  exact if_pos hfits

theorem pruneMessage_removes (hm : messages[idx]? = some message)
    (hlarge : tokenBudget < s.totalTokens + message.tokenCost)
    (hkept : s.keptIndices ≠ [] ∨ tokenBudget ≤ 4) :
    pruneMessage messages tokenBudget s idx =
      { s with report := s.report.remove message "removed to fit token budget" } := by
  rw [pruneMessage, hm]
  dsimp only
  rw [if_neg (Nat.not_le.mpr hlarge)]
  split_ifs with hnone
  · rw [truncateMessageToBudget_none message (hkept.resolve_left (not_not.mpr hnone))]
  · rfl

/-- The first message is truncated when it does not fit. -/
theorem pruneMessage_clips (hm : messages[idx]? = some message)
    (hclip : message.IsClipped tokenBudget) :
    ∃ report, pruneMessage messages tokenBudget {} idx =
      ⟨[idx], tokenBudget, report, some (idx, message.clipped tokenBudget)⟩ := by
  obtain ⟨summary, htruncated⟩ := truncateMessageToBudget_clipped hclip
  have hlarge : ¬ 0 + message.tokenCost ≤ tokenBudget := by
    have hcost := hclip.2
    omega
  rw [pruneMessage, hm]
  dsimp only
  rw [if_neg hlarge, if_pos rfl, htruncated]
  dsimp only
  rw [tokenCost_clipped hclip]
  exact ⟨_, rfl⟩

end Step

/-- The rest of the loop selects greedily, once a message is kept or there is no room to truncate
one. -/
theorem foldl_pruneMessage {indices : List ℕ} (hidx : ∀ idx ∈ indices, idx < messages.length)
    (hroom : s.totalTokens ≤ tokenBudget) (hkept : s.keptIndices ≠ [] ∨ tokenBudget ≤ 4) :
    (∀ i, i ∈ (indices.foldl (pruneMessage messages tokenBudget) s).keptIndices ↔
      i ∈ s.keptIndices ∨
        i ∈ Greedy.select (costAt messages) (tokenBudget - s.totalTokens) indices) ∧
    (indices.foldl (pruneMessage messages tokenBudget) s).truncatedFallback =
      s.truncatedFallback := by
  induction indices generalizing s with
  | nil => simp [Greedy.select]
  | cons idx indices ih =>
    obtain ⟨hlt, hrest⟩ := List.forall_mem_cons.mp hidx
    have hm : messages[idx]? = some messages[idx] := List.getElem?_eq_getElem hlt
    have hcost : costAt messages idx = messages[idx].tokenCost := by
      rw [costAt, hm]
      rfl
    rw [List.foldl_cons]
    by_cases hfits : s.totalTokens + messages[idx].tokenCost ≤ tokenBudget
    · have hwithin : costAt messages idx ≤ tokenBudget - s.totalTokens := by omega
      rw [pruneMessage_fits hm hfits, Greedy.select_of_le hwithin]
      obtain ⟨hmem, hfallback⟩ := ih (s := { s with
        keptIndices := idx :: s.keptIndices
        totalTokens := s.totalTokens + messages[idx].tokenCost }) hrest hfits
        (.inl (List.cons_ne_nil _ _))
      refine ⟨fun i => ?_, hfallback⟩
      rw [hmem, List.mem_cons, List.mem_cons, hcost, Nat.sub_add_eq, or_assoc, or_left_comm]
    · have hlarge := Nat.not_le.mp hfits
      have hout : tokenBudget - s.totalTokens < costAt messages idx := by omega
      rw [pruneMessage_removes hm hlarge hkept, Greedy.select_of_lt hout]
      exact ih hrest hroom hkept

theorem filterMap_indices {f : ContextMessage × ℕ → Option ContextMessage}
    {g : ContextMessage × ℕ → ContextMessage} {indices : List ℕ}
    (hin : ∀ p, p.2 ∈ indices → f p = some (g p)) (hout : ∀ p, p.2 ∉ indices → f p = none)
    (l : List (ContextMessage × ℕ)) :
    l.filterMap f = (l.filter fun p => p.2 ∈ indices).map g := by
  induction l with
  | nil => rfl
  | cons p l ih =>
    by_cases hp : p.2 ∈ indices
    · rw [List.filterMap_cons_some (hin p hp), List.filter_cons_of_pos (by simpa using hp),
        List.map_cons, ih]
    · rw [List.filterMap_cons_none (hout p hp), List.filter_cons_of_neg (by simpa using hp), ih]

/-- Without a truncated message the kept ones are as they were. -/
theorem kept_of_none (h : s.truncatedFallback = none) :
    s.kept messages = atIndices messages s.keptIndices := by
  refine filterMap_indices (fun p hp => ?_) (fun p hp => if_pos hp) messages.zipIdx
  rw [if_neg (not_not.mpr hp), h]

/-- A truncated message that is the only one kept. -/
theorem kept_of_clipped {idx : ℕ} {message : ContextMessage} (hlt : idx < messages.length)
    (hkept : ∀ i, i ∈ s.keptIndices ↔ i = idx)
    (h : s.truncatedFallback = some (idx, message)) : s.kept messages = [message] := by
  have hturn : s.kept messages =
      (messages.zipIdx.filter fun p => p.2 ∈ s.keptIndices).map fun _ => message := by
    refine filterMap_indices (fun p hp => ?_) (fun p hp => if_pos hp) messages.zipIdx
    rw [if_neg (not_not.mpr hp), h]
    exact if_pos ((hkept p.2).mp hp).symm
  have hone : (messages.zipIdx.filter fun p => p.2 ∈ s.keptIndices).map Prod.snd = [idx] := by
    have hfilter : (messages.zipIdx.filter fun p => p.2 ∈ s.keptIndices).map Prod.snd =
        (messages.zipIdx.map Prod.snd).filter (· = idx) := by
      rw [List.filter_map]
      congr 1
      exact List.filter_congr fun p _ => decide_eq_decide.mpr (hkept p.2)
    rw [hfilter, map_snd_zipIdx, List.filter_eq, List.Nodup.count List.nodup_range,
      if_pos (List.mem_range.mpr hlt)]
    rfl
  have hlen := congrArg List.length hone
  rw [List.length_map] at hlen
  rw [hturn, List.map_const', hlen]
  rfl

theorem atIndices_congr {indices indices' : List ℕ} (h : ∀ i, i ∈ indices ↔ i ∈ indices') :
    atIndices messages indices = atIndices messages indices' := by
  unfold atIndices
  congr 1
  exact List.filter_congr fun p _ => decide_eq_decide.mpr (h p.2)

section Start

variable {message : ContextMessage} {idx : ℕ} {order : List ℕ}

/-- A first message that is clipped fills the budget, so that nothing is kept beside it. -/
theorem kept_foldl_clips (hm : messages[idx]? = some message)
    (hidx : ∀ i ∈ idx :: order, i < messages.length) (hclip : message.IsClipped tokenBudget) :
    ((idx :: order).foldl (pruneMessage messages tokenBudget) {}).kept messages =
        [message.clipped tokenBudget] ∧
      ((idx :: order).foldl (pruneMessage messages tokenBudget) {}).truncatedFallback =
        some (idx, message.clipped tokenBudget) := by
  obtain ⟨hlt, hrest⟩ := List.forall_mem_cons.mp hidx
  obtain ⟨report, hstep⟩ := pruneMessage_clips hm hclip
  obtain ⟨hmem, hfallback⟩ := foldl_pruneMessage
    (s := ⟨[idx], tokenBudget, report, some (idx, message.clipped tokenBudget)⟩) hrest le_rfl
    (.inl (List.cons_ne_nil _ _))
  have hnil : Greedy.select (costAt messages) (tokenBudget - tokenBudget) order = [] := by
    apply Greedy.select_eq_nil
    intro i hi
    rw [Nat.sub_self]
    exact costAt_pos (hrest i hi)
  rw [List.foldl_cons, hstep]
  refine ⟨kept_of_clipped hlt (fun i => ?_) hfallback, hfallback⟩
  rw [hmem, hnil, List.mem_singleton, or_iff_left List.not_mem_nil]

/-- Otherwise the whole loop is the greedy selection. -/
theorem kept_foldl_selects (hm : messages[idx]? = some message)
    (hidx : ∀ i ∈ idx :: order, i < messages.length) (hclip : ¬ message.IsClipped tokenBudget) :
    ((idx :: order).foldl (pruneMessage messages tokenBudget) {}).kept messages =
      atIndices messages (Greedy.select (costAt messages) tokenBudget (idx :: order)) := by
  by_cases hfits : message.tokenCost ≤ tokenBudget
  · have hcost : costAt messages idx = message.tokenCost := by
      rw [costAt, hm]
      rfl
    have hzero : 0 + message.tokenCost ≤ tokenBudget := by omega
    obtain ⟨-, hrest⟩ := List.forall_mem_cons.mp hidx
    obtain ⟨hmem, hfallback⟩ := foldl_pruneMessage (s := ⟨[idx], 0 + message.tokenCost, {}, none⟩)
      hrest hzero (.inl (List.cons_ne_nil _ _))
    rw [List.foldl_cons, pruneMessage_fits hm hzero, Greedy.select_of_le (hcost ▸ hfits)]
    rw [kept_of_none hfallback]
    apply atIndices_congr
    intro i
    rw [hmem, List.mem_cons, hcost]
    simp
  · -- neither the first message nor a word of any message fits
    have hsmall : tokenBudget ≤ 4 := by
      by_contra hroom
      exact hclip ⟨Nat.not_le.mp hroom, Nat.not_le.mp hfits⟩
    obtain ⟨hmem, hfallback⟩ := foldl_pruneMessage (s := {}) hidx (Nat.zero_le _) (.inr hsmall)
    rw [kept_of_none hfallback]
    apply atIndices_congr
    intro i
    rw [hmem, or_iff_right List.not_mem_nil, Nat.sub_zero]

end Start

end Loop

/-- **Pruning.** The loop keeps the selected messages. -/
theorem pruneToBudget_eq (U : Unicode) (messages : List ContextMessage)
    (params : CompressionParams) :
    (pruneToBudget U messages params).1 = selected U messages params := by
  have hidx : ∀ idx ∈ prioritizedIndices U messages params.focusTopic, idx < messages.length :=
    fun idx hidx => List.mem_range.mp ((prioritizedIndices_perm U messages _).subset hidx)
  unfold pruneToBudget selected
  dsimp only
  generalize prioritizedIndices U messages params.focusTopic = order at hidx ⊢
  cases order with
  | nil => exact kept_of_none rfl
  | cons idx order =>
    have hlt : idx < messages.length := hidx idx List.mem_cons_self
    have hm : messages[idx]? = some messages[idx] := List.getElem?_eq_getElem hlt
    have htop : ((idx :: order).head?.bind fun idx => messages[idx]?) = some messages[idx] := hm
    rw [htop, Option.filter_some]
    by_cases hclip : messages[idx].IsClipped params.tokenBudget
    · rw [if_pos (decide_eq_true hclip)]
      exact (kept_foldl_clips hm hidx hclip).1
    · rw [if_neg (by simpa using hclip)]
      exact kept_foldl_selects hm hidx hclip

/-- The selected messages stay within the budget. -/
theorem totalCost_selected (U : Unicode) (messages : List ContextMessage)
    (params : CompressionParams) :
    totalCost (selected U messages params) ≤ params.tokenBudget := by
  have hperm := prioritizedIndices_perm U messages params.focusTopic
  unfold selected
  dsimp only
  split
  next message hclip =>
    obtain ⟨-, hclip⟩ := Option.filter_eq_some_iff.mp hclip
    rw [totalCost, List.map_singleton, List.sum_singleton, tokenCost_clipped (by simpa using hclip)]
  next =>
    have hsub := Greedy.select_sublist (costAt messages) params.tokenBudget
      (prioritizedIndices U messages params.focusTopic)
    have hnodup := hsub.nodup (hperm.nodup_iff.mpr List.nodup_range)
    have hrange : ∀ idx ∈ Greedy.select (costAt messages) params.tokenBudget _,
        idx < messages.length := fun idx hidx =>
      List.mem_range.mp (hperm.subset (hsub.subset hidx))
    rw [totalCost_atIndices hnodup hrange]
    exact Greedy.sum_select_le _ _ _

/-! ## The stubs -/

/-- The number of calls without a result. -/
def openCalls (messages : List ContextMessage) : ℕ :=
  messages.countP fun call =>
    decide (call.isToolCall = true ∧ ¬ ∃ result ∈ messages, result.Answers call.id)

theorem totalCost_sublist {a b : List ContextMessage} (h : a.Sublist b) :
    totalCost a ≤ totalCost b := by
  unfold totalCost
  induction h with
  | slnil => exact le_rfl
  | cons message _ ih =>
    rw [List.map_cons, List.sum_cons]
    omega
  | cons_cons message _ ih =>
    rw [List.map_cons, List.sum_cons, List.map_cons, List.sum_cons]
    omega

theorem tokenCost_stub (message : ContextMessage) : message.stub.tokenCost = 9 := by
  rfl

/-- A sum over messages of which some have a stub behind them. -/
theorem sum_flatMap_stub {f : ContextMessage → ℕ} {c : ℕ}
    (hstub : ∀ message : ContextMessage, f message.stub = c) (p : ContextMessage → Prop)
    [DecidablePred p] (messages : List ContextMessage) :
    ((messages.flatMap fun message =>
        if p message then [message, message.stub] else [message]).map f).sum =
      (messages.map f).sum + c * messages.countP fun message => decide (p message) := by
  induction messages with
  | nil => rfl
  | cons message messages ih =>
    rw [List.flatMap_cons, List.map_append, List.sum_append, ih, List.map_cons, List.sum_cons,
      List.countP_cons]
    by_cases hp : p message
    · rw [if_pos hp, if_pos (decide_eq_true hp), List.map_cons, List.map_singleton, List.sum_cons,
        List.sum_singleton, hstub, Nat.mul_add]
      omega
    · rw [if_neg hp, if_neg (by simpa using hp), List.map_singleton, List.sum_singleton,
        Nat.add_zero]
      omega

/-- The tokens of a sanitized list: those of the retained messages and of a stub for each open
call. -/
theorem totalCost_sanitized (order : SetOrder) (messages : List ContextMessage) :
    totalCost (sanitizeToolPairs order messages).1 =
      totalCost (retained messages) + 9 * openCalls (retained messages) := by
  rw [sanitizeToolPairs_eq, fill_retained]
  exact sum_flatMap_stub tokenCost_stub _ _

theorem totalCost_retained_le (messages : List ContextMessage) :
    totalCost (retained messages) ≤ totalCost messages :=
  totalCost_sublist (Pairing.keep_sublist _ _)

/-! ## Compression -/

theorem compress_eq (U : Unicode) (order : SetOrder) (messages : List ContextMessage)
    (params : CompressionParams) (hbudget : 0 < params.tokenBudget) :
    let pruned := pruneToBudget U messages params
    let sanitized := sanitizeToolPairs order pruned.1
    compress U order messages params = .ok ⟨sanitized.1,
      { pruned.2 with
        removed := pruned.2.removed ++ sanitized.2.removed
        stubbed := pruned.2.stubbed ++ sanitized.2.stubbed }⟩ :=
  if_neg (Nat.pos_iff_ne_zero.mp hbudget)

theorem compress_ok (U : Unicode) (order : SetOrder) (messages : List ContextMessage)
    (params : CompressionParams) (hbudget : 0 < params.tokenBudget) :
    ∃ report, compress U order messages params =
      .ok ⟨(sanitizeToolPairs order (selected U messages params)).1, report⟩ := by
  rw [compress_eq U order messages params hbudget, pruneToBudget_eq]
  exact ⟨_, rfl⟩

/-- **Budget.** A compression stays within its budget exactly when the stubs of the open calls fit
into what the retained messages of the selection leave of it. -/
theorem compress_within_budget_iff (U : Unicode) (order : SetOrder)
    (messages : List ContextMessage) (params : CompressionParams)
    (hbudget : 0 < params.tokenBudget) :
    ∃ result, compress U order messages params = .ok result ∧
      (totalCost result.messages ≤ params.tokenBudget ↔
        9 * openCalls (retained (selected U messages params)) ≤
          params.tokenBudget - totalCost (retained (selected U messages params))) := by
  obtain ⟨report, hok⟩ := compress_ok U order messages params hbudget
  refine ⟨_, hok, ?_⟩
  have hle := (totalCost_retained_le (selected U messages params)).trans
    (totalCost_selected U messages params)
  rw [totalCost_sanitized]
  omega

/-- A call without a result, whose stub just fits. -/
theorem compress_within_budget_iff_call :
    let messages : List ContextMessage :=
      [.text "msg-1" .user "implement phase target".toList,
        .toolCall "call-1" "search" "call".toList]
    let params : CompressionParams := ⟨none, 21⟩
    0 < params.tokenBudget ∧
      ∃ result, compress .asciiTables .inOrder messages params = .ok result ∧
        (totalCost result.messages ≤ params.tokenBudget ↔
          9 * openCalls (retained (selected .asciiTables messages params)) ≤
            params.tokenBudget - totalCost (retained (selected .asciiTables messages params))) :=
  ⟨by decide, compress_within_budget_iff .asciiTables .inOrder _ ⟨none, 21⟩ (by decide)⟩

/-- A call of five tokens takes the whole budget, and then gets a stub of nine. -/
theorem stub_exceeds_budget :
    ∃ result, compress .asciiTables .inOrder [.toolCall "call-1" "search" "call".toList]
        ⟨none, 5⟩ = .ok result ∧
      totalCost result.messages = 14 ∧ ¬ totalCost result.messages ≤ 5 := by
  refine ⟨_, rfl, rfl, ?_⟩
  decide

theorem countP_selected_le (U : Unicode) (messages : List ContextMessage)
    (params : CompressionParams) :
    (selected U messages params).countP (·.isToolCall) ≤ messages.countP (·.isToolCall) := by
  unfold selected
  dsimp only
  split
  next message hclip =>
    obtain ⟨htop, -⟩ := Option.filter_eq_some_iff.mp hclip
    obtain ⟨idx, -, hm⟩ := Option.bind_eq_some_iff.mp htop
    -- clipping keeps the role
    have hrole : (message.clipped params.tokenBudget).isToolCall = message.isToolCall := rfl
    have hone : [message].countP (·.isToolCall) ≤ messages.countP (·.isToolCall) :=
      (List.singleton_sublist.mpr (List.mem_of_getElem? hm)).countP_le
    rw [List.countP_singleton] at hone ⊢
    rwa [hrole]
  next =>
    exact (atIndices_sublist messages _).countP_le

/-- A compression exceeds its budget by at most one stub for each tool call. -/
theorem compress_excess_le (U : Unicode) (order : SetOrder) (messages : List ContextMessage)
    (params : CompressionParams) {result : CompressionResult}
    (h : compress U order messages params = .ok result) :
    totalCost result.messages ≤
      params.tokenBudget + 9 * messages.countP (·.isToolCall) := by
  have hbudget : 0 < params.tokenBudget := by
    rw [Nat.pos_iff_ne_zero]
    intro hzero
    rw [compress, if_pos hzero] at h
    cases h
  obtain ⟨report, hok⟩ := compress_ok U order messages params hbudget
  cases h.symm.trans hok
  have hle := (totalCost_retained_le (selected U messages params)).trans
    (totalCost_selected U messages params)
  have hopen : openCalls (retained (selected U messages params)) ≤
      messages.countP (·.isToolCall) :=
    calc openCalls (retained (selected U messages params))
        ≤ (retained (selected U messages params)).countP (·.isToolCall) :=
          List.countP_mono_left fun message _ hcall => (of_decide_eq_true hcall).1
      _ ≤ (selected U messages params).countP (·.isToolCall) :=
          (Pairing.keep_sublist _ _).countP_le
      _ ≤ messages.countP (·.isToolCall) := countP_selected_le U messages params
  rw [totalCost_sanitized]
  omega

end Hymenium
