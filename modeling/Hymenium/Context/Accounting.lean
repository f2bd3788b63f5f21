import Hymenium.Context.Budget
import Hymenium.Foundations.Runs

/-!
# What a compression accounts for

Every message of a compression is either in the result or in the report of what was removed
(`compress_accounted`). Each of the two loops enters every element once into what it has seen
(`foldl_seen`): the pruning loop by index, in priority order, the retention loop by message.
-/

namespace Hymenium

open ContextMessage

/-! ## Loops that enter their elements -/

/-- A loop whose turns each enter the labels of their element has entered those of all of them. -/
theorem foldl_seen {σ α γ : Type*} {step : σ → α → σ} {seen : σ → List γ} {labels : α → List γ}
    (hstep : ∀ s a, (seen (step s a)).Perm (seen s ++ labels a)) (s : σ) (l : List α) :
    (seen (l.foldl step s)).Perm (seen s ++ l.flatMap labels) := by
  induction l generalizing s with
  | nil =>
    rw [List.flatMap_nil, List.append_nil]
    exact .refl _
  | cons a l ih =>
    rw [List.foldl_cons, List.flatMap_cons, ← List.append_assoc]
    exact (ih _).trans ((hstep s a).append_right _)

/-! ## Labels -/

/-- What a report says about a message. -/
def ContextMessage.label (message : ContextMessage) : String × ContextMessageRole :=
  (message.id, message.role)

def CompressionItem.label (item : CompressionItem) : String × ContextMessageRole :=
  (item.messageId, item.role)

/-- The labels of the removed messages. -/
def CompressionReport.dropped (report : CompressionReport) : List (String × ContextMessageRole) :=
  report.removed.map CompressionItem.label

@[simp] theorem CompressionReport.dropped_remove (report : CompressionReport)
    (message : ContextMessage) (note : String) :
    (report.remove message note).dropped = report.dropped ++ [message.label] :=
  List.map_append

/-! ## The retention loop -/

section Retention

/-- The labels of the messages the loop has removed or put out. -/
def SanitizedRetention.seen (s : SanitizedRetention) : List (String × ContextMessageRole) :=
  s.report.dropped ++ s.output.map label

/-- A message is put out or removed. -/
theorem retainMessage_cases (s : SanitizedRetention) (message : ContextMessage) :
    ((retainMessage s message).output = s.output ++ [message] ∧
        (retainMessage s message).report = s.report) ∨
      ((retainMessage s message).output = s.output ∧
        ∃ note, (retainMessage s message).report = s.report.remove message note) := by
  unfold retainMessage
  by_cases hcall : message.isToolCall = true
  · rw [if_pos hcall]
    by_cases hnew : message.id ∉ s.retainedCalls
    · rw [if_pos hnew]
      exact .inl ⟨rfl, rfl⟩
    · rw [if_neg hnew]
      exact .inr ⟨rfl, _, rfl⟩
  · rw [if_neg hcall]
    by_cases hresult : message.isToolResult = true
    · rw [if_pos hresult]
      cases message.toolCallId with
      | none => exact .inr ⟨rfl, _, rfl⟩
      | some callId =>
        dsimp only
        by_cases hcalled : (s.retainedCallPositions callId).isSome = true
        · rw [if_pos hcalled]
          by_cases hfirst : callId ∉ s.retainedResults
          · rw [if_pos hfirst]
            exact .inl ⟨rfl, rfl⟩
          · rw [if_neg hfirst]
            exact .inr ⟨rfl, _, rfl⟩
        · rw [if_neg hcalled]
          exact .inr ⟨rfl, _, rfl⟩
    · rw [if_neg hresult]
      exact .inl ⟨rfl, rfl⟩

theorem retainMessage_seen (s : SanitizedRetention) (message : ContextMessage) :
    (retainMessage s message).seen.Perm (s.seen ++ [message.label]) := by
  unfold SanitizedRetention.seen
  rcases retainMessage_cases s message with ⟨hout, hreport⟩ | ⟨hout, note, hreport⟩
  · rw [hout, hreport, List.map_append, List.append_assoc]
    exact .refl _
  · rw [hout, hreport, CompressionReport.dropped_remove, List.append_assoc, List.append_assoc]
    exact List.perm_append_comm.append_left _

/-- Adding stubs removes nothing. -/
theorem insertMissingToolStubs_removed (order : SetOrder) (s : SanitizedRetention) :
    (insertMissingToolStubs order s).2.removed = s.report.removed := by
  have hstep : ∀ (acc : List (ℕ × List ContextMessage) × CompressionReport) (id : String),
      (insertStub s acc id).2.removed = acc.2.removed := by
    intro acc id
    unfold insertStub
    split_ifs
    · rfl
    · cases s.retainedCallPositions id with
      | none => rfl
      | some i => cases s.callNames id <;> rfl
  unfold insertMissingToolStubs
  induction order.arrange s.retainedCalls using List.reverseRecOn with
  | nil => rfl
  | append_singleton ids id ih => rw [List.foldl_append, List.foldl_cons, List.foldl_nil, hstep, ih]

/-- The sanitization removes or retains every message. -/
theorem sanitizeToolPairs_seen (order : SetOrder) (messages : List ContextMessage) :
    ((sanitizeToolPairs order messages).2.dropped ++ (retained messages).map label).Perm
      (messages.map label) := by
  have hseen := foldl_seen retainMessage_seen {} messages
  have hdropped : (sanitizeToolPairs order messages).2.dropped =
      (retainAndPrune messages).report.dropped :=
    congrArg (List.map CompressionItem.label) (insertMissingToolStubs_removed order _)
  rw [← List.map_eq_flatMap] at hseen
  rw [hdropped, ← (retainAndPrune_spec messages).2]
  exact hseen

end Retention

/-! ## The stubs -/

section Stubs

/-- One turn of the stub loop reports a stub for a call without a result. -/
theorem length_stubbed_foldl {s : SanitizedRetention} (h : s.Sound) {ids : List String}
    (hids : ids ⊆ s.retainedCalls) (acc : List (ℕ × List ContextMessage) × CompressionReport) :
    (ids.foldl (insertStub s) acc).2.stubbed.length =
      acc.2.stubbed.length + ids.countP (· ∉ s.retainedResults) := by
  induction ids generalizing acc with
  | nil => rfl
  | cons id ids ih =>
    obtain ⟨hid, hrest⟩ := List.cons_subset.mp hids
    obtain ⟨i, message, -, -, hpos, hname⟩ := h.exists_call hid
    rw [List.foldl_cons, ih hrest, List.countP_cons]
    unfold insertStub
    by_cases hopen : id ∈ s.retainedResults
    · rw [if_pos hopen, if_neg (by simpa using hopen), Nat.add_zero]
    · rw [if_neg hopen, if_pos (by simpa using hopen), hpos, hname]
      dsimp only
      rw [List.length_append, List.length_singleton]
      omega

/-- The retention loop inserts no stubs. -/
theorem stubbed_retainAndPrune (messages : List ContextMessage) :
    (retainAndPrune messages).report.stubbed = [] := by
  refine Runs.run_invariant (P := fun s : SanitizedRetention => s.report.stubbed = [])
    (fun s message hs => ?_) rfl messages
  rcases retainMessage_cases s message with ⟨-, hreport⟩ | ⟨-, note, hreport⟩
  · rw [hreport, hs]
  · rw [hreport]
    exact hs

/-- The retained calls, one after the other. -/
theorem retainedCalls_perm (messages : List ContextMessage) :
    (((retained messages).filter (·.isToolCall)).map (·.id)).Perm
      (retainAndPrune messages).retainedCalls := by
  have hrun := run_retained messages
  have hdistinct : (((retained messages).filter (·.isToolCall)).map (·.id)).Nodup := by
    refine List.pairwise_map.mpr ((Pairing.pairwise_of_run hrun).filter _ |>.imp_of_mem ?_)
    intro a b ha hb hab heq
    exact hab a.id (ContextMessage.event_call.mpr ⟨(List.mem_filter.mp ha).2, rfl⟩)
      (ContextMessage.event_call.mpr ⟨(List.mem_filter.mp hb).2, heq.symm⟩)
  have hcalled : (retainAndPrune messages).retainedCalls.Nodup :=
    Pairing.nodup_called hrun List.nodup_nil
  rw [List.perm_ext_iff_of_nodup hdistinct hcalled]
  intro id
  have hmem : id ∈ (retainAndPrune messages).session.called ↔ _ := Pairing.mem_called hrun
  rw [show (retainAndPrune messages).retainedCalls =
    (retainAndPrune messages).session.called from rfl, hmem, or_iff_right List.not_mem_nil,
    List.mem_map]
  simp only [ContextMessage.event_call, List.mem_filter, and_assoc]

/-- A stub is inserted for each open call. -/
theorem length_sanitized (order : SetOrder) (messages : List ContextMessage) :
    (sanitizeToolPairs order messages).1.length =
      (retained messages).length + openCalls (retained messages) := by
  have hsum := sum_flatMap_stub (f := fun _ => 1) (c := 1) (fun _ => rfl)
    (fun message => message.isToolCall = true ∧
      ¬ ∃ result ∈ retained messages, result.Answers message.id) (retained messages)
  rw [← fill_retained, ← sanitizeToolPairs_eq order, List.map_const', List.map_const',
    List.sum_replicate_nat, List.sum_replicate_nat, Nat.mul_one, Nat.mul_one, Nat.one_mul] at hsum
  exact hsum

/-- A stub is reported for each open call. -/
theorem length_stubbed (order : SetOrder) (messages : List ContextMessage) :
    (sanitizeToolPairs order messages).2.stubbed.length = openCalls (retained messages) := by
  obtain ⟨hsound, -⟩ := retainAndPrune_spec messages
  have hloop := length_stubbed_foldl hsound (order.perm _).subset
    ([], (retainAndPrune messages).report)
  rw [stubbed_retainAndPrune, (order.perm _).countP_eq, ← (retainedCalls_perm messages).countP_eq,
    List.countP_map, List.countP_filter, List.length_nil, Nat.zero_add] at hloop
  refine hloop.trans (List.countP_congr fun message _ => ?_)
  simp only [Function.comp_apply, mem_retainedResults, Bool.and_eq_true, decide_eq_true_iff]
  exact and_comm

end Stubs

/-! ## The pruning loop -/

section Pruning

variable {messages : List ContextMessage} {tokenBudget : ℕ}

/-- What a report says about a truncated message. -/
def ContextMessage.summary (message : ContextMessage) : CompressionItem :=
  ⟨message.id, message.role, "summarized to fit token budget"⟩

/-- The labels of the message at an index. -/
def labelsAt (messages : List ContextMessage) (idx : ℕ) : List (String × ContextMessageRole) :=
  messages[idx]?.toList.map label

/-- The labels of the messages the loop has removed or kept. -/
def PruneState.seen (messages : List ContextMessage) (s : PruneState) :
    List (String × ContextMessageRole) :=
  s.report.dropped ++ s.keptIndices.flatMap (labelsAt messages)

/-- What one turn of the loop can do. -/
inductive PruneStep (messages : List ContextMessage) (s : PruneState) (idx : ℕ) :
    PruneState → Prop
  | missing (hm : messages[idx]? = none) : PruneStep messages s idx s
  | keeps {message : ContextMessage} (hm : messages[idx]? = some message) :
      PruneStep messages s idx { s with
        keptIndices := idx :: s.keptIndices
        totalTokens := s.totalTokens + message.tokenCost }
  | truncates {message truncated : ContextMessage} (hm : messages[idx]? = some message)
      (hnone : s.keptIndices = []) (hlabel : truncated.label = message.label) :
      PruneStep messages s idx { s with
        totalTokens := truncated.tokenCost
        truncatedFallback := some (idx, truncated)
        keptIndices := [idx]
        report := { s.report with summarized := s.report.summarized ++ [message.summary] } }
  | removes {message : ContextMessage} (hm : messages[idx]? = some message) :
      PruneStep messages s idx
        { s with report := s.report.remove message "removed to fit token budget" }

theorem truncateMessageToBudget_label {message truncated : ContextMessage}
    {summary : CompressionItem}
    (h : truncateMessageToBudget message tokenBudget = some (truncated, summary)) :
    truncated.label = message.label ∧ summary = message.summary := by
  unfold truncateMessageToBudget at h
  dsimp only at h
  split_ifs at h
  · cases h
    exact ⟨rfl, rfl⟩
  · cases h
    exact ⟨rfl, rfl⟩

theorem pruneMessage_step (messages : List ContextMessage) (tokenBudget : ℕ) (s : PruneState)
    (idx : ℕ) : PruneStep messages s idx (pruneMessage messages tokenBudget s idx) := by
  unfold pruneMessage
  cases hm : messages[idx]? with
  | none => exact .missing hm
  | some message =>
    dsimp only
    by_cases hfits : s.totalTokens + message.tokenCost ≤ tokenBudget
    · rw [if_pos hfits]
      exact .keeps hm
    · rw [if_neg hfits]
      by_cases hnone : s.keptIndices = []
      · rw [if_pos hnone]
        cases htruncated : truncateMessageToBudget message tokenBudget with
        | none => exact .removes hm
        | some p =>
          obtain ⟨truncated, summary⟩ := p
          obtain ⟨hlabel, rfl⟩ := truncateMessageToBudget_label htruncated
          exact .truncates hm hnone hlabel
      · rw [if_neg hnone]
        exact .removes hm

section Step

variable {s s' : PruneState} {idx : ℕ}

theorem PruneStep.seen (h : PruneStep messages s idx s') :
    (s'.seen messages).Perm (s.seen messages ++ labelsAt messages idx) := by
  unfold PruneState.seen labelsAt
  cases h with
  | missing hm =>
    rw [hm, Option.toList_none, List.map_nil, List.append_nil]
  | keeps hm =>
    rw [List.flatMap_cons, hm, List.append_assoc]
    exact List.perm_append_comm.append_left _
  | truncates hm hnone hlabel =>
    rw [hnone, List.flatMap_singleton, List.flatMap_nil, List.append_nil]
    exact .refl _
  | removes hm =>
    rw [hm, CompressionReport.dropped_remove, List.append_assoc, List.append_assoc]
    exact List.perm_append_comm.append_left _

theorem PruneStep.keptIndices (h : PruneStep messages s idx s') :
    s'.keptIndices.Sublist (idx :: s.keptIndices) := by
  cases h with
  | missing | removes => exact List.sublist_cons_self _ _
  | keeps => exact .refl _
  | truncates hm hnone => rw [hnone]

theorem PruneStep.stubbed (h : PruneStep messages s idx s') :
    s'.report.stubbed = s.report.stubbed := by
  cases h with
  | missing | keeps | truncates | removes => rfl

/-- A truncated message stands for the message at its index, and is reported. -/
def PruneState.Traced (messages : List ContextMessage) (s : PruneState) : Prop :=
  ∀ idx truncated, s.truncatedFallback = some (idx, truncated) →
    ∃ message, messages[idx]? = some message ∧ truncated.label = message.label ∧
      message.summary ∈ s.report.summarized

theorem PruneState.traced_start (messages : List ContextMessage) :
    ({} : PruneState).Traced messages := by
  intro idx truncated h
  cases h

theorem PruneStep.traced (h : PruneStep messages s idx s') (hs : s.Traced messages) :
    s'.Traced messages := by
  cases h with
  | missing | keeps | removes => exact hs
  | truncates hm hnone hlabel =>
    intro i truncated' heq
    cases heq
    exact ⟨_, hm, hlabel, List.mem_append_right _ (List.mem_singleton_self _)⟩

end Step

theorem foldl_keptIndices (messages : List ContextMessage) (tokenBudget : ℕ) (s : PruneState)
    (indices : List ℕ) :
    (indices.foldl (pruneMessage messages tokenBudget) s).keptIndices.Sublist
      (indices.reverse ++ s.keptIndices) := by
  induction indices generalizing s with
  | nil => exact .refl _
  | cons idx indices ih =>
    rw [List.foldl_cons, List.reverse_cons, List.append_assoc, List.singleton_append]
    exact (ih _).trans ((pruneMessage_step messages tokenBudget s idx).keptIndices.append_left _)

theorem foldl_traced (messages : List ContextMessage) (tokenBudget : ℕ) (indices : List ℕ) :
    (indices.foldl (pruneMessage messages tokenBudget) {}).Traced messages :=
  Runs.run_invariant (fun s idx hs => (pruneMessage_step messages tokenBudget s idx).traced hs)
    (PruneState.traced_start messages) indices

/-- The pruning loop inserts no stubs. -/
theorem foldl_stubbed (messages : List ContextMessage) (tokenBudget : ℕ) (indices : List ℕ) :
    (indices.foldl (pruneMessage messages tokenBudget) {}).report.stubbed = [] :=
  Runs.run_invariant (P := fun s : PruneState => s.report.stubbed = [])
    (fun s idx hs => (pruneMessage_step messages tokenBudget s idx).stubbed.trans hs) rfl indices

/-- A truncated message keeps its label. -/
theorem PruneState.Traced.map_kept {s : PruneState} (hs : s.Traced messages) :
    (s.kept messages).map label = (atIndices messages s.keptIndices).map label := by
  have hkept : s.kept messages = (messages.zipIdx.filter fun p => p.2 ∈ s.keptIndices).map
      fun p => s.truncatedFallback.elim p.1 fun f => if f.1 = p.2 then f.2 else p.1 := by
    refine filterMap_indices (fun p hp => ?_) (fun p hp => if_pos hp) messages.zipIdx
    rw [if_neg (not_not.mpr hp)]
    cases s.truncatedFallback with
    | none => rfl
    | some fallback =>
      rw [Option.elim_some]
      by_cases hidx : fallback.1 = p.2
      · rw [if_pos hidx]
        exact if_pos hidx
      · rw [if_neg hidx]
        exact if_neg hidx
  rw [hkept, atIndices, List.map_map, List.map_map]
  apply List.map_congr_left
  intro p hp
  have hm : messages[p.2]? = some p.1 :=
    List.mk_mem_zipIdx_iff_getElem?.mp (List.mem_filter.mp hp).1
  show label (s.truncatedFallback.elim p.1 fun f => if f.1 = p.2 then f.2 else p.1) = label p.1
  cases hfallback : s.truncatedFallback with
  | none => rfl
  | some fallback =>
    rw [Option.elim_some]
    by_cases hidx : fallback.1 = p.2
    · obtain ⟨message, hmessage, hlabel, -⟩ := hs fallback.1 fallback.2 hfallback
      rw [hidx, hm] at hmessage
      cases hmessage
      rw [if_pos hidx]
      exact hlabel
    · rw [if_neg hidx]

theorem flatMap_labelsAt (messages : List ContextMessage) :
    (List.range messages.length).flatMap (labelsAt messages) = messages.map label := by
  rw [← map_snd_zipIdx, List.flatMap_map, List.map_eq_flatMap,
    ← flatMap_zipIdx messages fun message => [message.label]]
  apply List.flatMap_congr
  intro p hp
  rw [labelsAt, List.mk_mem_zipIdx_iff_getElem?.mp hp]
  rfl

end Pruning

/-- The pruning removes or keeps every message. -/
theorem pruneToBudget_seen (U : Unicode) (messages : List ContextMessage)
    (params : CompressionParams) :
    ((pruneToBudget U messages params).2.dropped ++
      (pruneToBudget U messages params).1.map label).Perm (messages.map label) := by
  have hperm := prioritizedIndices_perm U messages params.focusTopic
  unfold pruneToBudget
  dsimp only
  generalize prioritizedIndices U messages params.focusTopic = order at hperm ⊢
  have hseen := foldl_seen (fun s idx =>
    (pruneMessage_step messages params.tokenBudget s idx).seen) {} order
  have hsub := foldl_keptIndices messages params.tokenBudget {} order
  rw [List.append_nil] at hsub
  have htraced := foldl_traced messages params.tokenBudget order
  generalize order.foldl (pruneMessage messages params.tokenBudget) {} = s at hseen hsub htraced ⊢
  have hnodup : s.keptIndices.Nodup :=
    hsub.nodup ((List.reverse_perm _).nodup_iff.mpr (hperm.nodup_iff.mpr List.nodup_range))
  have hrange : ∀ idx ∈ s.keptIndices, idx < messages.length := fun idx hidx =>
    List.mem_range.mp (hperm.subset (List.mem_reverse.mp (hsub.subset hidx)))
  have hkept : ((s.kept messages).map label).Perm
      (s.keptIndices.flatMap (labelsAt messages)) := by
    have hlists := (map_atIndices_perm (f := fun message => [message.label])
      (g := labelsAt messages) (fun idx message hm => by rw [labelsAt, hm]; rfl)
      hnodup hrange).flatten
    rw [htraced.map_kept, List.map_eq_flatMap]
    exact hlists
  have hall : (order.flatMap (labelsAt messages)).Perm (messages.map label) := by
    rw [← flatMap_labelsAt]
    exact hperm.flatMap_right _
  exact (hkept.append_left _).trans (hseen.trans hall)

/-! ## The result -/

/-- The messages with a stub after each call that has no result among them. -/
def withStubs (kept : List ContextMessage) : List ContextMessage :=
  kept.flatMap fun message =>
    if message.isToolCall = true ∧ ¬ ∃ result ∈ kept, result.Answers message.id then
      [message, message.stub]
    else [message]

/-- The message with its first words only. -/
def ContextMessage.firstWords (message : ContextMessage) (n : ℕ) : ContextMessage :=
  { message with content := Text.join " " ((Text.splitWhitespace message.content).take n) }

/-- A subsequence of the messages. One of them may be cut to its first words, and is then among the
summarized items. -/
def Subsequence (messages kept : List ContextMessage) (summarized : List CompressionItem) : Prop :=
  kept.Sublist messages ∨
    ∃ pre message post n, (pre ++ message :: post).Sublist messages ∧
      kept = pre ++ message.firstWords n :: post ∧ message.summary ∈ summarized

/-- The result of a compression, with `kept` as its messages without the inserted stubs, accounts
for every message. -/
structure AccountsFor (messages kept : List ContextMessage) (result : CompressionResult) :
    Prop where
  stubs : result.messages = withStubs kept
  stubCount : result.messages.length = kept.length + result.report.stubbed.length
  subsequence : Subsequence messages kept result.report.summarized
  count : messages.length = kept.length + result.report.removed.length
  labels : (result.report.dropped ++ kept.map label).Perm (messages.map label)

section Result

variable {messages kept : List ContextMessage} {summarized : List CompressionItem}

theorem Subsequence.of_sublist (h : Subsequence messages kept summarized)
    {rest : List ContextMessage} (hrest : rest.Sublist kept) :
    Subsequence messages rest summarized := by
  rcases h with hsub | ⟨pre, message, post, n, hsub, rfl, hreported⟩
  · exact .inl (hrest.trans hsub)
  · obtain ⟨pre', post', rfl, hpre, hpost⟩ := List.sublist_append_iff.mp hrest
    rcases List.sublist_cons_iff.mp hpost with hafter | ⟨after, rfl, hafter⟩
    · -- the cut message is gone
      exact .inl ((hpre.append (hafter.cons message)).trans hsub)
    · exact .inr ⟨pre', message, after, n, (hpre.append (hafter.cons_cons message)).trans hsub,
        rfl, hreported⟩

/-- What the pruning keeps. -/
theorem pruneToBudget_subsequence (U : Unicode) (messages : List ContextMessage)
    (params : CompressionParams) :
    Subsequence messages (pruneToBudget U messages params).1
      (pruneToBudget U messages params).2.summarized := by
  have hidx : ∀ idx ∈ prioritizedIndices U messages params.focusTopic, idx < messages.length :=
    fun idx hidx => List.mem_range.mp ((prioritizedIndices_perm U messages _).subset hidx)
  unfold pruneToBudget
  dsimp only
  generalize prioritizedIndices U messages params.focusTopic = order at hidx ⊢
  cases order with
  | nil =>
    rw [List.foldl_nil, kept_of_none rfl]
    exact .inl (atIndices_sublist messages _)
  | cons idx order =>
    have hlt : idx < messages.length := hidx idx List.mem_cons_self
    have hm : messages[idx]? = some messages[idx] := List.getElem?_eq_getElem hlt
    by_cases hclip : messages[idx].IsClipped params.tokenBudget
    · obtain ⟨hkept, hfallback⟩ := kept_foldl_clips hm hidx hclip
      obtain ⟨message, hmessage, -, hreported⟩ :=
        foldl_traced messages params.tokenBudget (idx :: order) _ _
          hfallback
      cases hm.symm.trans hmessage
      rw [hkept]
      exact .inr ⟨[], messages[idx], [], params.tokenBudget - 4,
        List.singleton_sublist.mpr (List.mem_of_getElem? hm), rfl, hreported⟩
    · rw [kept_foldl_selects hm hidx hclip]
      exact .inl (atIndices_sublist messages _)

/-- **Accounting.** A compression keeps a subsequence of the messages, beside the stubs it inserts,
and reports every other message as removed. What the pruning leaves is within the budget, and so is
what the compression keeps of it. -/
theorem compress_accounted (U : Unicode) (order : SetOrder) (messages : List ContextMessage)
    (params : CompressionParams) (hbudget : 0 < params.tokenBudget) :
    ∃ result kept, compress U order messages params = .ok result ∧
      AccountsFor messages kept result ∧
      kept = retained (pruneToBudget U messages params).1 ∧
      totalCost (pruneToBudget U messages params).1 ≤ params.tokenBudget ∧
      totalCost kept ≤ params.tokenBudget := by
  have hpruned := pruneToBudget_seen U messages params
  have hsub := pruneToBudget_subsequence U messages params
  have hcost : totalCost (pruneToBudget U messages params).1 ≤ params.tokenBudget := by
    rw [pruneToBudget_eq]
    exact totalCost_selected U messages params
  refine ⟨_, retained (pruneToBudget U messages params).1,
    compress_eq U order messages params hbudget, ?_, rfl, hcost,
    (totalCost_retained_le _).trans hcost⟩
  have hsanitized := sanitizeToolPairs_seen order (pruneToBudget U messages params).1
  have hnone : (pruneToBudget U messages params).2.stubbed = [] := foldl_stubbed messages _ _
  generalize pruneToBudget U messages params = pruned at hpruned hsub hsanitized hnone ⊢
  have hlabels : ((pruned.2.removed ++
        (sanitizeToolPairs order pruned.1).2.removed).map CompressionItem.label ++
      (retained pruned.1).map label).Perm (messages.map label) := by
    rw [List.map_append, List.append_assoc]
    exact (hsanitized.append_left _).trans hpruned
  refine ⟨?_, ?_, hsub.of_sublist (Pairing.keep_sublist _ _), ?_, hlabels⟩
  · exact (sanitizeToolPairs_eq order pruned.1).trans (fill_retained pruned.1)
  · dsimp only
    rw [length_sanitized, hnone, List.nil_append, length_stubbed]
  · have hlength := hlabels.length_eq
    rw [List.length_append, List.length_map, List.length_map, List.length_map] at hlength
    rw [← hlength, Nat.add_comm]

end Result

/-- A call that is kept and gets a stub, and a text that is removed. -/
theorem compress_accounted_two :
    let messages : List ContextMessage :=
      [.text "msg-1" .user "implement phase target".toList,
        .toolCall "call-1" "search" "call".toList]
    ∃ result kept, compress .asciiTables .inOrder messages ⟨none, 6⟩ = .ok result ∧
      AccountsFor messages kept result ∧
      kept = retained (pruneToBudget .asciiTables messages ⟨none, 6⟩).1 ∧
      totalCost (pruneToBudget .asciiTables messages ⟨none, 6⟩).1 ≤ 6 ∧ totalCost kept ≤ 6 :=
  compress_accounted .asciiTables .inOrder _ ⟨none, 6⟩ (by decide)

end Hymenium
