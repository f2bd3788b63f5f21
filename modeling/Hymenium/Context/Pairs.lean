import Hymenium.Context.Compress
import Hymenium.Foundations.Pairing

/-!
# Tool pairs after sanitization

The retention loop is the automaton of calls and replies (`retainAndPrune_spec`), and the stitched
stubs are those of `Pairing.fill` (`sanitizeToolPairs_eq`), whatever the order of the hash set. So the
sanitized messages are complete, and are left alone by a second sanitization (`pairsRestored`).
-/

namespace Hymenium

open Pairing

/-- What a message is to the pairing of tool calls and results. -/
def ContextMessage.event (message : ContextMessage) : Event String :=
  match message.role with
  | .toolCall => .call message.id
  | .toolResult =>
    match message.toolCallId with
    | some callId => .reply callId
    | none => .stray
  | .system | .user | .assistant => .other

/-- The stub result of a call message. -/
def ContextMessage.stub (message : ContextMessage) : ContextMessage :=
  stubResult message.id (message.toolName.getD "tool")

section Events

variable {message : ContextMessage} {id : String}

theorem ContextMessage.event_call :
    message.event = .call id ↔ message.isToolCall = true ∧ message.id = id := by
  obtain ⟨mid, role, content, callId, name⟩ := message
  unfold event isToolCall
  cases role with
  | toolCall => simp
  | toolResult => cases callId <;> simp
  | system | user | assistant => simp

theorem ContextMessage.event_reply :
    message.event = .reply id ↔ message.isToolResult = true ∧ message.toolCallId = some id := by
  obtain ⟨mid, role, content, callId, name⟩ := message
  unfold event isToolResult
  cases role with
  | toolCall => simp
  | toolResult => cases callId <;> simp
  | system | user | assistant => simp

theorem ContextMessage.event_stub (h : message.event = .call id) :
    message.stub.event = .reply id := by
  rw [← (event_call.mp h).2]
  rfl

end Events

/-! ## The retention loop -/

/-- The automaton state that the two sets of a retention stand for. -/
def SanitizedRetention.session (s : SanitizedRetention) : Session String :=
  ⟨s.retainedCalls, s.retainedResults⟩

/-- The sets and the maps of a retention describe its output. -/
structure SanitizedRetention.Sound (s : SanitizedRetention) : Prop where
  accepted : run (accept ContextMessage.event) {} s.output = some s.session
  positions : ∀ id i, s.retainedCallPositions id = some i ↔
    ∃ message, s.output[i]? = some message ∧ message.event = .call id
  names : ∀ message ∈ s.output, ∀ id, message.event = .call id →
    s.callNames id = some (message.toolName.getD "tool")

section Retention

variable {s : SanitizedRetention} {message : ContextMessage}

theorem SanitizedRetention.sound_start : ({} : SanitizedRetention).Sound where
  accepted := rfl
  positions _ _ := by simp
  names _ h := nomatch h

namespace SanitizedRetention.Sound

theorem mem_retainedCalls (h : s.Sound) (id : String) :
    id ∈ s.retainedCalls ↔ ∃ message ∈ s.output, message.event = .call id := by
  have hcalled : id ∈ s.session.called ↔ _ := mem_called h.accepted
  exact hcalled.trans (or_iff_right List.not_mem_nil)

theorem position_isSome (h : s.Sound) (id : String) :
    (s.retainedCallPositions id).isSome = true ↔ id ∈ s.retainedCalls := by
  rw [Option.isSome_iff_exists, h.mem_retainedCalls]
  simp only [h.positions]
  constructor
  · rintro ⟨i, m, hm, he⟩
    exact ⟨m, List.mem_of_getElem? hm, he⟩
  · rintro ⟨m, hm, he⟩
    obtain ⟨i, hi⟩ := List.getElem?_of_mem hm
    exact ⟨i, m, hi, he⟩

/-- A message that is accepted and entered into the sets and the maps. -/
theorem push (h : s.Sound) {s' : SanitizedRetention}
    (hrun : accept ContextMessage.event s.session message = some s'.session)
    (hout : s'.output = s.output ++ [message])
    (hpos : ∀ id i, s'.retainedCallPositions id = some i ↔
      s.retainedCallPositions id = some i ∨ i = s.output.length ∧ message.event = .call id)
    (hnames : ∀ id, s'.callNames id =
      if message.event = .call id then some (message.toolName.getD "tool")
      else s.callNames id) : s'.Sound where
  accepted := by
    rw [hout, run_append]
    exact ⟨s.session, h.accepted, run_cons.mpr ⟨_, hrun, rfl⟩⟩
  positions id i := by
    rw [hpos, hout, h.positions]
    constructor
    · rintro (⟨m, hm, he⟩ | ⟨rfl, he⟩)
      · have hlt := (List.getElem?_eq_some_iff.mp hm).1
        exact ⟨m, by rw [List.getElem?_append_left hlt, hm], he⟩
      · exact ⟨message, List.getElem?_concat_length, he⟩
    · rintro ⟨m, hm, he⟩
      by_cases hi : i < s.output.length
      · rw [List.getElem?_append_left hi] at hm
        exact .inl ⟨m, hm, he⟩
      · have hlen : i < (s.output ++ [message]).length := (List.getElem?_eq_some_iff.mp hm).1
        rw [List.length_append, List.length_singleton] at hlen
        obtain rfl : i = s.output.length := by omega
        rw [List.getElem?_concat_length] at hm
        cases hm
        exact .inr ⟨rfl, he⟩
  names m hm id he := by
    rw [hout] at hm
    rcases List.mem_append.mp hm with hm | hm
    · have hold : message.event ≠ .call id := by
        intro hsame
        have hin : id ∈ s.session.called := (h.mem_retainedCalls id).mpr ⟨m, hm, he⟩
        rw [accept_call hsame, if_pos hin] at hrun
        cases hrun
      rw [hnames, if_neg hold, h.names m hm id he]
    · obtain rfl := List.mem_singleton.mp hm
      rw [hnames, if_pos he]

end SanitizedRetention.Sound

theorem retainMessage_reply {id : String} (he : message.event = .reply id) :
    retainMessage s message =
      if (s.retainedCallPositions id).isSome then
        if id ∉ s.retainedResults then
          { s with retainedResults := id :: s.retainedResults, output := s.output ++ [message] }
        else
          { s with report := s.report.remove message "tool result removed during sanitization" }
      else { s with report := s.report.remove message "orphaned tool result removed" } := by
  obtain ⟨hresult, hid⟩ := ContextMessage.event_reply.mp he
  have hcall : ¬ message.isToolCall = true := by
    intro hcall
    rw [ContextMessage.event_call.mpr ⟨hcall, rfl⟩] at he
    cases he
  unfold retainMessage
  rw [if_neg hcall, if_pos hresult, hid]

theorem retainMessage_stray (he : message.event = .stray) :
    retainMessage s message =
      { s with
        report :=
          s.report.remove message "tool result missing call id removed during sanitization" } := by
  obtain ⟨mid, role, content, callId, name⟩ := message
  unfold ContextMessage.event at he
  cases role with
  | toolResult =>
    cases callId with
    | none => rfl
    | some callId => cases he
  | toolCall | system | user | assistant => cases he

theorem retainMessage_other (he : message.event = .other) :
    retainMessage s message = { s with output := s.output ++ [message] } := by
  obtain ⟨mid, role, content, callId, name⟩ := message
  unfold ContextMessage.event at he
  cases role with
  | toolResult => cases callId <;> cases he
  | toolCall => cases he
  | system | user | assistant => rfl

/-- **Step lemma.** The loop drops the messages that the automaton refuses. -/
theorem retainMessage_refused (h : s.Sound)
    (hrefused : accept ContextMessage.event s.session message = none) :
    ∃ note, retainMessage s message = { s with report := s.report.remove message note } := by
  cases he : message.event with
  | call id =>
    obtain ⟨hcall, rfl⟩ := ContextMessage.event_call.mp he
    rw [accept_call he] at hrefused
    split_ifs at hrefused with hmem
    have hmem : message.id ∈ s.retainedCalls := hmem
    unfold retainMessage
    rw [if_pos hcall, if_neg (not_not.mpr hmem)]
    exact ⟨_, rfl⟩
  | reply id =>
    rw [accept_reply he] at hrefused
    rw [retainMessage_reply he]
    split_ifs at hrefused with hopen
    by_cases hpos : (s.retainedCallPositions id).isSome = true
    · have hreplied : ¬ id ∉ s.retainedResults := fun hnew =>
        hopen ⟨(h.position_isSome id).mp hpos, hnew⟩
      rw [if_pos hpos, if_neg hreplied]
      exact ⟨_, rfl⟩
    · rw [if_neg hpos]
      exact ⟨_, rfl⟩
  | stray => exact ⟨_, retainMessage_stray he⟩
  | other =>
    rw [accept_other he] at hrefused
    cases hrefused

/-- **Step lemma.** The loop keeps the messages that the automaton accepts. -/
theorem retainMessage_accepted (h : s.Sound) {t : Session String}
    (haccepted : accept ContextMessage.event s.session message = some t) :
    (retainMessage s message).Sound ∧ (retainMessage s message).session = t ∧
      (retainMessage s message).output = s.output ++ [message] ∧
      (retainMessage s message).report = s.report := by
  rcases accept_cases haccepted with ⟨id, he, hnew, rfl⟩ | ⟨id, he, hcalled, hnew, rfl⟩ | ⟨he, rfl⟩
  · obtain ⟨hcall, rfl⟩ := ContextMessage.event_call.mp he
    have hfresh : message.id ∉ s.retainedCalls := hnew
    have hstep : retainMessage s message = _ := if_pos hcall
    rw [if_pos hfresh] at hstep
    rw [hstep]
    refine ⟨h.push haccepted rfl (fun id i => ?_) fun id => ?_, rfl, rfl, rfl⟩
    · -- the id is new, so that it has no position yet
      have hnone : s.retainedCallPositions message.id = none := by
        rw [← Option.not_isSome_iff_eq_none, h.position_isSome]
        exact hfresh
      rw [he, Event.call.injEq]
      dsimp only
      by_cases hid : id = message.id
      · rw [hid, Function.update_self, hnone]
        simp [eq_comm]
      · rw [Function.update_of_ne hid]
        simp [Ne.symm hid]
    · rw [he]
      dsimp only
      by_cases hid : id = message.id
      · rw [hid, Function.update_self, if_pos rfl]
      · rw [Function.update_of_ne hid, if_neg]
        exact fun heq => hid (Event.call.inj heq).symm
  · have hpos : (s.retainedCallPositions id).isSome = true := (h.position_isSome id).mpr hcalled
    have hresult : id ∉ s.retainedResults := hnew
    rw [retainMessage_reply he, if_pos hpos, if_pos hresult]
    refine ⟨h.push haccepted rfl (fun id' i => ?_) fun id' => ?_, rfl, rfl, rfl⟩
    · simp [he]
    · simp [he]
  · rw [retainMessage_other he]
    refine ⟨h.push haccepted rfl (fun id' i => ?_) fun id' => ?_, rfl, rfl, rfl⟩
    · simp [he]
    · simp [he]

theorem SanitizedRetention.Sound.remove (h : s.Sound) (note : String) :
    ({ s with report := s.report.remove message note } : SanitizedRetention).Sound :=
  ⟨h.accepted, h.positions, h.names⟩

/-- The loop, from any state. -/
theorem foldl_retainMessage (h : s.Sound) (messages : List ContextMessage) :
    (messages.foldl retainMessage s).Sound ∧
      (messages.foldl retainMessage s).output =
        s.output ++ keep (accept ContextMessage.event) s.session messages := by
  induction messages generalizing s with
  | nil => exact ⟨h, (List.append_nil _).symm⟩
  | cons message messages ih =>
    rw [List.foldl_cons]
    cases ha : accept ContextMessage.event s.session message with
    | none =>
      obtain ⟨note, hstep⟩ := retainMessage_refused h ha
      rw [hstep, keep_of_none ha]
      exact ih (h.remove note)
    | some t =>
      obtain ⟨hsound, hsession, hout, -⟩ := retainMessage_accepted h ha
      obtain ⟨hall, houtput⟩ := ih hsound
      refine ⟨hall, ?_⟩
      rw [houtput, hsession, hout, keep_of_some ha, List.append_assoc, List.singleton_append]

/-- A list that is accepted is retained without a report. -/
theorem foldl_retainMessage_accepted (h : s.Sound) {messages : List ContextMessage}
    {t : Session String} (hrun : run (accept ContextMessage.event) s.session messages = some t) :
    (messages.foldl retainMessage s).session = t ∧
      (messages.foldl retainMessage s).report = s.report := by
  induction messages generalizing s with
  | nil =>
    cases hrun
    exact ⟨rfl, rfl⟩
  | cons message messages ih =>
    obtain ⟨u, ha, hrest⟩ := run_cons.mp hrun
    obtain ⟨hsound, hsession, -, hreport⟩ := retainMessage_accepted h ha
    rw [← hsession] at hrest
    rw [List.foldl_cons, ← hreport]
    exact ih hsound hrest

/-- The messages that are retained. -/
def retained (messages : List ContextMessage) : List ContextMessage :=
  keep (accept ContextMessage.event) {} messages

/-- **Retention.** The output is what the automaton keeps, and the sets and maps describe it. -/
theorem retainAndPrune_spec (messages : List ContextMessage) :
    (retainAndPrune messages).Sound ∧ (retainAndPrune messages).output = retained messages :=
  foldl_retainMessage SanitizedRetention.sound_start messages

end Retention

/-! ## The stubs -/

section Stubs

variable {s : SanitizedRetention}

/-- The stubs that are inserted, in the order of the iteration. -/
def missingStubs (order : SetOrder) (s : SanitizedRetention) : List ContextMessage :=
  ((order.arrange s.retainedCalls).filter (· ∉ s.retainedResults)).map fun id =>
    stubResult id ((s.callNames id).getD "")

/-- The index a stub is inserted after. -/
def stubPosition (s : SanitizedRetention) (stub : ContextMessage) : ℕ :=
  ((stub.toolCallId.bind s.retainedCallPositions)).getD 0

/-- One turn of the stub loop, on a call that has a position and a name. -/
theorem insertStub_open {acc : List (ℕ × List ContextMessage) × CompressionReport} {id : String}
    {i : ℕ} {name : String} (hpos : s.retainedCallPositions id = some i)
    (hname : s.callNames id = some name) (hopen : id ∉ s.retainedResults) :
    (insertStub s acc id).1 =
      Grouped.insert (stubPosition s (stubResult id name)) (stubResult id name) acc.1 := by
  have hi : stubPosition s (stubResult id name) = i := by
    show (s.retainedCallPositions id).getD 0 = i
    rw [hpos, Option.getD_some]
  unfold insertStub
  rw [if_neg hopen, hpos, hname, hi]

theorem SanitizedRetention.Sound.exists_call (h : s.Sound) {id : String}
    (hid : id ∈ s.retainedCalls) :
    ∃ i message, s.output[i]? = some message ∧ message.event = .call id ∧
      s.retainedCallPositions id = some i ∧
      s.callNames id = some (message.toolName.getD "tool") := by
  obtain ⟨message, hm, he⟩ := (h.mem_retainedCalls id).mp hid
  obtain ⟨i, hi⟩ := List.getElem?_of_mem hm
  exact ⟨i, message, hi, he, (h.positions id i).mpr ⟨message, hi, he⟩, h.names message hm id he⟩

theorem foldl_insertStub (h : s.Sound) {ids : List String} (hids : ids ⊆ s.retainedCalls)
    (acc : List (ℕ × List ContextMessage) × CompressionReport) :
    (ids.foldl (insertStub s) acc).1 =
      (((ids.filter (· ∉ s.retainedResults)).map fun id =>
        stubResult id ((s.callNames id).getD "")).foldl
          (fun groups stub => Grouped.insert (stubPosition s stub) stub groups) acc.1) := by
  induction ids generalizing acc with
  | nil => rfl
  | cons id ids ih =>
    obtain ⟨hid, hrest⟩ := List.cons_subset.mp hids
    obtain ⟨i, message, -, -, hpos, hname⟩ := h.exists_call hid
    rw [List.foldl_cons, ih hrest]
    by_cases hopen : id ∈ s.retainedResults
    · rw [List.filter_cons_of_neg (by simpa using hopen)]
      unfold insertStub
      rw [if_pos hopen]
    · rw [List.filter_cons_of_pos (by simpa using hopen), List.map_cons, List.foldl_cons,
        insertStub_open hpos hname hopen, hname, Option.getD_some]

/-- The map of stubs groups them by the position of their call. -/
theorem insertMissingToolStubs_eq (h : s.Sound) (order : SetOrder) :
    (insertMissingToolStubs order s).1 = Grouped.group (stubPosition s) (missingStubs order s) :=
  foldl_insertStub h (order.perm s.retainedCalls).subset ([], s.report)

/-- No stubs when every call is answered, and then no report of them. -/
theorem insertMissingToolStubs_answered (order : SetOrder)
    (hall : s.retainedCalls ⊆ s.retainedResults) :
    insertMissingToolStubs order s = ([], s.report) := by
  have hids : order.arrange s.retainedCalls ⊆ s.retainedResults := fun id hid =>
    hall ((order.perm _).subset hid)
  unfold insertMissingToolStubs
  generalize order.arrange s.retainedCalls = ids at hids
  induction ids with
  | nil => rfl
  | cons id ids ih =>
    obtain ⟨hid, hrest⟩ := List.cons_subset.mp hids
    rw [List.foldl_cons, insertStub, if_pos hid]
    exact ih hrest

/-- A stub belongs after the call of its id. -/
theorem stubPosition_eq_iff (h : s.Sound) {i : ℕ} {message : ContextMessage}
    (hm : s.output[i]? = some message) {id : String} (hid : id ∈ s.retainedCalls) (name : String) :
    stubPosition s (stubResult id name) = i ↔ message.event = .call id := by
  obtain ⟨j, call, hj, he, hpos, -⟩ := h.exists_call hid
  have hposition : stubPosition s (stubResult id name) = j := by
    show (s.retainedCallPositions id).getD 0 = j
    rw [hpos, Option.getD_some]
  rw [hposition]
  constructor
  · rintro rfl
    rw [hm] at hj
    cases hj
    exact he
  · intro hcall
    exact Option.some.inj (hpos.symm.trans ((h.positions id i).mpr ⟨message, hm, hcall⟩))

/-- The stubs with the position of one message belong to its id. -/
theorem filter_missingStubs (h : s.Sound) (order : SetOrder) {i : ℕ} {message : ContextMessage}
    (hm : s.output[i]? = some message) :
    (missingStubs order s).filter (fun stub => decide (stubPosition s stub = i)) =
      (((order.arrange s.retainedCalls).filter (· ∉ s.retainedResults)).filter
        (fun id => decide (message.event = .call id))).map fun id =>
          stubResult id ((s.callNames id).getD "") := by
  unfold missingStubs
  rw [List.filter_map]
  congr 1
  apply List.filter_congr
  intro id hid
  have hcalled : id ∈ s.retainedCalls :=
    (order.perm _).subset (List.mem_filter.mp hid).1
  exact decide_eq_decide.mpr (stubPosition_eq_iff h hm hcalled _)

theorem filter_missingStubs_call (h : s.Sound) (order : SetOrder) {i : ℕ}
    {message : ContextMessage} (hm : s.output[i]? = some message) {id : String}
    (he : message.event = .call id) :
    (missingStubs order s).filter (fun stub => decide (stubPosition s stub = i)) =
      if id ∈ s.retainedResults then [] else [message.stub] := by
  rw [filter_missingStubs h order hm, he]
  have hids : (order.arrange s.retainedCalls).Nodup :=
    (order.perm _).nodup_iff.mpr (nodup_called h.accepted List.nodup_nil)
  have hmem : id ∈ order.arrange s.retainedCalls :=
    (order.perm _).mem_iff.mpr ((h.mem_retainedCalls id).mpr ⟨message, List.mem_of_getElem? hm, he⟩)
  generalize order.arrange s.retainedCalls = ids at hids hmem
  have hsame : (ids.filter (· ∉ s.retainedResults)).filter
      (fun id' => decide (Event.call id = Event.call id')) =
      (ids.filter (· ∉ s.retainedResults)).filter (· = id) :=
    List.filter_congr fun id' _ => by simp [eq_comm]
  rw [hsame, List.filter_eq, List.Nodup.count (hids.filter _)]
  by_cases hopen : id ∈ s.retainedResults
  · have hout : id ∉ ids.filter (· ∉ s.retainedResults) := by simp [hopen]
    rw [if_pos hopen, if_neg hout]
    rfl
  · have hin : id ∈ ids.filter (· ∉ s.retainedResults) := by simp [hopen, hmem]
    rw [if_neg hopen, if_pos hin, List.replicate_one, List.map_singleton,
      h.names message (List.mem_of_getElem? hm) id he, Option.getD_some, ContextMessage.stub,
      (ContextMessage.event_call.mp he).2]

theorem filter_missingStubs_other (h : s.Sound) (order : SetOrder) {i : ℕ}
    {message : ContextMessage} (hm : s.output[i]? = some message)
    (he : ∀ id, message.event ≠ .call id) :
    (missingStubs order s).filter (fun stub => decide (stubPosition s stub = i)) = [] := by
  rw [filter_missingStubs h order hm, List.map_eq_nil_iff, List.filter_eq_nil_iff]
  intro id _ heq
  exact he id (of_decide_eq_true heq)

theorem flatMap_zipIdx {β : Type} (output : List ContextMessage) (f : ContextMessage → List β) :
    (output.zipIdx.flatMap fun p => f p.1) = output.flatMap f := by
  have hfst : output.zipIdx.map Prod.fst = output := List.zipIdx_map_fst 0 output
  conv_rhs => rw [← hfst, List.flatMap_map]

theorem stitchStubs_eq (output : List ContextMessage) (stubs : List (ℕ × List ContextMessage)) :
    stitchStubs output stubs =
      output.zipIdx.flatMap fun p => p.1 :: (stubs.lookup p.2).getD [] := by
  unfold stitchStubs
  split_ifs with h
  · rw [h]
    have hsingle : ∀ p : ContextMessage × ℕ,
        p.1 :: (([] : List (ℕ × List ContextMessage)).lookup p.2).getD [] = [p.1] := fun _ => rfl
    simp only [hsingle]
    rw [flatMap_zipIdx output fun m => [m], List.flatMap_singleton']
  · rfl

/-- **Stitching.** The stitched stubs are those of the calls without a result, whatever the order of
the hash set. -/
theorem stitchStubs_missing (h : s.Sound) (order : SetOrder) :
    stitchStubs s.output (insertMissingToolStubs order s).1 =
      fill ContextMessage.event ContextMessage.stub s.retainedResults s.output := by
  have hgroup := Grouped.isGrouping_group (stubPosition s) (missingStubs order s)
  rw [stitchStubs_eq, insertMissingToolStubs_eq h]
  simp only [hgroup.lookup]
  have hturn : ∀ p ∈ s.output.zipIdx,
      p.1 :: (missingStubs order s).filter (fun stub => decide (stubPosition s stub = p.2)) =
        fill ContextMessage.event ContextMessage.stub s.retainedResults [p.1] := by
    rintro ⟨message, i⟩ hp
    have hm : s.output[i]? = some message := List.mk_mem_zipIdx_iff_getElem?.mp hp
    cases he : message.event with
    | call id =>
      dsimp only
      rw [filter_missingStubs_call h order hm he]
      by_cases hopen : id ∈ s.retainedResults
      · rw [if_pos hopen, fill_call_replied he hopen]
        rfl
      · rw [if_neg hopen, fill_call_open he hopen]
        rfl
    | reply | stray | other =>
      rw [filter_missingStubs_other h order hm (by simp [he]), fill_other (by simp [he])]
      rfl
  calc s.output.zipIdx.flatMap _
      = s.output.zipIdx.flatMap fun p =>
          fill ContextMessage.event ContextMessage.stub s.retainedResults [p.1] :=
        List.flatMap_congr hturn
    _ = s.output.flatMap fun m =>
          fill ContextMessage.event ContextMessage.stub s.retainedResults [m] :=
        flatMap_zipIdx s.output fun m =>
          fill ContextMessage.event ContextMessage.stub s.retainedResults [m]
    _ = fill ContextMessage.event ContextMessage.stub s.retainedResults s.output := by
        simp only [fill, List.flatMap_singleton]

end Stubs

/-! ## What a sanitization restores -/

/-- The message is the result of the call of this id. -/
def ContextMessage.Answers (message : ContextMessage) (id : String) : Prop :=
  message.isToolResult = true ∧ message.toolCallId = some id

instance (message : ContextMessage) (id : String) : Decidable (message.Answers id) :=
  inferInstanceAs (Decidable (_ ∧ _))

/-- The message belongs to no tool pair. -/
def ContextMessage.isPlain (message : ContextMessage) : Bool :=
  !message.isToolCall && !message.isToolResult

/-- Tool calls and tool results come in pairs. -/
structure ToolPairs (messages : List ContextMessage) : Prop where
  distinct : messages.Pairwise fun a b =>
    a.isToolCall = true → b.isToolCall = true → a.id ≠ b.id
  answered : ∀ pre call post, messages = pre ++ call :: post → call.isToolCall = true →
    ∃ mid result rest, post = mid ++ result :: rest ∧ result.Answers call.id ∧
      ∀ message ∈ pre ++ mid ++ rest, ¬ message.Answers call.id
  called : ∀ pre result post, messages = pre ++ result :: post → result.isToolResult = true →
    ∃ call ∈ pre, call.isToolCall = true ∧ result.toolCallId = some call.id

/-- The messages `out` are `messages` with the tool pairs restored. -/
structure PairsRestored (messages out : List ContextMessage) : Prop where
  pairs : ToolPairs out
  plain : out.filter (·.isPlain) = messages.filter (·.isPlain)
  first : ∀ pre call post, messages = pre ++ call :: post → call.isToolCall = true →
    (∀ message ∈ pre, message.isToolCall = true → message.id ≠ call.id) → call ∈ out
  stubs : ∃ kept : List ContextMessage, kept.Sublist messages ∧
    out = kept.flatMap fun message =>
      if message.isToolCall = true ∧ ¬ ∃ result ∈ kept, result.Answers message.id then
        [message, message.stub]
      else [message]

section Restored

variable {messages out : List ContextMessage}

theorem ToolPairs.of_complete (h : Complete ContextMessage.event out) : ToolPairs out where
  distinct := h.calls.imp fun {a b} hab ha hb heq =>
    hab a.id (ContextMessage.event_call.mpr ⟨ha, rfl⟩)
      (ContextMessage.event_call.mpr ⟨hb, heq.symm⟩)
  answered pre call post hout hcall := by
    obtain ⟨mid, result, rest, hpost, hreply, hother⟩ :=
      h.answered pre call post call.id hout (ContextMessage.event_call.mpr ⟨hcall, rfl⟩)
    refine ⟨mid, result, rest, hpost, ContextMessage.event_reply.mp hreply, fun m hm ha => ?_⟩
    exact hother m hm (ContextMessage.event_reply.mpr ha)
  called pre result post hout hresult := by
    have hmem : result ∈ out := by simp [hout]
    cases hid : result.toolCallId with
    | none =>
      refine absurd ?_ (h.stray result hmem)
      have hrole : result.role = .toolResult := of_decide_eq_true hresult
      simp [ContextMessage.event, hrole, hid]
    | some id =>
      obtain ⟨call, hc, he⟩ := h.called pre result post id hout
        (ContextMessage.event_reply.mpr ⟨hresult, hid⟩)
      obtain ⟨hcall, hsame⟩ := ContextMessage.event_call.mp he
      exact ⟨call, hc, hcall, by rw [hsame]⟩

theorem isPlain_iff {message : ContextMessage} :
    message.isPlain = true ↔ message.event = .other := by
  obtain ⟨mid, role, content, callId, name⟩ := message
  unfold ContextMessage.isPlain ContextMessage.isToolCall ContextMessage.isToolResult
    ContextMessage.event
  cases role with
  | toolResult => cases callId <;> simp
  | toolCall | system | user | assistant => simp

/-- A complete list is left alone. -/
theorem sanitizeToolPairs_complete (order : SetOrder) {t : Session String}
    (hrun : run (accept ContextMessage.event) {} out = some t) (hall : t.called ⊆ t.replied) :
    sanitizeToolPairs order out = (out, {}) := by
  have hout : (retainAndPrune out).output = out :=
    (retainAndPrune_spec out).2.trans (keep_of_run hrun)
  obtain ⟨hsession, hreport⟩ :=
    foldl_retainMessage_accepted SanitizedRetention.sound_start hrun
  have hsub : (retainAndPrune out).retainedCalls ⊆ (retainAndPrune out).retainedResults := by
    have hcalls : (retainAndPrune out).session.called ⊆ (retainAndPrune out).session.replied := by
      rw [retainAndPrune, hsession]
      exact hall
    exact hcalls
  have hempty : (retainAndPrune out).report = {} := hreport
  unfold sanitizeToolPairs
  dsimp only
  rw [insertMissingToolStubs_answered order hsub, hout, hempty]
  rfl

theorem sanitizeToolPairs_eq (order : SetOrder) (messages : List ContextMessage) :
    (sanitizeToolPairs order messages).1 =
      fill ContextMessage.event ContextMessage.stub (retainAndPrune messages).retainedResults
        (retained messages) := by
  obtain ⟨hsound, hout⟩ := retainAndPrune_spec messages
  rw [← hout]
  exact stitchStubs_missing hsound order

/-- The first call of an id is retained. -/
theorem mem_retained_of_first {pre post : List ContextMessage} {call : ContextMessage}
    (hcall : call.isToolCall = true)
    (hfirst : ∀ message ∈ pre, message.isToolCall = true → message.id ≠ call.id) :
    call ∈ retained (pre ++ call :: post) := by
  have he : call.event = .call call.id := ContextMessage.event_call.mpr ⟨hcall, rfl⟩
  have hnew : call.id ∉ (final (accept ContextMessage.event) {} pre).called := by
    rw [mem_called (run_keep {} pre), not_or]
    refine ⟨List.not_mem_nil, ?_⟩
    rintro ⟨m, hm, hme⟩
    obtain ⟨hmcall, hmid⟩ := ContextMessage.event_call.mp hme
    exact hfirst m ((keep_sublist _ _).subset hm) hmcall hmid
  have hstep : accept ContextMessage.event (final (accept ContextMessage.event) {} pre) call =
      some _ := (accept_call he).trans (if_neg hnew)
  rw [retained, keep_append, keep_of_some hstep]
  simp

/-- The sets of the retention are those of the retained messages. -/
theorem run_retained (messages : List ContextMessage) :
    run (accept ContextMessage.event) {} (retained messages) =
      some (retainAndPrune messages).session := by
  obtain ⟨hsound, hout⟩ := retainAndPrune_spec messages
  rw [← hout]
  exact hsound.accepted

theorem retained_plain (messages : List ContextMessage) :
    (retained messages).filter (·.isPlain) = messages.filter (·.isPlain) := by
  refine filter_keep ?_ _ messages
  intro s message hplain
  rw [accept_other (isPlain_iff.mp hplain)]
  exact Option.some_ne_none s

theorem stub_not_plain (message : ContextMessage) : message.stub.isPlain ≠ true := by
  show false ≠ true
  exact Bool.false_ne_true

theorem mem_retainedResults (messages : List ContextMessage) (id : String) :
    id ∈ (retainAndPrune messages).retainedResults ↔
      ∃ result ∈ retained messages, result.Answers id := by
  have hmem : id ∈ (retainAndPrune messages).session.replied ↔ _ :=
    mem_replied (run_retained messages)
  rw [show (retainAndPrune messages).retainedResults =
    (retainAndPrune messages).session.replied from rfl, hmem, or_iff_right List.not_mem_nil]
  simp only [ContextMessage.event_reply, ContextMessage.Answers]

/-- The stubs stand after the retained calls without a retained result. -/
theorem fill_retained (messages : List ContextMessage) :
    fill ContextMessage.event ContextMessage.stub (retainAndPrune messages).retainedResults
        (retained messages) =
      (retained messages).flatMap fun message =>
        if message.isToolCall = true ∧
            ¬ ∃ result ∈ retained messages, result.Answers message.id then
          [message, message.stub]
        else [message] := by
  apply List.flatMap_congr
  intro message _
  simp only [← mem_retainedResults]
  cases he : message.event with
  | call id =>
    obtain ⟨hcall, rfl⟩ := ContextMessage.event_call.mp he
    simp only [hcall, true_and, ite_not]
  | reply | stray | other =>
    have hcall : ¬ message.isToolCall = true := fun hcall => by
      cases he.symm.trans (ContextMessage.event_call.mpr ⟨hcall, rfl⟩)
    rw [if_neg fun h => hcall h.1]

/-- **Tool pairs.** Sanitizing restores the tool pairs, whatever the order of the hash set, and a
second time it changes and reports nothing. -/
theorem pairsRestored (order : SetOrder) (messages : List ContextMessage) :
    PairsRestored messages (sanitizeToolPairs order messages).1 ∧
      ∀ order', sanitizeToolPairs order' (sanitizeToolPairs order messages).1 =
        ((sanitizeToolPairs order messages).1, {}) := by
  rw [sanitizeToolPairs_eq]
  have hstub : ∀ (message : ContextMessage) id, message.event = .call id →
      message.stub.event = .reply id := fun _ _ => ContextMessage.event_stub
  obtain ⟨t, hrun, hall⟩ := run_fill_start hstub (run_retained messages)
  refine ⟨⟨.of_complete (.of_run hrun hall), ?_, ?_, ?_⟩, fun order' =>
    sanitizeToolPairs_complete order' hrun hall⟩
  · rw [filter_fill fun message _ _ => stub_not_plain message]
    exact retained_plain messages
  · rintro pre call post rfl hcall hfirst
    exact (sublist_fill _ _ _).subset (mem_retained_of_first hcall hfirst)
  · exact ⟨retained messages, keep_sublist _ _, fill_retained messages⟩

end Restored

end Hymenium
