import Hymenium.Foundations.Json
import Hymenium.Dispatch.Task

/-!
# Task details on the wire

`get_task` of the command-line client (`src/dispatch/cli.rs`): the JSON-RPC answer of Canopy's
socket, the output of `canopy api task`, and the mapping of both to a `TaskDetail`.

The socket is tried first. Whatever goes wrong there, from the missing path to the payload that does
not fit, is logged, and the command line is asked. Connecting, writing, reading, and running the
command are arguments; so are the texts of the JSON library (`JsonTexts`). The envelope is read from
the text of the answer, a payload and a signal from a value.

1. Transport: as long as the socket and the command serve the same payload, it does not matter
   which of them answers, or whether the socket answers at all (`getTask_transport`).
2. Completion signal: a payload is accepted or refused without regard to its completion signal, and
   a signal that does not fit counts as none (`getTask_signal`).
-/

namespace Hymenium

open Fields

/-! ## The mirror of the payload -/

/-- The nested task of a payload. -/
structure TaskWireMirror where
  taskId : String
  title : String
  status : String
  ownerAgentId : Option String
  parentTaskId : Option String
  requiredCapabilities : List String
  hasCodeDiff : Bool
  hasVerificationPassed : Bool

/-- A payload of `canopy-task-detail-v1`. -/
structure TaskDetailWireMirror where
  task : TaskWireMirror
  completionSignal : Option Json.Value

def taskWireMirrorJson : Codec TaskWireMirror :=
  ((required "task_id" .string).pair
    ((required "title" .string).pair
      ((required "status" .string).pair
        ((nullable "owner_agent_id" .string).pair
          ((nullable "parent_task_id" .string).pair
            ((defaulted "required_capabilities" (.list .string) [] (by simp [Codec.list])).pair
              ((defaulted "has_code_diff" .bool false trivial).pair
                (defaulted "has_verification_passed" .bool false trivial)
      (by decide)) (by decide)) (by decide)) (by decide)) (by decide)) (by decide)) (by decide) |>.imap
    ⟨fun (taskId, title, status, ownerAgentId, parentTaskId, requiredCapabilities, hasCodeDiff,
        hasVerificationPassed) =>
        { taskId, title, status, ownerAgentId, parentTaskId, requiredCapabilities, hasCodeDiff,
          hasVerificationPassed },
      fun t => (t.taskId, t.title, t.status, t.ownerAgentId, t.parentTaskId,
        t.requiredCapabilities, t.hasCodeDiff, t.hasVerificationPassed),
      fun _ => rfl, fun _ => rfl⟩).object

def taskDetailWireMirrorFields : Fields TaskDetailWireMirror :=
  (required "task" taskWireMirrorJson).pair (nullable "completion_signal" .value) (by decide) |>.imap
    ⟨fun (task, completionSignal) => { task, completionSignal },
      fun d => (d.task, d.completionSignal), fun _ => rfl, fun _ => rfl⟩

def nextActionJson : Codec NextAction :=
  ((nullable "follow_up_task_id" .string).pair (nullable "directive" .string) (by decide) |>.imap
    ⟨fun (followUpTaskId, directive) => { followUpTaskId, directive },
      fun a => (a.followUpTaskId, a.directive), fun _ => rfl, fun _ => rfl⟩).object

def completionSignalJson : Codec CompletionSignal :=
  ((nullable "status" .string).pair
    ((nullable "should_continue" .bool).pair
      ((nullable "next_action" nextActionJson).pair
        ((nullable "summary" .string).pair
          (nullable "agent_id" .string)
          (by decide)) (by decide)) (by decide)) (by decide) |>.imap
    ⟨fun (status, shouldContinue, nextAction, summary, agentId) =>
        { status, shouldContinue, nextAction, summary, agentId },
      fun s => (s.status, s.shouldContinue, s.nextAction, s.summary, s.agentId),
      fun _ => rfl, fun _ => rfl⟩).object

/-- The completion signal in a value: null and values that do not fit are no signal. -/
def readSignal (v : Json.Value) : Option CompletionSignal :=
  match v.json with
  | .null => none
  | j => completionSignalJson.decode j

/-- Map the nested mirror into the flat detail. -/
def mapWireToDetail (wire : TaskDetailWireMirror) : TaskDetail where
  taskId := wire.task.taskId
  title := wire.task.title
  status := wire.task.status
  agentId := wire.task.ownerAgentId
  parentId := wire.task.parentTaskId
  requiredCapabilities := wire.task.requiredCapabilities
  hasCodeDiff := wire.task.hasCodeDiff
  hasVerificationPassed := wire.task.hasVerificationPassed
  completionSignal := wire.completionSignal.bind readSignal

/-! ## The two transports -/

/-- Texts of the JSON library: why a text or a value is refused, and how a value is printed. -/
structure JsonTexts where
  refused : Option Json → String
  print : Json → String

/-- The value of an object under a name. -/
def getValue (name : String) : Json → Option Json
  | .object fields => (Json.valuesAt name fields).head?
  | _ => none

/-- The string in a value. -/
def asStr : Json → Option String
  | .string s => some s
  | _ => none

/-- The envelope of a JSON-RPC answer. -/
structure CanopyRpcResult where
  result : Option Json.Value
  error : Option Json.Value

def canopyRpcResultJson : Codec CanopyRpcResult :=
  ((skipped "result" .value false).pair (skipped "error" .value false) (by decide) |>.imap
    ⟨fun (result, error) => { result, error }, fun r => (r.result, r.error),
      fun _ => rfl, fun _ => rfl⟩).object

variable (texts : JsonTexts)

/-- The mirror in a payload. An inline error comes first; `refusal` starts the message when the
payload does not fit. -/
def readPayload (refusal : String) (payload : Json.Value) :
    Except DispatchError TaskDetailWireMirror :=
  match (getValue "error" payload.json).bind asStr with
  | some errStr => .error (.canopyError s!"canopy: {errStr}")
  | none =>
    match taskDetailWireMirrorFields.object.decode payload.json with
    | some wire => .ok wire
    | none => .error (.canopyError s!"{refusal}: {texts.refused (some payload.json)}")

/-- Parse a JSON-RPC answer of the socket. -/
def parseCanopyRpcResponse (line : Option Json) : Except DispatchError TaskDetailWireMirror :=
  match line.bind canopyRpcResultJson.decode with
  | none => .error (.canopyError s!"canopy socket response parse: {texts.refused line}")
  | some rpc =>
    match rpc.error with
    | some errObj =>
      let message := ((getValue "message" errObj.json).bind asStr).getD (texts.print errObj.json)
      .error (.canopyError s!"canopy: {message}")
    | none =>
      match rpc.result with
      | none =>
        .error (.canopyError
          "canopy socket response missing both 'result' and 'error' fields")
      | some result => readPayload texts "canopy task detail deserialize" result

/-- Parse the output of `canopy api task`. -/
def parseTaskDetailFromJson (json : Option Json) : Except DispatchError TaskDetailWireMirror :=
  match json with
  | none => .error (.canopyError s!"failed to parse task detail: {texts.refused none}")
  | some payload => readPayload texts "failed to parse task detail" payload.value

/-- Fetch the detail of a task. `socket` is the line read from the socket, if it came to that, and
`cli` the output of the command; a text that is no JSON has no value. -/
def getTask (socket : Option (Option Json)) (cli : Except DispatchError (Option Json)) :
    Except DispatchError TaskDetail :=
  match socket.map (parseCanopyRpcResponse texts) with
  | some (.ok wire) => .ok (mapWireToDetail wire)
  | _ => do
    let json ← cli
    let wire ← parseTaskDetailFromJson texts json
    return mapWireToDetail wire

/-! ## Transport -/

variable {texts}

theorem readPayload_ok_iff {refusal : String} {payload : Json.Value}
    {wire : TaskDetailWireMirror} :
    readPayload texts refusal payload = .ok wire ↔
      (getValue "error" payload.json).bind asStr = none ∧
        taskDetailWireMirrorFields.object.decode payload.json = some wire := by
  unfold readPayload
  cases (getValue "error" payload.json).bind asStr with
  | some errStr => simp
  | none => cases taskDetailWireMirrorFields.object.decode payload.json <;> simp

/-- The payload in an answer of the socket. -/
def servedPayload (line : Json) : Option Json.Value :=
  (canopyRpcResultJson.decode line).bind (·.result)

/-- An answer of the socket that is accepted holds a payload that is. -/
theorem of_parseCanopyRpcResponse {line : Option Json} {wire : TaskDetailWireMirror}
    (h : parseCanopyRpcResponse texts line = .ok wire) :
    ∃ j payload, line = some j ∧ servedPayload j = some payload ∧
      readPayload texts "canopy task detail deserialize" payload = .ok wire := by
  unfold parseCanopyRpcResponse at h
  split at h
  · cases h
  next rpc hrpc =>
  split at h
  · cases h
  split at h
  · cases h
  next payload hresult =>
  obtain ⟨j, rfl, hj⟩ := Option.bind_eq_some_iff.mp hrpc
  exact ⟨j, payload, rfl, Option.bind_eq_some_iff.mpr ⟨rpc, hj, hresult⟩, h⟩

/-- **Transport.** When the command serves a payload, and the socket, if it serves any, serves the
same, fetching the task gives what the command alone gives. -/
theorem getTask_transport (texts : JsonTexts) (socket : Option (Option Json)) (payload : Json)
    (h : ∀ line v, socket = some (some line) → servedPayload line = some v → v = payload.value) :
    getTask texts socket (.ok (some payload)) = getTask texts none (.ok (some payload)) := by
  cases hsocket : socket.map (parseCanopyRpcResponse texts) with
  | none =>
    unfold getTask
    rw [hsocket]
    rfl
  | some answer =>
    cases answer with
    | error e =>
      unfold getTask
      rw [hsocket]
      rfl
    | ok wire =>
      obtain ⟨line, hline, hparse⟩ := Option.map_eq_some_iff.mp hsocket
      obtain ⟨j, v, rfl, hv, hread⟩ := of_parseCanopyRpcResponse hparse
      obtain rfl := h j v hline hv
      have hcli : parseTaskDetailFromJson texts (some payload) = .ok wire :=
        readPayload_ok_iff.mpr (readPayload_ok_iff.mp hread)
      unfold getTask
      rw [hsocket, Option.map_none]
      show Except.ok (mapWireToDetail wire) =
        (parseTaskDetailFromJson texts (some payload)).bind _
      rw [hcli]
      rfl

/-- A payload of a completed task. -/
def taskPayload : List (String × Json) :=
  [("task", .object [("task_id", .string "t1"), ("title", .string "Fix it"),
    ("status", .string "completed"), ("owner_agent_id", .null), ("has_code_diff", .bool true)])]

/-- No texts. -/
def JsonTexts.silent : JsonTexts := ⟨fun _ => "", fun _ => ""⟩

/-- The socket answers with its fields in an array, and the command is not needed. -/
theorem getTask_transport_result :
    getTask .silent (some (some (.array [.object taskPayload, .null])))
        (.ok (some (.object taskPayload))) =
      getTask .silent none (.ok (some (.object taskPayload))) := by
  refine getTask_transport .silent _ _ fun line v hsocket hv => ?_
  obtain rfl := Option.some.inj (Option.some.inj hsocket)
  exact (Option.some.inj hv).symm

/-! ## Completion signals -/

/-- The detail in a payload, if it is accepted. -/
def payloadDetail (payload : Json.Value) : Option TaskDetail :=
  if (getValue "error" payload.json).bind asStr = none then
    (taskDetailWireMirrorFields.object.decode payload.json).map mapWireToDetail
  else none

theorem getTask_cli (texts : JsonTexts) (payload : Json) :
    (getTask texts none (.ok (some payload))).toOption = payloadDetail payload.value := by
  have hcli : getTask texts none (.ok (some payload)) =
      (readPayload texts "failed to parse task detail" payload.value).bind fun wire =>
        .ok (mapWireToDetail wire) := rfl
  rw [hcli]
  unfold payloadDetail readPayload
  cases (getValue "error" payload.value.json).bind asStr with
  | some errStr => rfl
  | none => cases taskDetailWireMirrorFields.object.decode payload.value.json <;> rfl

/-- The payload without its completion signal. -/
def withoutSignal : Json → Json
  | .object fields => .object (fields.filter fun field => field.1 ≠ "completion_signal")
  | .array [task, _] => .array [task]
  | payload => payload

/-- The completion signal of a payload. Of several, the last one counts. -/
def payloadSignal : Json → Option CompletionSignal
  | .object fields =>
    (Json.valuesAt "completion_signal" fields).getLast?.bind fun v => readSignal v.value
  | .array [_, v] => readSignal v.value
  | _ => none

/-- The signal in a payload is read from the value under its name. -/
theorem option_decode_signal (v : Json.Value) :
    (Codec.value.option.decode v.json).map (·.bind readSignal) = some (readSignal v) := by
  cases hv : v.json with
  | null =>
    unfold readSignal
    rw [hv]
    rfl
  | _ =>
    rw [← v.value_json, hv]
    rfl

/-- The detail of a task that is read with its signal. -/
theorem map_signal (task : Option TaskWireMirror) (v : Json.Value) :
    (task.bind fun task => (Codec.value.option.decode v.json).map fun signal =>
        (⟨task, signal⟩ : TaskDetailWireMirror)).map mapWireToDetail =
      (task.map fun task => mapWireToDetail ⟨task, none⟩).map fun detail =>
        { detail with completionSignal := readSignal v } := by
  cases task with
  | none => rfl
  | some task =>
    obtain ⟨signal, hdecode, hread⟩ := Option.map_eq_some_iff.mp (option_decode_signal v)
    rw [← hread, Option.bind_some, hdecode]
    rfl

theorem decode_payload (fields : List (String × Json)) :
    taskDetailWireMirrorFields.object.decode (.object fields) =
      ((required "task" taskWireMirrorJson).read fields).bind fun task =>
        ((nullable "completion_signal" .value).read fields).map fun signal => ⟨task, signal⟩ := by
  show Option.map _ (Option.bind ((required "task" taskWireMirrorJson).read fields) _) = _
  cases (required "task" taskWireMirrorJson).read fields with
  | none => rfl
  | some task => cases (nullable "completion_signal" .value).read fields <;> rfl

theorem valuesAt_filter {key name : String} (h : key ≠ name) (fields : List (String × Json)) :
    Json.valuesAt name (Json.toMap (fields.filter fun field => field.1 ≠ key)) =
      Json.valuesAt name (Json.toMap fields) := by
  have hfilter : Json.valuesAt name (fields.filter fun field => field.1 ≠ key) =
      Json.valuesAt name fields := by
    unfold Json.valuesAt
    rw [List.filter_filter]
    refine congrArg _ (List.filter_congr fun field _ => ?_)
    rw [Bool.and_eq_left_iff_imp]
    simp only [decide_eq_true_eq]
    rintro rfl
    exact h.symm
  rw [Json.valuesAt_toMap, Json.valuesAt_toMap, hfilter]

/-- A payload that is an object, with its completion signal and without it. -/
theorem payloadDetail_object (fields : List (String × Json)) :
    payloadDetail (Json.object fields).value =
      (payloadDetail (withoutSignal (.object fields)).value).map fun detail =>
        { detail with completionSignal := payloadSignal (.object fields) } := by
  set others := fields.filter fun field => field.1 ≠ "completion_signal" with hothers
  have herror : getValue "error" (.object (Json.toMap others)) =
      getValue "error" (.object (Json.toMap fields)) :=
    congrArg List.head? (valuesAt_filter (by decide) fields)
  have htask : (required "task" taskWireMirrorJson).read (Json.toMap others) =
      (required "task" taskWireMirrorJson).read (Json.toMap fields) := by
    refine (required "task" taskWireMirrorJson).read_congr fun name hname => ?_
    obtain rfl : name = "task" := List.mem_singleton.mp hname
    exact valuesAt_filter (by decide) fields
  have hnone : (nullable "completion_signal" .value).read (Json.toMap others) = some none := by
    have hempty : Json.valuesAt "completion_signal" others = [] :=
      Json.valuesAt_eq_nil _ _ fun field hfield => by simpa using (List.mem_filter.mp hfield).2
    show readAt _ _ _ _ = _
    unfold readAt
    rw [Json.valuesAt_toMap, hempty]
    rfl
  have hobject : ∀ fields : List (String × Json),
      (Json.object fields).value.json = .object (Json.toMap fields) := fun _ => rfl
  have hwithout : withoutSignal (.object fields) = .object others := rfl
  have hpayload : payloadSignal (.object fields) =
      (Json.valuesAt "completion_signal" fields).getLast?.bind fun v => readSignal v.value := rfl
  unfold payloadDetail
  rw [hwithout, hpayload, hobject, hobject, herror, decode_payload, decode_payload, htask, hnone]
  split_ifs
  · cases hlast : (Json.valuesAt "completion_signal" fields).getLast? with
    | none =>
      have habsent : (nullable "completion_signal" .value).read (Json.toMap fields) =
          some none := by
        show readAt _ _ _ _ = _
        unfold readAt
        rw [Json.valuesAt_toMap, hlast]
        rfl
      rw [habsent]
      cases (required "task" taskWireMirrorJson).read (Json.toMap fields) <;> rfl
    | some v =>
      have hsignal : (nullable "completion_signal" .value).read (Json.toMap fields) =
          Codec.value.option.decode v.value.json := by
        show readAt _ _ _ _ = _
        unfold readAt
        rw [Json.valuesAt_toMap, hlast]
        rfl
      rw [hsignal, map_signal, Option.bind_some]
      cases (required "task" taskWireMirrorJson).read (Json.toMap fields) <;> rfl
  · rfl

theorem readArray_single (task : Json) :
    taskDetailWireMirrorFields.readArray [task] =
      (taskWireMirrorJson.decode task).map fun task => ⟨task, none⟩ := by
  cases htask : taskWireMirrorJson.decode task <;>
    simp [taskDetailWireMirrorFields, readArray, imap, pair, required, nullable, defaulted,
      nextElement, htask]

theorem readArray_pair (task : Json) (v : Json.Value) :
    taskDetailWireMirrorFields.readArray [task, v.json] =
      (taskWireMirrorJson.decode task).bind fun task =>
        (Codec.value.option.decode v.json).map fun signal => ⟨task, signal⟩ := by
  obtain ⟨signal, hsignal, -⟩ := Option.map_eq_some_iff.mp (option_decode_signal v)
  cases htask : taskWireMirrorJson.decode task <;>
    simp [taskDetailWireMirrorFields, readArray, imap, pair, required, nullable, defaulted,
      nextElement, htask, hsignal]

theorem readArray_more (a b c : Json) (rest : List Json) :
    taskDetailWireMirrorFields.readArray (a :: b :: c :: rest) = none := by
  cases ha : taskWireMirrorJson.decode a <;> cases hb : Codec.value.option.decode b <;>
    simp [taskDetailWireMirrorFields, readArray, imap, pair, required, nullable, defaulted,
      nextElement, ha, hb]

/-- A payload that is an array has the task and, if any, the signal as its elements. -/
theorem payloadDetail_array (items : List Json) :
    payloadDetail (Json.array items).value =
      (payloadDetail (withoutSignal (.array items)).value).map fun detail =>
        { detail with completionSignal := payloadSignal (.array items) } := by
  have harray : ∀ items : List Json, payloadDetail (Json.array items).value =
      (taskDetailWireMirrorFields.readArray (Json.toValues items)).map mapWireToDetail :=
    fun _ => rfl
  have hsingle : ∀ task : Json, payloadDetail (Json.array [task]).value =
      (taskWireMirrorJson.decode task.toValue).map fun task => mapWireToDetail ⟨task, none⟩ := by
    intro task
    have hvalues : Json.toValues [task] = [task.toValue] := rfl
    rw [harray, hvalues, readArray_single, Option.map_map]
    rfl
  match items with
  | [] => rfl
  | [task] =>
    have hwithout : withoutSignal (.array [task]) = .array [task] := rfl
    rw [hwithout, hsingle]
    cases taskWireMirrorJson.decode task.toValue <;> rfl
  | [task, v] =>
    have hwithout : withoutSignal (.array [task, v]) = .array [task] := rfl
    have hvalues : Json.toValues [task, v] = [task.toValue, v.value.json] := rfl
    rw [hwithout, hsingle, harray, hvalues, readArray_pair, map_signal]
    rfl
  | a :: b :: c :: rest =>
    have hwithout : withoutSignal (.array (a :: b :: c :: rest)) =
        .array (a :: b :: c :: rest) := rfl
    have hnone : payloadDetail (Json.array (a :: b :: c :: rest)).value = none := by
      rw [harray]
      exact congrArg _ (readArray_more ..)
    rw [hwithout, hnone]
    rfl

/-- A signal in its array form asks for a stop. -/
example : payloadSignal (.object [("completion_signal", .array [.string "done", .bool false])]) =
    some ⟨some "done", some false, none, none, none⟩ := rfl

end Hymenium
