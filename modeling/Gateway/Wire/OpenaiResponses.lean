import Gateway.Transducer
import Gateway.Wire.Common

/-! The Responses event stream: its decoder, and the encoder for a client,
which walks every output item through its whole life. -/
namespace Gateway.Wire.OpenaiResponses

open Json

def parseUsage : Option Value → Usage
  | none => {}
  | some v =>
      let input := v.get "input_tokens_details"
      { inputTokens := (optU32 v "input_tokens").getD 0
        outputTokens := (optU32 v "output_tokens").getD 0
        cacheReadTokens := (input.bind (optU32 · "cached_tokens")).getD 0
        cacheWriteTokens := (input.bind (optU32 · "cache_write_tokens")).getD 0
        reasoningTokens :=
          ((v.get "output_tokens_details").bind (optU32 · "reasoning_tokens")).getD 0 }

/-! ### Decoding -/

structure SseState where
  stopReason : Option StopReason := none
  deriving DecidableEq

def decodeValue (v : Value) (state : SseState) : List StreamEvent × SseState :=
  let delta := (optStr v "delta").getD []
  match optStr v "type" with
  | none => ([], state)
  | some kind =>
      if kind = "response.created".toList then
        ([.messageStart (((v.get "response").bind (optStr · "model")).getD [])], state)
      else if kind = "response.output_text.delta".toList then ([.textDelta delta], state)
      else if kind = "response.reasoning_text.delta".toList ∨
          kind = "response.reasoning_summary_text.delta".toList then
        ([.thinkingDelta delta], state)
      else if kind = "response.output_item.added".toList then
        let item := (v.get "item").getD .null
        if optStr item "type" = some "function_call".toList then
          ([.toolUseStart ((optStr item "call_id").getD []) ((optStr item "name").getD [])],
            { state with stopReason := some .toolUse })
        else ([], state)
      else if kind = "response.function_call_arguments.delta".toList then
        ([.toolUseDelta delta], state)
      else if kind = "response.completed".toList ∨ kind = "response.incomplete".toList then
        ((match ((v.get "response").bind (·.get "usage")).filter (fun u => !u.isNull) with
            | some u => [.usageDelta (parseUsage (some u))]
            | none => []) ++ [.done (state.stopReason.getD .endTurn)],
          { state with stopReason := none })
      else ([], state)

def decodeSse (line : Str) (state : SseState) : List StreamEvent × SseState :=
  match sseValue line with
  | none => ([], state)
  | some v => decodeValue v state

/-! ### Encoding -/

/-- The output item being streamed, with what it has accumulated. -/
inductive OpenItem where
  | message (id : Str) (index : Nat) (text : Str)
  | reasoning (id : Str) (index : Nat) (text : Str)
  | tool (id : Str) (index : Nat) (callId name args : Str)
  deriving DecidableEq

structure EmitState where
  model : Str := []
  seq : Nat := 0
  usage : Option Usage := none
  respId : Str := []
  promptCacheKey : Option Str := none
  promptCacheRetention : Option Str := none
  nextIndex : Nat := 0
  «open» : Option OpenItem := none
  doneItems : List Value := []
  /-- `response.completed` held back until usage arrives. -/
  pendingCompleted : Bool := false
  deriving DecidableEq

def EmitState.setPromptCache (state : EmitState) (key retention : Option Str) : EmitState :=
  { state with promptCacheKey := key, promptCacheRetention := retention }

/-- An event, numbered in the order of the stream. -/
def writeEvent (state : EmitState) (name : String) (data : List (String × Value)) :
    List Frame × EmitState :=
  ([.named name (obj (("type", .string name.toList) :: data ++
      [("sequence_number", .nat state.seq)]))],
    { state with seq := state.seq + 1 })

/-- Events in a row. -/
def writeEvents (state : EmitState) (events : List (String × List (String × Value))) :
    List Frame × EmitState :=
  Transducer.run (fun state (name, data) => writeEvent state name data) state events

@[simp] theorem writeEvent_open (s : EmitState) (name : String) (data : List (String × Value)) :
    (writeEvent s name data).2.open = s.open := rfl

@[simp] theorem writeEvent_nextIndex (s : EmitState) (name : String)
    (data : List (String × Value)) : (writeEvent s name data).2.nextIndex = s.nextIndex := rfl

@[simp] theorem writeEvents_open (s : EmitState) (events : List (String × List (String × Value))) :
    (writeEvents s events).2.open = s.open := by
  induction events generalizing s with
  | nil => rfl
  | cons e es ih => exact ih _

@[simp] theorem writeEvents_nextIndex (s : EmitState)
    (events : List (String × List (String × Value))) :
    (writeEvents s events).2.nextIndex = s.nextIndex := by
  induction events generalizing s with
  | nil => rfl
  | cons e es ih => exact ih _

@[simp] theorem writeEvents_usage (s : EmitState) (events : List (String × List (String × Value))) :
    (writeEvents s events).2.usage = s.usage := by
  induction events generalizing s with
  | nil => rfl
  | cons e es ih => exact ih _

def usageValue (u : Usage) : Value :=
  obj [("input_tokens", .nat u.inputTokens), ("output_tokens", .nat u.outputTokens),
    ("total_tokens", .nat ((u.inputTokens + u.outputTokens) % 2 ^ 32)),
    ("input_tokens_details", obj [("cached_tokens", .nat u.cacheReadTokens),
      ("cache_write_tokens", .nat u.cacheWriteTokens)]),
    ("output_tokens_details", obj [("reasoning_tokens", .nat u.reasoningTokens)])]

/-- The prompt-cache fields a response envelope echoes. -/
def cacheFields (key retention : Option Str) : List (String × Value) :=
  match key with
  | none => []
  | some key => [("prompt_cache_key", .string key),
      ("prompt_cache_retention", .string (retention.getD "24h".toList))]

def EmitState.responseObj (state : EmitState) (status : String) (output : List Value) : Value :=
  obj ([("id", .string state.respId), ("object", .string "response".toList),
    ("status", .string status.toList), ("model", .string state.model),
    ("output", .array output), ("usage", (state.usage.map usageValue).getD .null)] ++
    cacheFields state.promptCacheKey state.promptCacheRetention)

def writeCompleted (state : EmitState) : List Frame × EmitState :=
  writeEvent state "response.completed"
    [("response", state.responseObj "completed" state.doneItems)]

def EmitState.finish (state : EmitState) : List Frame × EmitState :=
  if state.pendingCompleted then writeCompleted { state with pendingCompleted := false }
  else ([], state)

@[simp] theorem finish_open (s : EmitState) : s.finish.2.open = s.open := by
  unfold EmitState.finish
  split_ifs <;> rfl

@[simp] theorem finish_nextIndex (s : EmitState) : s.finish.2.nextIndex = s.nextIndex := by
  unfold EmitState.finish
  split_ifs <;> rfl

/-- The item a closed message leaves. -/
def messageItem (id text : Str) : Value :=
  obj [("id", .string id), ("type", .string "message".toList),
    ("role", .string "assistant".toList), ("status", .string "completed".toList),
    ("content", .array [obj [("type", .string "output_text".toList), ("text", .string text),
      ("annotations", .array [])]])]

def reasoningItem (id text : Str) : Value :=
  obj [("id", .string id), ("type", .string "reasoning".toList), ("summary", .array []),
    ("status", .string "completed".toList),
    ("content", .array [obj [("type", .string "reasoning_text".toList), ("text", .string text)]])]

def functionCallItem (id callId name args : Str) : Value :=
  obj [("id", .string id), ("type", .string "function_call".toList), ("call_id", .string callId),
    ("name", .string name), ("arguments", .string args), ("status", .string "completed".toList)]

def OpenItem.index : OpenItem → Nat
  | .message _ index _ | .reasoning _ index _ | .tool _ index _ _ _ => index

def OpenItem.completed : OpenItem → Value
  | .message id _ text => messageItem id text
  | .reasoning id _ text => reasoningItem id text
  | .tool id _ callId name args => functionCallItem id callId name args

/-- The events that close an item, before the one that publishes it. -/
def OpenItem.closing : OpenItem → List (String × List (String × Value))
  | .message id index text =>
      [("response.output_text.done", [("item_id", .string id), ("output_index", .nat index),
          ("content_index", .nat 0), ("text", .string text), ("logprobs", .array [])]),
        ("response.content_part.done", [("item_id", .string id), ("output_index", .nat index),
          ("content_index", .nat 0), ("part", obj [("type", .string "output_text".toList),
            ("text", .string text), ("annotations", .array [])])])]
  | .reasoning id index text =>
      [("response.reasoning_text.done", [("item_id", .string id), ("output_index", .nat index),
          ("content_index", .nat 0), ("text", .string text)]),
        ("response.reasoning_part.done", [("item_id", .string id), ("output_index", .nat index),
          ("content_index", .nat 0), ("part", obj [("type", .string "reasoning_text".toList),
            ("text", .string text)])])]
  | .tool id index _ _ args =>
      [("response.function_call_arguments.done", [("item_id", .string id),
          ("output_index", .nat index), ("arguments", .string args)])]

/-- Close the open item and keep it for `response.completed`. -/
def closeOpen (state : EmitState) : List Frame × EmitState :=
  match state.open with
  | none => ([], state)
  | some item =>
      let (frames, state) := writeEvents { state with «open» := none }
        (item.closing ++ [("response.output_item.done",
          [("output_index", .nat item.index), ("item", item.completed)])])
      (frames, { state with doneItems := state.doneItems ++ [item.completed] })

@[simp] theorem closeOpen_open (s : EmitState) : (closeOpen s).2.open = none := by
  unfold closeOpen
  cases h : s.open with
  | none => exact h
  | some item => simp

@[simp] theorem closeOpen_nextIndex (s : EmitState) : (closeOpen s).2.nextIndex = s.nextIndex := by
  unfold closeOpen
  cases h : s.open with
  | none => rfl
  | some item => simp

@[simp] theorem closeOpen_usage (s : EmitState) : (closeOpen s).2.usage = s.usage := by
  unfold closeOpen
  cases h : s.open with
  | none => rfl
  | some item => simp

def itemId (lead : String) (index : Nat) : Str := lead.toList ++ digits index

/-- Open a message item, unless one is open. -/
def ensureMessage (state : EmitState) : List Frame × EmitState :=
  match state.open with
  | some (.message ..) => ([], state)
  | _ =>
      let (closed, state) := closeOpen state
      let index := state.nextIndex
      let id := itemId "msg_" index
      let (opened, state) := writeEvents { state with nextIndex := index + 1 }
        [("response.output_item.added", [("output_index", .nat index),
            ("item", obj [("id", .string id), ("type", .string "message".toList),
              ("role", .string "assistant".toList), ("content", .array []),
              ("status", .string "in_progress".toList)])]),
          ("response.content_part.added", [("item_id", .string id), ("output_index", .nat index),
            ("content_index", .nat 0), ("part", obj [("type", .string "output_text".toList),
              ("text", .string []), ("annotations", .array []), ("logprobs", .array [])])])]
      (closed ++ opened, { state with «open» := some (.message id index []) })

theorem ensureMessage_of_message {s : EmitState} {id text : Str} {index : Nat}
    (h : s.open = some (.message id index text)) : ensureMessage s = ([], s) := by
  simp [ensureMessage, h]

theorem ensureMessage_open_of_other {s : EmitState}
    (h : ∀ id index text, s.open ≠ some (.message id index text)) :
    (ensureMessage s).2.open = some (.message (itemId "msg_" s.nextIndex) s.nextIndex []) := by
  unfold ensureMessage
  split
  · rename_i id index text hOpen
    exact absurd hOpen (h id index text)
  · simp

/-- Open a reasoning item, unless one is open. -/
def ensureReasoning (state : EmitState) : List Frame × EmitState :=
  match state.open with
  | some (.reasoning ..) => ([], state)
  | _ =>
      let (closed, state) := closeOpen state
      let index := state.nextIndex
      let id := itemId "rs_" index
      let (opened, state) := writeEvents { state with nextIndex := index + 1 }
        [("response.output_item.added", [("output_index", .nat index),
            ("item", obj [("id", .string id), ("type", .string "reasoning".toList),
              ("summary", .array []), ("content", .null),
              ("status", .string "in_progress".toList)])]),
          ("response.reasoning_part.added", [("item_id", .string id),
            ("output_index", .nat index), ("content_index", .nat 0),
            ("part", obj [("type", .string "reasoning_text".toList), ("text", .string [])])])]
      (closed ++ opened, { state with «open» := some (.reasoning id index []) })

theorem ensureReasoning_of_reasoning {s : EmitState} {id text : Str} {index : Nat}
    (h : s.open = some (.reasoning id index text)) : ensureReasoning s = ([], s) := by
  simp [ensureReasoning, h]

theorem ensureReasoning_open_of_other {s : EmitState}
    (h : ∀ id index text, s.open ≠ some (.reasoning id index text)) :
    (ensureReasoning s).2.open = some (.reasoning (itemId "rs_" s.nextIndex) s.nextIndex []) := by
  unfold ensureReasoning
  split
  · rename_i id index text hOpen
    exact absurd hOpen (h id index text)
  · simp

def encodeEvent (state : EmitState) : StreamEvent → List Frame × EmitState
  | .messageStart model =>
      let state := { state with
        model, respId := if state.respId.isEmpty then "resp_stream".toList else state.respId }
      let resp := state.responseObj "in_progress" []
      writeEvents state [("response.created", [("response", resp)]),
        ("response.in_progress", [("response", resp)])]
  | .textDelta text =>
      let (ready, state) := ensureMessage state
      match state.open with
      | some (.message id index acc) =>
          let (frames, state) := writeEvent
            { state with «open» := some (.message id index (acc ++ text)) }
            "response.output_text.delta" [("item_id", .string id), ("output_index", .nat index),
              ("content_index", .nat 0), ("delta", .string text), ("logprobs", .array [])]
          (ready ++ frames, state)
      | _ => (ready, state)
  | .thinkingDelta text =>
      let (ready, state) := ensureReasoning state
      match state.open with
      | some (.reasoning id index acc) =>
          let (frames, state) := writeEvent
            { state with «open» := some (.reasoning id index (acc ++ text)) }
            "response.reasoning_text.delta" [("item_id", .string id),
              ("output_index", .nat index), ("content_index", .nat 0), ("delta", .string text)]
          (ready ++ frames, state)
      | _ => (ready, state)
  | .toolUseStart id name =>
      let (closed, state) := closeOpen state
      let index := state.nextIndex
      let item := itemId "fc_" index
      let (frames, state) := writeEvent { state with nextIndex := index + 1 }
        "response.output_item.added" [("output_index", .nat index),
          ("item", obj [("id", .string item), ("type", .string "function_call".toList),
            ("call_id", .string id), ("name", .string name), ("arguments", .string []),
            ("status", .string "in_progress".toList)])]
      (closed ++ frames, { state with «open» := some (.tool item index id name []) })
  | .toolUseDelta partialJson =>
      match state.open with
      | some (.tool id index callId name args) =>
          writeEvent { state with «open» := some (.tool id index callId name (args ++ partialJson)) }
            "response.function_call_arguments.delta" [("item_id", .string id),
              ("output_index", .nat index), ("delta", .string partialJson)]
      -- no call is open: the fragment is lost
      | _ => ([], state)
  | .usageDelta usage =>
      -- the report a held `response.completed` was waiting for releases it
      { state with usage := some ((state.usage.getD {}).merge usage) }.finish
  | .done _ =>
      let (closed, state) := closeOpen state
      match state.usage with
      | some _ =>
          let (frames, state) := writeCompleted state
          (closed ++ frames, state)
      | none => (closed, { state with pendingCompleted := true })

def encodeSse (events : List StreamEvent) (state : EmitState) : List Frame × EmitState :=
  Transducer.run encodeEvent state events

end Gateway.Wire.OpenaiResponses
