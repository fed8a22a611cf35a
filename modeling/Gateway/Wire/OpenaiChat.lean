import Gateway.Transducer
import Gateway.Wire.Common

/-! The Chat Completions event stream: its decoder, and the encoder for a
client. -/
namespace Gateway.Wire.OpenaiChat

open Json

def finishToStop : Option Str → StopReason
  | none => .endTurn
  | some s =>
      if s = "stop".toList then .endTurn
      else if s = "length".toList then .maxTokens
      else if s = "tool_calls".toList ∨ s = "function_call".toList then .toolUse
      else .other s

def stopToFinish : StopReason → Str
  | .endTurn | .stopSequence => "stop".toList
  | .maxTokens => "length".toList
  | .toolUse => "tool_calls".toList
  | .other s => s

/-- An engine's own time, in whole milliseconds. -/
def milliseconds (timings : Option Value) (key : String) : Nat :=
  match (timings.bind (·.get key)).bind Value.asF64 with
  | some ms => if 0 < ms then min (ms + 1 / 2).floor.toNat (2 ^ 32 - 1) else 0
  | none => 0

def parseUsage (v timings : Option Value) : Usage :=
  match v with
  | none =>
      { promptMs := milliseconds timings "prompt_ms"
        generationMs := milliseconds timings "predicted_ms" }
  | some v =>
      let prompt := v.get "prompt_tokens_details"
      { inputTokens := (optU32 v "prompt_tokens").getD 0
        outputTokens := (optU32 v "completion_tokens").getD 0
        cacheReadTokens := (prompt.bind (optU32 · "cached_tokens")).getD 0
        cacheWriteTokens := (prompt.bind (optU32 · "cache_write_tokens")).getD 0
        reasoningTokens :=
          ((v.get "completion_tokens_details").bind (optU32 · "reasoning_tokens")).getD 0
        promptMs := milliseconds timings "prompt_ms"
        generationMs := milliseconds timings "predicted_ms" }

def emitUsage (u : Usage) : Value :=
  obj ([("prompt_tokens", .nat u.inputTokens),
    ("completion_tokens", .nat u.outputTokens),
    ("total_tokens", .nat ((u.inputTokens + u.outputTokens) % 2 ^ 32))] ++
    (if 0 < u.cacheReadTokens ∨ 0 < u.cacheWriteTokens then
      [("prompt_tokens_details", obj [("cached_tokens", .nat u.cacheReadTokens),
        ("cache_write_tokens", .nat u.cacheWriteTokens)])] else []) ++
    (if 0 < u.reasoningTokens then
      [("completion_tokens_details", obj [("reasoning_tokens", .nat u.reasoningTokens)])]
      else []))

/-! ### Decoding -/

structure SseState where
  started : Bool := false
  deriving DecidableEq

/-- A string field that has text. -/
def nonEmpty : Option Str → List Str
  | none | some [] => []
  | some s => [s]

/-- One entry of `tool_calls`: a call when it has an id, then a fragment when
it has arguments. Its `index` is not read. -/
def decodeCall (c : Value) : List StreamEvent :=
  let f := (c.get "function").getD .null
  (nonEmpty (optStr c "id")).map (fun id => .toolUseStart id ((optStr f "name").getD [])) ++
    (nonEmpty (optStr f "arguments")).map .toolUseDelta

/-- The content of the first choice's `delta`. -/
def decodeDelta (delta : Value) : List StreamEvent :=
  (nonEmpty (optStr delta "reasoning_content")).map .thinkingDelta ++
    (nonEmpty (optStr delta "content")).map .textDelta ++
    ((optArr delta "tool_calls").getD []).flatMap decodeCall

def firstChoice (v : Value) : Option Value := (optArr v "choices").bind List.head?

def startEvents (v : Value) (state : SseState) : List StreamEvent :=
  if state.started then [] else [.messageStart ((optStr v "model").getD [])]

def contentEvents (v : Value) : List StreamEvent :=
  match firstChoice v with
  | some choice => decodeDelta ((choice.get "delta").getD .null)
  | none => []

def usageEvents (v : Value) : List StreamEvent :=
  match v.get "usage" with
  | some u => if u.isNull then [] else [.usageDelta (parseUsage (some u) (v.get "timings"))]
  | none => []

def doneEvents (v : Value) : List StreamEvent :=
  match (firstChoice v).bind (optStr · "finish_reason") with
  | some reason => [.done (finishToStop (some reason))]
  | none => []

/-- Usage precedes the end, so that a re-encoder can fold it into its terminal
event. -/
def decodeValue (v : Value) (state : SseState) : List StreamEvent × SseState :=
  (startEvents v state ++ contentEvents v ++ usageEvents v ++ doneEvents v, { started := true })

def decodeSse (line : Str) (state : SseState) : List StreamEvent × SseState :=
  match sseData line with
  | none => ([], state)
  | some data =>
      if data = "[DONE]".toList then ([], state)
      else match fromStr data with
        | none => ([], state)
        | some v => decodeValue v state

/-! ### Encoding -/

structure EmitState where
  started : Bool := false
  model : Str := []
  toolIndex : Int := -1
  usage : Option Usage := none
  includeUsage : Bool := false
  /-- `[DONE]` held back until the trailing usage chunk arrives. -/
  pendingDone : Bool := false
  deriving DecidableEq

def EmitState.setIncludeUsage (state : EmitState) (on : Bool) : EmitState :=
  { state with includeUsage := on }

/-- An index as a number of the stream. -/
def indexValue (i : Int) : Value :=
  if 0 ≤ i then .number (.posInt i.toNat) else .number (.negInt (-i).toNat)

/-- The chunk around a list of choices. -/
def envelope (model : Str) (choices : List Value) (more : List (String × Value)) : Value :=
  obj ([("id", .string "chatcmpl_stream".toList),
    ("object", .string "chat.completion.chunk".toList),
    ("created", .nat 0),
    ("model", .string model),
    ("choices", .array choices)] ++ more)

def writeUsageChunk (state : EmitState) (u : Usage) : Frame :=
  .data (envelope state.model [] [("usage", emitUsage u)])

def writeChunk (state : EmitState) (delta : Value) (finishReason : Option Str) : Frame :=
  .data (envelope state.model [obj [("index", .nat 0), ("delta", delta),
    ("finish_reason", (finishReason.map Value.string).getD .null)]] [])

def ensureStarted (state : EmitState) : List Frame × EmitState :=
  if state.started then ([], state)
  else
    let state := { state with started := true }
    ([writeChunk state (obj [("role", .string "assistant".toList)]) none], state)

/-- A chunk with one delta, after the opening one. -/
def writeDelta (state : EmitState) (delta : Value) : List Frame × EmitState :=
  let (opening, state) := ensureStarted state
  (opening ++ [writeChunk state delta none], state)

/-- The usage chunk when there is a report. -/
def usageFrames (state : EmitState) : List Frame :=
  match state.usage with
  | some u => [writeUsageChunk state u]
  | none => []

/-- The terminal frames still owed when the upstream ends. -/
def EmitState.finish (state : EmitState) : List Frame × EmitState :=
  if state.pendingDone then
    let state := { state with pendingDone := false }
    (usageFrames state ++ [.sentinel], state)
  else ([], state)

def encodeEvent (state : EmitState) : StreamEvent → List Frame × EmitState
  | .messageStart model =>
      let state := { state with model, started := true }
      ([writeChunk state (obj [("role", .string "assistant".toList)]) none], state)
  | .textDelta text => writeDelta state (obj [("content", .string text)])
  | .thinkingDelta text => writeDelta state (obj [("reasoning_content", .string text)])
  | .toolUseStart id name =>
      let (opening, state) := ensureStarted state
      let state := { state with toolIndex := state.toolIndex + 1 }
      (opening ++ [writeChunk state (obj [("tool_calls", .array [obj [
          ("index", indexValue state.toolIndex),
          ("id", .string id),
          ("type", .string "function".toList),
          ("function", obj [("name", .string name), ("arguments", .string [])])]])]) none],
        state)
  | .toolUseDelta partialJson =>
      writeDelta state (obj [("tool_calls", .array [obj [
        ("index", indexValue (max state.toolIndex 0)),
        ("function", obj [("arguments", .string partialJson)])]])])
  | .usageDelta usage =>
      -- the report a held `[DONE]` was waiting for goes out with it
      { state with usage := some ((state.usage.getD {}).merge usage) }.finish
  | .done stopReason =>
      let (opening, state) := ensureStarted state
      let closing := opening ++ [writeChunk state (obj []) (some (stopToFinish stopReason))]
      match state.includeUsage, state.usage with
      | true, some u => (closing ++ [writeUsageChunk state u, .sentinel], state)
      | true, none => (closing, { state with pendingDone := true })
      | false, _ => (closing ++ [.sentinel], state)

def encodeSse (events : List StreamEvent) (state : EmitState) : List Frame × EmitState :=
  Transducer.run encodeEvent state events

end Gateway.Wire.OpenaiChat
