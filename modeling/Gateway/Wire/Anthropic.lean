import Gateway.Transducer
import Gateway.Wire.Common

/-! The Messages event stream: its decoder, and the encoder for a client. -/
namespace Gateway.Wire.Anthropic

open Json

def parseStopReason : Option Str → StopReason
  | none => .endTurn
  | some s =>
      if s = "end_turn".toList then .endTurn
      else if s = "max_tokens".toList then .maxTokens
      else if s = "stop_sequence".toList then .stopSequence
      else if s = "tool_use".toList then .toolUse
      else .other s

def stopReasonStr : StopReason → Str := StopReason.asStr

def parseUsage : Option Value → Usage
  | none => {}
  | some v =>
      { inputTokens := (optU32 v "input_tokens").getD 0
        outputTokens := (optU32 v "output_tokens").getD 0
        cacheReadTokens := (optU32 v "cache_read_input_tokens").getD 0
        cacheWriteTokens := (optU32 v "cache_creation_input_tokens").getD 0 }

/-! ### Decoding -/

/-- The stop reason of `message_delta`, waiting for `message_stop`. -/
structure SseState where
  stopReason : Option StopReason := none
  deriving DecidableEq

/-- What a `content_block_delta` delivers. Other kinds of delta, a signature
among them, deliver nothing. -/
def decodeDelta (delta : Value) : List StreamEvent :=
  match optStr delta "type" with
  | none => []
  | some kind =>
      if kind = "text_delta".toList then [.textDelta ((optStr delta "text").getD [])]
      else if kind = "thinking_delta".toList then
        [.thinkingDelta ((optStr delta "thinking").getD [])]
      else if kind = "input_json_delta".toList then
        [.toolUseDelta ((optStr delta "partial_json").getD [])]
      else []

/-- Only a call announces itself when its block starts. -/
def decodeBlockStart (block : Value) : List StreamEvent :=
  if optStr block "type" = some "tool_use".toList then
    [.toolUseStart ((optStr block "id").getD []) ((optStr block "name").getD [])]
  else []

def decodeValue (v : Value) (state : SseState) : List StreamEvent × SseState :=
  match optStr v "type" with
  | none => ([], state)
  | some kind =>
      if kind = "message_start".toList then
        let msg := (v.get "message").getD .null
        (.messageStart ((optStr msg "model").getD []) ::
          (match (msg.get "usage").filter (fun u => !u.isNull) with
            | some u => [.usageDelta (parseUsage (some u))]
            | none => []), state)
      else if kind = "content_block_start".toList then
        (decodeBlockStart ((v.get "content_block").getD .null), state)
      else if kind = "content_block_delta".toList then
        (decodeDelta ((v.get "delta").getD .null), state)
      else if kind = "message_delta".toList then
        let delta := (v.get "delta").getD .null
        (((v.get "usage").map fun u => [StreamEvent.usageDelta (parseUsage (some u))]).getD [],
          { state with stopReason := some (parseStopReason (optStr delta "stop_reason")) })
      else if kind = "message_stop".toList then
        ([.done (state.stopReason.getD .endTurn)], { state with stopReason := none })
      else ([], state)

def decodeSse (line : Str) (state : SseState) : List StreamEvent × SseState :=
  match sseValue line with
  | none => ([], state)
  | some v => decodeValue v state

/-! ### Encoding -/

inductive BlockKind where
  | text
  | thinking
  | tool
  deriving DecidableEq

structure EmitState where
  started : Bool := false
  model : Str := []
  nextIndex : Nat := 0
  «open» : Option BlockKind := none
  usage : Usage := {}
  deriving DecidableEq

def emitMessageStart (state : EmitState) : List Frame × EmitState :=
  ([.named "message_start" (obj [("type", .string "message_start".toList), ("message", obj [
      ("id", .string "msg_stream".toList),
      ("type", .string "message".toList),
      ("role", .string "assistant".toList),
      ("model", .string state.model),
      ("content", .array []),
      ("stop_reason", .null),
      ("stop_sequence", .null),
      ("usage", obj [("input_tokens", .nat 0), ("output_tokens", .nat 0)])])])],
    { state with started := true })

def ensureStarted (state : EmitState) : List Frame × EmitState :=
  if state.started then ([], state) else emitMessageStart state

def closeOpen (state : EmitState) : List Frame × EmitState :=
  match state.open with
  | none => ([], state)
  | some _ =>
      ([.named "content_block_stop" (obj [("type", .string "content_block_stop".toList),
          ("index", .nat state.nextIndex)])],
        { state with «open» := none, nextIndex := state.nextIndex + 1 })

/-- The block a delta of a kind needs, as it stands when no event announced
it. -/
def BlockKind.opening : BlockKind → Value
  | .text => obj [("type", .string "text".toList), ("text", .string [])]
  | .thinking => obj [("type", .string "thinking".toList), ("thinking", .string [])]
  | .tool => obj [("type", .string "tool_use".toList), ("id", .string []), ("name", .string []),
      ("input", obj [])]

def blockStart (index : Nat) (block : Value) : Frame :=
  .named "content_block_start" (obj [("type", .string "content_block_start".toList),
    ("index", .nat index), ("content_block", block)])

/-- Open a block of the kind, unless one of that kind is open. -/
def ensureBlock (state : EmitState) (kind : BlockKind) : List Frame × EmitState :=
  let (started, state) := ensureStarted state
  if state.open = some kind then (started, state)
  else
    let (closed, state) := closeOpen state
    (started ++ closed ++ [blockStart state.nextIndex kind.opening],
      { state with «open» := some kind })

def deltaFrame (index : Nat) (delta : Value) : Frame :=
  .named "content_block_delta" (obj [("type", .string "content_block_delta".toList),
    ("index", .nat index), ("delta", delta)])

/-- A delta inside a block of its kind. -/
def writeDelta (state : EmitState) (kind : BlockKind) (delta : Value) :
    List Frame × EmitState :=
  let (ready, state) := ensureBlock state kind
  (ready ++ [deltaFrame state.nextIndex delta], state)

def encodeEvent (state : EmitState) : StreamEvent → List Frame × EmitState
  | .messageStart model => emitMessageStart { state with model }
  | .textDelta text =>
      writeDelta state .text (obj [("type", .string "text_delta".toList), ("text", .string text)])
  | .thinkingDelta text =>
      writeDelta state .thinking
        (obj [("type", .string "thinking_delta".toList), ("thinking", .string text)])
  | .toolUseStart id name =>
      let (started, state) := ensureStarted state
      let (closed, state) := closeOpen state
      (started ++ closed ++ [blockStart state.nextIndex (obj [("type", .string "tool_use".toList),
          ("id", .string id), ("name", .string name), ("input", obj [])])],
        { state with «open» := some .tool })
  | .toolUseDelta partialJson =>
      writeDelta state .tool
        (obj [("type", .string "input_json_delta".toList), ("partial_json", .string partialJson)])
  | .usageDelta usage => ([], { state with usage := state.usage.merge usage })
  | .done stopReason =>
      let (started, state) := ensureStarted state
      let (closed, state) := closeOpen state
      (started ++ closed ++ [
        .named "message_delta" (obj [("type", .string "message_delta".toList),
          ("delta", obj [("stop_reason", .string (stopReasonStr stopReason)),
            ("stop_sequence", .null)]),
          ("usage", obj [("output_tokens", .nat state.usage.outputTokens)])]),
        .named "message_stop" (obj [("type", .string "message_stop".toList)])], state)

def encodeSse (events : List StreamEvent) (state : EmitState) : List Frame × EmitState :=
  Transducer.run encodeEvent state events

end Gateway.Wire.Anthropic
