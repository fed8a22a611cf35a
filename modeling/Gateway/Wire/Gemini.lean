import Gateway.Transducer
import Gateway.Wire.Common

/-! The Gemini event stream: its decoder, and the encoder for a client. -/
namespace Gateway.Wire.Gemini

open Json

def parseUsage : Option Value → Usage
  | none => {}
  | some v =>
      { inputTokens := (optU32 v "promptTokenCount").getD 0
        outputTokens := (optU32 v "candidatesTokenCount").getD 0
        cacheReadTokens := (optU32 v "cachedContentTokenCount").getD 0 }

/-- ASCII letters in lower case. -/
def toAsciiLowercase (s : Str) : Str :=
  s.map fun c => if 'A' ≤ c ∧ c ≤ 'Z' then Char.ofNat (c.toNat + 32) else c

def geminiFinishToStop (s : Option Str) (hasTool : Bool) : StopReason :=
  match s with
  | none => if hasTool then .toolUse else .endTurn
  | some s =>
      if s = "STOP".toList then if hasTool then .toolUse else .endTurn
      else if s = "MAX_TOKENS".toList then .maxTokens
      else .other (toAsciiLowercase s)

def stopToGeminiFinish : StopReason → Str
  | .maxTokens => "MAX_TOKENS".toList
  | _ => "STOP".toList

/-! ### Decoding -/

structure SseState where
  started : Bool := false
  toolOpen : Bool := false
  deriving DecidableEq

/-- A part of the answer: text, or a whole call at once. -/
def decodePart (toolOpen : Bool) (p : Value) : List StreamEvent × Bool :=
  match optStr p "text" with
  | some text => ([.textDelta text], toolOpen)
  | none =>
      match (p.get "functionCall").or (p.get "function_call") with
      | some fc =>
          let name := (optStr fc "name").getD []
          ([.toolUseStart name name, .toolUseDelta ((fc.get "args").getD (obj [])).render], true)
      | none => ([], toolOpen)

/-- Usage is read only from the line that carries the finish reason. -/
def decodeValue (v : Value) (state : SseState) : List StreamEvent × SseState :=
  let start : List StreamEvent :=
    if state.started then [] else [.messageStart ((optStr v "modelVersion").getD [])]
  match (optArr v "candidates").bind List.head? with
  | none => (start, { state with started := true })
  | some candidate =>
      let parts := (((candidate.get "content").bind (·.get "parts")).bind Value.asArray).getD []
      let (content, toolOpen) := Transducer.run decodePart state.toolOpen parts
      let closing := match optStr candidate "finishReason" with
        | none => []
        | some reason =>
            (match (v.get "usageMetadata").filter (fun u => !u.isNull) with
              | some u => [StreamEvent.usageDelta (parseUsage (some u))]
              | none => []) ++ [.done (geminiFinishToStop (some reason) toolOpen)]
      (start ++ content ++ closing, { started := true, toolOpen })

def decodeSse (line : Str) (state : SseState) : List StreamEvent × SseState :=
  match sseValue line with
  | none => ([], state)
  | some v => decodeValue v state

/-! ### Encoding -/

structure EmitState where
  model : Str := []
  usage : Option Usage := none
  /-- A call waits here until its arguments are complete. -/
  pendingTool : Option (Str × Str) := none
  deriving DecidableEq

def candidate (parts : List Value) (more : List (String × Value)) : Value :=
  obj ([("content", obj [("role", .string "model".toList), ("parts", .array parts)])] ++ more ++
    [("index", .nat 0)])

/-- A chunk of the answer. -/
def partsChunk (model : Str) (parts : List Value) : Frame :=
  .data (obj [("candidates", .array [candidate parts []]), ("modelVersion", .string model)])

def EmitState.flushTool (state : EmitState) : List Frame × EmitState :=
  match state.pendingTool with
  | none => ([], state)
  | some (name, args) =>
      ([partsChunk state.model [obj [("functionCall", obj [("name", .string name),
          ("args", (fromStr args).getD (obj []))])]]],
        { state with pendingTool := none })

def encodeEvent (state : EmitState) : StreamEvent → List Frame × EmitState
  | .messageStart model => ([], { state with model })
  | .textDelta text => ([partsChunk state.model [obj [("text", .string text)]]], state)
  | .thinkingDelta _ => ([], state)
  | .toolUseStart _ name =>
      let (flushed, state) := state.flushTool
      (flushed, { state with pendingTool := some (name, []) })
  | .toolUseDelta partialJson =>
      ([], { state with
        pendingTool := state.pendingTool.map fun (name, args) => (name, args ++ partialJson) })
  | .usageDelta usage =>
      ([], { state with usage := some ((state.usage.getD {}).merge usage) })
  | .done stopReason =>
      let (flushed, state) := state.flushTool
      let u := state.usage.getD {}
      (flushed ++ [.data (obj [
          ("candidates", .array [candidate []
            [("finishReason", .string (stopToGeminiFinish stopReason))]]),
          ("usageMetadata", obj [("promptTokenCount", .nat u.inputTokens),
            ("candidatesTokenCount", .nat u.outputTokens),
            ("totalTokenCount", .nat ((u.inputTokens + u.outputTokens) % 2 ^ 32))]),
          ("modelVersion", .string state.model)])], state)

def encodeSse (events : List StreamEvent) (state : EmitState) : List Frame × EmitState :=
  Transducer.run encodeEvent state events

end Gateway.Wire.Gemini
