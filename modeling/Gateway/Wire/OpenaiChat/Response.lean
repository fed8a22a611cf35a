import Gateway.Wire.OpenaiChat.Request

/-! The Chat Completions response body, read into the intermediate
representation and written from it. Of its choices, the first is read. -/
namespace Gateway.Wire.OpenaiChat

open Json

/-- Arguments that are no document are kept as a string. -/
def parseArguments : Option Str → Value
  | some s => if s.isEmpty then obj [] else (fromStr s).getD (.string s)
  | none => obj []

def parseCall (c : Value) : ContentBlock :=
  let f := (c.get "function").getD .null
  .toolUse ((optStr c "id").getD []) ((optStr f "name").getD [])
    (parseArguments (optStr f "arguments"))

def messageBlocks (message : Value) : List ContentBlock :=
  (nonEmpty (optStr message "content")).map .text ++
    ((optArr message "tool_calls").getD []).map parseCall

def responseOf (v choice : Value) : ChatResponse where
  id := (optStr v "id").getD []
  model := (optStr v "model").getD []
  content := messageBlocks ((choice.get "message").getD .null)
  stopReason := finishToStop (optStr choice "finish_reason")
  usage := parseUsage (v.get "usage") (v.get "timings")

def parseResponse (bytes : List UInt8) : Except WireError ChatResponse :=
  match fromSlice bytes with
  | none => .error .json
  | some v =>
      match firstChoice v with
      | none => .error (.invalidResponse "no choices".toList)
      | some choice => .ok (responseOf v choice)

def emitResponse (resp : ChatResponse) : Value :=
  let text := joinText resp.content
  let reasoning := thinkingText resp.content
  let calls := toolCalls resp.content
  let message := obj ([("role", .string "assistant".toList),
    ("content", if text.isEmpty ∧ ¬ calls.isEmpty then .null else .string text)] ++
    (if calls.isEmpty then [] else [("tool_calls", .array calls)]) ++
    (if reasoning.isEmpty then [] else [("reasoning_content", .string reasoning)]))
  obj [("id", .string resp.id), ("object", .string "chat.completion".toList), ("created", .nat 0),
    ("model", .string resp.model),
    ("choices", .array [obj [("index", .nat 0), ("message", message),
      ("finish_reason", .string (stopToFinish resp.stopReason))]]),
    ("usage", emitUsage resp.usage)]

end Gateway.Wire.OpenaiChat
