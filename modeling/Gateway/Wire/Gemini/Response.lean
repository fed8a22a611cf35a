import Gateway.Wire.Gemini.Request

/-! The Gemini response body, read into the intermediate representation and
written from it. A call has no id, and is given its function's name as one. -/
namespace Gateway.Wire.Gemini

open Json

def inlineData (p : Value) : Option Value := (p.get "inline_data").or (p.get "inlineData")

def functionCall (p : Value) : Option Value := (p.get "functionCall").or (p.get "function_call")

def functionResponse (p : Value) : Option Value :=
  (p.get "functionResponse").or (p.get "function_response")

/-- The text of a response; other values are written out. -/
def responseText : Option Value → Str
  | some (.string s) => s
  | some other => other.render
  | none => []

def parsePart (p : Value) : Option ContentBlock :=
  match optStr p "text", inlineData p, functionCall p, functionResponse p with
  | some text, _, _, _ => some (.text text)
  | none, some inline, _, _ =>
      some (.image ((optStr inline "mime_type").or (optStr inline "mimeType"))
        (optStr inline "data") none)
  | none, none, some fc, _ =>
      let name := (optStr fc "name").getD []
      some (.toolUse name name ((fc.get "args").getD (obj [])))
  | none, none, none, some fr =>
      some (.toolResult ((optStr fr "name").getD []) [.text (responseText (fr.get "response"))] false)
  | none, none, none, none => none

def parseParts (v : Option Value) : List ContentBlock :=
  ((v.bind Value.asArray).getD []).filterMap parsePart

def isToolUse : ContentBlock → Bool
  | .toolUse .. => true
  | _ => false

def firstCandidate (v : Value) : Option Value := (optArr v "candidates").bind List.head?

def responseOf (v : Value) : ChatResponse :=
  let candidate := firstCandidate v
  let content := ((candidate.bind (·.get "content")).map fun c => parseParts (c.get "parts")).getD []
  { id := (optStr v "responseId").getD []
    model := (optStr v "modelVersion").getD []
    content
    stopReason := geminiFinishToStop (candidate.bind (optStr · "finishReason"))
      (content.any isToolUse)
    usage := parseUsage (v.get "usageMetadata") }

def parseResponse (bytes : List UInt8) : Except WireError ChatResponse :=
  match fromSlice bytes with
  | none => .error .json
  | some v => .ok (responseOf v)

def emitResponse (resp : ChatResponse) : Value :=
  let u := resp.usage
  obj [("candidates", .array [obj [("content", obj [("role", .string "model".toList),
        ("parts", .array (resp.content.filterMap emitPart))]),
      ("finishReason", .string (stopToGeminiFinish resp.stopReason)), ("index", .nat 0)]]),
    ("usageMetadata", obj [("promptTokenCount", .nat u.inputTokens),
      ("candidatesTokenCount", .nat u.outputTokens),
      ("totalTokenCount", .nat ((u.inputTokens + u.outputTokens) % 2 ^ 32)),
      ("cachedContentTokenCount", .nat u.cacheReadTokens)]),
    ("modelVersion", .string resp.model)]

end Gateway.Wire.Gemini
