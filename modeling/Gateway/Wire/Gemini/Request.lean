import Gateway.Wire.Gemini
import Gateway.Wire.OpenaiChat.Request

/-! The Gemini request a normalized request becomes. Its calls carry no ids, and
a result is matched to its call by the function's name. -/
namespace Gateway.Wire.Gemini

open Json
open OpenaiChat (optField)

/-- The text of a result, or the object it is. -/
def responseObject (content : List ContentBlock) : Value :=
  match fromStr (joinText content) with
  | some (.object fields) => .object fields
  | _ => obj [("result", .string (joinText content))]

/-- A part; a block with no counterpart leaves none. -/
def emitPart : ContentBlock → Option Value
  | .native .. | .thinking .. => none
  | .text t | .cachedText t _ => some (obj [("text", .string t)])
  | .image mediaType data url =>
      match data, url with
      | some data, _ => some (obj [("inline_data", obj [
          ("mime_type", .string (mediaType.getD "image/png".toList)), ("data", .string data)])])
      | none, some url => some (obj [("fileData", obj [("fileUri", .string url)])])
      | none, none => none
  | .toolUse _ name input =>
      some (obj [("functionCall", obj [("name", .string name), ("args", input)])])
  | .toolResult toolUseId content _ =>
      some (obj [("functionResponse", obj [("name", .string toolUseId),
        ("response", responseObject content)])])

def emitContent (m : Message) : Option Value :=
  let content (role : String) := obj [("role", .string role.toList),
    ("parts", .array (m.content.filterMap emitPart))]
  match m.role with
  | .assistant => some (content "model")
  | .user | .tool => some (content "user")
  | .system | .developer => none

def emitTool (t : Tool) : Value :=
  obj ([("name", .string t.name)] ++ optField "description" (t.description.map .string) ++
    [("parameters", t.inputSchema)])

def emitToolChoice (tc : ToolChoice) : Value :=
  obj [("functionCallingConfig", match tc with
    | .auto => obj [("mode", .string "AUTO".toList)]
    | .none => obj [("mode", .string "NONE".toList)]
    | .required => obj [("mode", .string "ANY".toList)]
    | .tool name => obj [("mode", .string "ANY".toList),
        ("allowedFunctionNames", .array [.string name])])]

def generationConfig (req : ChatRequest) : List (String × Value) :=
  optField "maxOutputTokens" (req.maxTokens.map .nat) ++
    optField "temperature" (req.temperature.map .number) ++
    optField "topP" (req.topP.map .number) ++
    (if req.stop.isEmpty then [] else [("stopSequences", .array (req.stop.map .string))]) ++
    optField "thinkingConfig" ((req.reasoning.bind Reasoning.budgetTokens).map fun budget =>
      obj [("thinkingBudget", .nat budget)])

def emitBody (req : ChatRequest) (opts : EmitOptions) : Value :=
  let system := req.effectiveSystem
  let config := generationConfig req
  obj ((if opts.targetModel.isEmpty then [] else [("model", .string opts.targetModel)]) ++
    (if system.isEmpty then []
      else [("systemInstruction", obj [("parts", .array [obj [("text", .string (joinText system))]])])]) ++
    [("contents", .array (req.messages.filterMap emitContent))] ++
    (if req.tools.isEmpty then []
      else [("tools", .array [obj [("functionDeclarations", .array (req.tools.map emitTool))]])]) ++
    optField "toolConfig" (req.toolChoice.map emitToolChoice) ++
    (if config.isEmpty then [] else [("generationConfig", obj config)]))

/-- The body's text, and the headers it goes with. -/
def emitRequest (req : ChatRequest) (opts : EmitOptions) : Str × List (String × String) :=
  ((emitBody req opts).render, [("content-type", "application/json")])

end Gateway.Wire.Gemini
