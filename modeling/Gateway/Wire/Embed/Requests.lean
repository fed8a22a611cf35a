import Gateway.Core.Routing
import Gateway.Wire.Embed

/-! The requests of five dialects that a normalized embeddings request becomes.
Each has one entry for each input, with all of its parts. -/
namespace Gateway.Wire.Embed

open Json
open OpenaiChat (optField notMem_optField)

def textBlock (text : Str) : Value := obj [("type", .string "text".toList), ("text", .string text)]

def jsonHeaders : List (String × String) := [("content-type", "application/json")]

def emitted (body : Except WireError Value) : Except WireError (Str × List (String × String)) :=
  body.map fun v => (v.render, jsonHeaders)

namespace Openai

/-- A URL that the upstream fetches, or the image inline. -/
def imageReference : EmbedPart → Except WireError Str
  | .image _ _ (some url) => .ok url
  | .image mediaType (some data) none => imageToDataUri mediaType (some data)
  | _ => .error (.invalidField "input[]".toList "image without data or url".toList)

def contentPart : EmbedPart → Except WireError Value
  | .text text => .ok (textBlock text)
  | .image mediaType data url => do
      let reference ← imageReference (.image mediaType data url)
      return obj [("type", .string "image_url".toList),
        ("image_url", obj [("url", .string reference)])]
  | .audio format data =>
      .ok (obj [("type", .string "input_audio".toList), ("input_audio",
        obj ([("data", .string data)] ++ optField "format" (format.map .string)))])

def contentItem (i : EmbedInput) : Except WireError Value := do
  return obj [("content", .array (← i.parts.mapM contentPart))]

/-- An object with one part, the shape that some clients send. -/
def jinaItem (i : EmbedInput) : Except WireError Value :=
  match i.parts with
  | [.text text] => .ok (obj [("text", .string text)])
  | [.image mediaType data url] => do
      return obj [("image", .string (← imageReference (.image mediaType data url)))]
  | _ => .error (.invalidRequest "a Jina-style input carries one text or image".toList)

def inputItems (req : EmbedRequest) : Except WireError (List Value) :=
  if req.inputs.all (·.asSingleText.isSome) then
    .ok (req.inputs.map fun i => .string (i.asSingleText.getD []))
  else if req.openaiContent || req.inputs.any fun i => 1 < i.parts.length || i.hasAudio then
    req.inputs.mapM contentItem
  else req.inputs.mapM jinaItem

def emitBody (req : EmbedRequest) (opts : EmbedEmitOptions) : Except WireError Value := do
  let items ← inputItems req
  return obj ([("model", .string (req.modelFor opts)), ("input", .array items),
    ("encoding_format", .string "float".toList)] ++
    optField "dimensions" (req.outputDimensions.map .nat))

end Openai

namespace Cohere

def contentBlock : EmbedPart → Except WireError Value
  | .text text => .ok (textBlock text)
  | .image mediaType data _ => do
      let uri ← imageToDataUri mediaType data
      return obj [("type", .string "image_url".toList), ("image_url", obj [("url", .string uri)])]
  | .audio .. => .error (.invalidRequest
      "cohere_embed has no audio input; route audio to an openai_embed upstream".toList)

def inputItem (i : EmbedInput) : Except WireError Value := do
  return obj [("content", .array (← i.parts.mapM contentBlock))]

/-- Texts alone have a field of their own. -/
def inputField (req : EmbedRequest) : Except WireError (String × Value) :=
  if req.inputs.all (·.asSingleText.isSome) then
    .ok ("texts", .array (req.inputs.map fun i => .string (i.asSingleText.getD [])))
  else do
    return ("inputs", .array (← req.inputs.mapM inputItem))

def emitBody (req : EmbedRequest) (opts : EmbedEmitOptions) : Except WireError Value := do
  let field ← inputField req
  return obj ([("model", .string (req.modelFor opts)),
    ("input_type", .string (inputTypeToCohere req.inputType)), field,
    ("embedding_types", .array [.string "float".toList])] ++
    optField "output_dimension" (req.outputDimensions.map .nat) ++
    (if req.truncate = some false then [("truncate", .string "NONE".toList)] else []))

end Cohere

namespace Gemini

def textPart : EmbedPart → Option Value
  | .text text => some (obj [("text", .string text)])
  | .image .. | .audio .. => none

/-- One request of a batch. -/
def requestItem (req : EmbedRequest) (opts : EmbedEmitOptions) (i : EmbedInput) :
    Except WireError Value :=
  if i.hasImage || i.hasAudio then
    .error (.invalidRequest ("gemini_embed is text-only; route image and audio inputs to a ".toList ++
      "multimodal upstream (voyage_embed)".toList))
  else
    .ok (obj ([("model", .string ("models/".toList ++ req.modelFor opts)),
      ("content", obj [("parts", .array (i.parts.filterMap textPart))])] ++
      optField "taskType" ((req.inputType.bind inputTypeToGemini).map .string) ++
      optField "outputDimensionality" (req.outputDimensions.map .nat)))

/-- A batch, whatever the client asked with. -/
def emitBody (req : EmbedRequest) (opts : EmbedEmitOptions) : Except WireError Value := do
  return obj [("requests", .array (← req.inputs.mapM (requestItem req opts)))]

end Gemini

namespace Voyage

def contentBlock : EmbedPart → Except WireError Value
  | .text text => .ok (textBlock text)
  | .image mediaType (some data) _ => do
      let uri ← imageToDataUri mediaType (some data)
      return obj [("type", .string "image_base64".toList), ("image_base64", .string uri)]
  | .image _ none (some url) =>
      .ok (obj [("type", .string "image_url".toList), ("image_url", .string url)])
  | .image _ none none =>
      .error (.invalidField "inputs[]".toList "image without data or url".toList)
  | .audio .. => .error (.invalidRequest
      "voyage_embed has no audio input; route audio to an openai_embed upstream".toList)

def inputItem (i : EmbedInput) : Except WireError Value := do
  return obj [("content", .array (← i.parts.mapM contentBlock))]

/-- Queries and documents are told apart, and no other task. -/
def emitBody (req : EmbedRequest) (opts : EmbedEmitOptions) : Except WireError Value := do
  let items ← req.inputs.mapM inputItem
  let task := req.inputType.filter fun t => t = "query".toList ∨ t = "document".toList
  return obj ([("model", .string (req.modelFor opts)), ("inputs", .array items)] ++
    optField "input_type" (task.map .string) ++ optField "truncation" (req.truncate.map .bool))

end Voyage

namespace Ollama

def textItem (i : EmbedInput) : Except WireError Value :=
  match i.asSingleText with
  | some text => .ok (.string text)
  | none => .error (.invalidRequest ("ollama_embed is text-only; route image inputs to a ".toList ++
      "multimodal upstream (voyage_embed)".toList))

def emitBody (req : EmbedRequest) (opts : EmbedEmitOptions) : Except WireError Value := do
  let items ← req.inputs.mapM textItem
  return obj ([("model", .string (req.modelFor opts)), ("input", .array items)] ++
    optField "dimensions" (req.outputDimensions.map .nat) ++
    optField "truncate" (req.truncate.map .bool))

end Ollama

def emitBody (f : EmbedFormat) (req : EmbedRequest) (opts : EmbedEmitOptions) :
    Except WireError Value :=
  match f with
  | .openaiEmbed => Openai.emitBody req opts
  | .geminiEmbed => Gemini.emitBody req opts
  | .cohereEmbed => Cohere.emitBody req opts
  | .voyageEmbed => Voyage.emitBody req opts
  | .ollamaEmbed => Ollama.emitBody req opts

/-- The body's text, and the headers it goes with. -/
def emitRequest (f : EmbedFormat) (req : EmbedRequest) (opts : EmbedEmitOptions) :
    Except WireError (Str × List (String × String)) :=
  emitted (emitBody f req opts)

end Gateway.Wire.Embed
