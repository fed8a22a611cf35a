import Gateway.Numbered
import Gateway.Text.Utf8
import Gateway.Wire.Embed.Requests

/-! Embedding answers, from an upstream's dialect to the client's. A client has a
vector by its place, and some upstreams number theirs. -/
namespace Gateway.Wire.Embed

open Json
open OpenaiChat (optField notMem_optField)

/-- Numbers of a vector, as they are read, written and packed. -/
structure Floats (F : Type) where
  /-- A number, or zero for what is none. -/
  ofValue : Value → F
  toValue : F → Value
  ofBase64 : Str → Except WireError (List F)
  toBase64 : List F → Str

section

variable {F : Type} (floats : Floats F)

def numbers (nums : List Value) : List F := nums.map floats.ofValue

/-! ### Numbered rows -/

def rowVector (row : Value) : Except WireError (List F) :=
  match row.get "embedding" with
  | some (.array nums) => .ok (numbers floats nums)
  | some (.string s) => floats.ofBase64 s
  | _ => .error (.missingField "data[].embedding".toList)

/-- The number of a row, or its place. -/
def rowIndex (row : Value) (place : Nat) : Nat := (optU32 row "index").getD place

/-- The rows with what `index` makes of each row and its place. -/
def readRows (index : Value → Nat → Nat) (data : List Value) :
    Except WireError (List (Nat × List F)) :=
  data.zipIdx.mapM fun (row, place) => do return (index row place, ← rowVector floats row)

def tokens (v : Value) (key : String) : Nat := ((v.get "usage").bind (optU32 · key)).getD 0

namespace Openai

def parseResponse (v : Value) : Except WireError (EmbedResponse F) := do
  let rows ← readRows floats rowIndex ((optArr v "data").getD [])
  return { model := (optStr v "model").getD []
           embeddings := (Numbered.sorted rows).map Prod.snd
           usage := { inputTokens := tokens v "prompt_tokens" } }

end Openai

namespace Voyage

def parseResponse (v : Value) : Except WireError (EmbedResponse F) :=
  match optArr v "data" with
  | none => .error (.missingField "data".toList)
  | some data => do
      let rows ← readRows floats rowIndex data
      let total := (v.get "usage").bind fun u => (optU32 u "total_tokens").or (optU32 u "text_tokens")
      return { model := (optStr v "model").getD []
               embeddings := (Numbered.sorted rows).map Prod.snd
               usage := { inputTokens := total.getD 0, imageUnits := tokens v "image_pixels" } }

end Voyage

/-! ### Rows in their order -/

/-- What is no row counts as an empty one. -/
def plainRows (rows : List Value) : List (List F) :=
  rows.map fun row => ((row.asArray).map (numbers floats)).getD []

namespace Cohere

def parseResponse (v : Value) : Except WireError (EmbedResponse F) :=
  match ((v.get "embeddings").bind (·.get "float")).bind Value.asArray with
  | none => .error (.missingField "embeddings.float".toList)
  | some rows =>
      let billed := (v.get "meta").bind (·.get "billed_units")
      let images := (billed.bind (optU32 · "image_tokens")).getD 0
      .ok { model := (optStr v "model").getD []
            embeddings := plainRows floats rows
            usage :=
              { inputTokens := ((billed.bind (optU32 · "input_tokens")).getD 0 + images) % 2 ^ 32
                imageUnits := images } }

end Cohere

namespace Gemini

def valuesOf (e : Value) : Except WireError (List F) :=
  match optArr e "values" with
  | some nums => .ok (numbers floats nums)
  | none => .error (.missingField "embedding.values".toList)

def readEmbeddings (v : Value) : Except WireError (List (List F)) :=
  match optArr v "embeddings" with
  | some list => list.mapM (valuesOf floats)
  | none =>
      match v.get "embedding" with
      | some e => do return [← valuesOf floats e]
      | none => .error (.missingField "embeddings".toList)

def parseResponse (v : Value) : Except WireError (EmbedResponse F) := do
  let embeddings ← readEmbeddings floats v
  return { model := (optStr v "model").getD []
           embeddings := embeddings
           usage := { inputTokens :=
             ((v.get "usageMetadata").bind (optU32 · "promptTokenCount")).getD 0 } }

end Gemini

namespace Ollama

def parseResponse (v : Value) : Except WireError (EmbedResponse F) :=
  match optArr v "embeddings" with
  | none => .error (.missingField "embeddings".toList)
  | some rows =>
      .ok { model := (optStr v "model").getD []
            embeddings := plainRows floats rows
            usage := { inputTokens := (optU32 v "prompt_eval_count").getD 0 } }

end Ollama

def parseResponse (f : EmbedFormat) (v : Value) : Except WireError (EmbedResponse F) :=
  match f with
  | .openaiEmbed => Openai.parseResponse floats v
  | .geminiEmbed => Gemini.parseResponse floats v
  | .cohereEmbed => Cohere.parseResponse floats v
  | .voyageEmbed => Voyage.parseResponse floats v
  | .ollamaEmbed => Ollama.parseResponse floats v

/-! ### What a client gets -/

def plain (vector : List F) : Value := .array (vector.map floats.toValue)

def packed (vector : List F) : Value := .string (floats.toBase64 vector)

def encoding (req : EmbedRequest) : List F → Value :=
  if req.encodingFormat = some .base64 then packed floats else plain floats

def dataRow (place : Nat) (vector : Value) : Value :=
  obj [("object", .string "embedding".toList), ("index", .nat place), ("embedding", vector)]

/-- A list of vectors, each with its place. -/
def dataList (resp : EmbedResponse F) (req : EmbedRequest) (usage : List (String × Value)) :
    Value :=
  obj [("object", .string "list".toList),
    ("data", .array (resp.embeddings.zipIdx.map fun (vector, place) =>
      dataRow place (encoding floats req vector))),
    ("model", .string resp.model), ("usage", obj usage)]

namespace Openai

def emitResponse (resp : EmbedResponse F) (req : EmbedRequest) : Value :=
  dataList floats resp req [("prompt_tokens", .nat resp.usage.inputTokens),
    ("total_tokens", .nat resp.usage.inputTokens)]

end Openai

namespace Voyage

def emitResponse (resp : EmbedResponse F) (req : EmbedRequest) : Value :=
  dataList floats resp req [("total_tokens", .nat resp.usage.inputTokens)]

end Voyage

namespace Cohere

def requested (req : EmbedRequest) : List Str :=
  req.cohereEmbeddingTypes.getD ["float".toList]

def emitEmbeddings (resp : EmbedResponse F) (req : EmbedRequest) : Value :=
  obj ((if "float".toList ∈ requested req then
      [("float", .array (resp.embeddings.map (plain floats)))] else []) ++
    (if "base64".toList ∈ requested req then
      [("base64", .array (resp.embeddings.map (packed floats)))] else []))

def emitResponse (resp : EmbedResponse F) (req : EmbedRequest) : Value :=
  let id := "emb-".toList ++ Nat.toDigits 10 (Text.toUtf8 resp.model).length ++ ['-'] ++
    Nat.toDigits 10 resp.embeddings.length
  obj [("id", .string id), ("embeddings", emitEmbeddings floats resp req), ("texts", .array []),
    ("meta", obj [("api_version", obj [("version", .string "2".toList)]),
      ("billed_units", obj [("input_tokens", .nat resp.usage.inputTokens)])])]

end Cohere

namespace Gemini

/-- A batch, or the one vector that was asked for. -/
def emitResponse (resp : EmbedResponse F) (req : EmbedRequest) : Except WireError Value :=
  if req.geminiBatch then
    .ok (obj [("embeddings",
      .array (resp.embeddings.map fun e => obj [("values", plain floats e)]))])
  else
    match resp.embeddings with
    | [e] => .ok (obj [("embedding", obj [("values", plain floats e)])])
    | es => .error (.invalidRequest
        ("embedContent expects exactly one embedding, got ".toList ++ Nat.toDigits 10 es.length))

end Gemini

namespace Ollama

def emitResponse (resp : EmbedResponse F) : Value :=
  obj [("model", .string resp.model), ("embeddings", .array (resp.embeddings.map (plain floats))),
    ("prompt_eval_count", .nat resp.usage.inputTokens)]

end Ollama

def emitResponse (f : EmbedFormat) (resp : EmbedResponse F) (req : EmbedRequest) :
    Except WireError Value :=
  match f with
  | .openaiEmbed => .ok (Openai.emitResponse floats resp req)
  | .geminiEmbed => Gemini.emitResponse floats resp req
  | .cohereEmbed => .ok (Cohere.emitResponse floats resp req)
  | .voyageEmbed => .ok (Voyage.emitResponse floats resp req)
  | .ollamaEmbed => .ok (Ollama.emitResponse floats resp)

/-- What the client gets for an answer, between two dialects. -/
def answered (upstream surface : EmbedFormat) (req : EmbedRequest) (v : Value) :
    Except WireError Value :=
  parseResponse floats upstream v >>= fun resp => emitResponse floats surface resp req

end

end Gateway.Wire.Embed
