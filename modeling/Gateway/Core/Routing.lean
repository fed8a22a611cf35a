import Gateway.Core.Spend
import Gateway.Wire.Ir

/-! Deployments of models on providers, and the errors of a turn. -/
namespace Gateway

open Json Wire

inductive EmbedFormat where
  | openaiEmbed
  | geminiEmbed
  | cohereEmbed
  | voyageEmbed
  | ollamaEmbed
  deriving DecidableEq

inductive MediaFormat where
  | openaiImages
  | openaiSpeech
  | openaiTranscription
  | openaiVideos
  deriving DecidableEq

/-- Chat, embeddings and media are served on surfaces of their own. -/
inductive UpstreamFormat where
  | chat (f : WireFormat)
  | embed (f : EmbedFormat)
  | media (f : MediaFormat)
  deriving DecidableEq

/-- One way to serve a model: a provider's own model, and what it takes to call
it. -/
structure Deployment where
  modelId : Id
  modelName : Str := []
  providerId : Id
  provider : Str := []
  upstreamModel : Str := []
  upstreamFormat : UpstreamFormat := .chat .openaiChat
  weight : Nat := 1
  pricing : Option ModelPrice := none
  vision : Bool := false
  deriving DecidableEq

inductive Error where
  | notFound (message : Str)
  | badRequest (message : Str)
  | unauthorized (message : Str)
  | forbidden (message : Str)
  | conflict (message : Str)
  | budgetExceeded (message : Str)
  | noEligibleProvider (model : Str)
  | upstream (provider : Str) (status : Nat) (message : Str)
  | connectionLost (message : Str)
  | storage (message : Str)
  | wire (message : Str)
  | internal (message : Str)
  deriving DecidableEq

def Error.httpStatus : Error → Nat
  | .notFound _ => 404
  | .badRequest _ => 400
  | .unauthorized _ => 401
  | .forbidden _ => 403
  | .conflict _ => 409
  | .budgetExceeded _ => 429
  | .noEligibleProvider _ => 400
  | .upstream _ status _ => status
  | .connectionLost _ => 502
  | .wire _ => 400
  | .storage _ | .internal _ => 500

end Gateway
