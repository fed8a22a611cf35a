import Gateway.Exclusion
import Gateway.Service.Handle
import Gateway.Wire.Embed.Answers
import Gateway.Wire.Media

/-! The turns that are answered in one piece: embeddings, and the media requests
that are forwarded as they come. Both try their candidates in order and record
what came of it; they differ in whom they ask, in whether a lost connection is
tried again, and in what they make of an answer. -/
namespace Gateway

open Json

def EmbedFormat.asStr : EmbedFormat → Str
  | openaiEmbed => "openai_embed".toList
  | geminiEmbed => "gemini_embed".toList
  | cohereEmbed => "cohere_embed".toList
  | voyageEmbed => "voyage_embed".toList
  | ollamaEmbed => "ollama_embed".toList

def MediaFormat.asStr : MediaFormat → Str
  | openaiImages => "openai_images".toList
  | openaiSpeech => "openai_speech".toList
  | openaiTranscription => "openai_transcription".toList
  | openaiVideos => "openai_videos".toList

def MediaFormat.path : MediaFormat → Str
  | openaiImages => "images/generations".toList
  | openaiSpeech => "audio/speech".toList
  | openaiTranscription => "audio/transcriptions".toList
  | openaiVideos => "videos".toList

end Gateway

namespace Gateway.Service

open Json Wire Program

structure HeadedResponse extends UpstreamResponse where
  contentType : Option Str := none

/-- What is done about a turn. What is captured is not a chat's answer. -/
inductive Deed where
  | effect (e : Effect)
  | capture (record : RequestLogRecord) (body : List UInt8)

namespace Deed

def isTelemetry : Deed → Bool
  | effect (.telemetry _) => true
  | _ => false

def isObserved : Deed → Bool
  | effect (.observed _) => true
  | _ => false

/-- A call to the store may be suspended, and dropped there. -/
def suspends : Deed → Bool
  | effect (.telemetry _) | effect (.rollup _) => true
  | _ => false

end Deed

/-- The calls to the store of a finished turn. -/
def RecordCtx.writes (rctx : RecordCtx) (turn : Turn) : List Effect :=
  .telemetry (rctx.telemetry turn) ::
    rctx.subjects.map fun subject => .rollup (rctx.rollup turn.usage subject)

theorem RecordCtx.finishLater_eq (rctx : RecordCtx) (turn : Turn) :
    rctx.finishLater turn = rctx.writes turn ++ [.log (rctx.logRecord turn)] := rfl

/-- All that a finished turn does, with what is captured of its answer. -/
def RecordCtx.deeds (rctx : RecordCtx) (turn : Turn) (captured : List UInt8) : List Deed :=
  (rctx.finishNow turn ++ rctx.writes turn).map .effect ++
    [.capture (rctx.logRecord turn) captured]

/-- An answer as the client gets it, and what is noted of it. -/
structure Served where
  usage : Usage := {}
  contentType : Str
  body : List UInt8
  captured : List UInt8

structure BufferedReply where
  status : Nat
  contentType : Str
  body : List UInt8

/-- A turn whose request is parsed, on an endpoint that serves some kind of
deployment. -/
structure Endpoint (K : Type) where
  surface : Str
  model : Str
  ctx : RequestCtx
  createdAt : Timestamp := 0
  resolved : Except Error (List Deployment)
  kind : UpstreamFormat → Option K
  emitRequest : K → Deployment → Except Error (List UInt8)
  /-- Whether a deployment is asked once more when its connection is lost. -/
  asksAgain : Bool
  accept : K → HeadedResponse → List UInt8 → Except Error Served
  /-- The complaint when no candidate is of the kind. -/
  mismatch : Str

namespace Endpoint

inductive Query where
  | send (d : Deployment) (body : List UInt8)
  /-- A streamed body is read. -/
  | drain
  | disarm
  | perform (e : Deed)

def Query.Answer : Query → Type
  | send _ _ => Except Error HeadedResponse
  | drain => List Item
  | _ => Unit

/-- A client that hangs up drops the turn where it is suspended. -/
def Query.suspends : Query → Bool
  | send _ _ | drain => true
  | disarm => false
  | perform e => e.suspends

abbrev Work := Program Query Query.Answer Error

abbrev Attempt := Deployment × Except Error HeadedResponse

/-- What has come of a turn. -/
structure Trace where
  attempts : List Attempt := []
  /-- Whether the guard would record the turn. -/
  armed : Bool := true
  did : List Deed := []

def Trace.after (s : Trace) : (q : Query) → q.Answer → Trace
  | .send d _, (a : Except Error HeadedResponse) => { s with attempts := s.attempts ++ [(d, a)] }
  | .drain, _ => s
  | .disarm, _ => { s with armed := false }
  | .perform e, _ => { s with did := s.did ++ [e] }

/-- Any answer may come. -/
def Answers (q : Query) (s : Trace) (a : q.Answer) (s' : Trace) : Prop := s' = s.after q a

/-- An item that fails or ends a body is its last, and so is one that makes it long
enough. -/
def readStream (read : List UInt8) : List Item → List UInt8
  | [] => read
  | i :: rest =>
      match drain read i with
      | (read, false) => readStream read rest
      | (read, true) => read

def readBodyMessage : ResponseBody → Work Str
  | .full bytes => done (bodyMessage bytes)
  | .stream => query .drain fun (items : List Item) => done (bodyMessage (readStream [] items))

/-- A streamed success can only be read as a message. -/
def readBytes : ResponseBody → Work (List UInt8)
  | .full bytes => done bytes
  | .stream => readBodyMessage .stream >>= fun message => done (Text.toUtf8 message)

def performAll {α : Type} (p : Work α) : List Deed → Work α
  | [] => p
  | e :: rest => query (.perform e) fun _ => performAll p rest

section

variable {K : Type} (t : Endpoint K)

def guardRecord (status : Nat) : TelemetryRecord where
  requestId := t.ctx.requestId
  apiKeyId := t.ctx.apiKeyId
  userId := t.ctx.userId
  teamId := t.ctx.teamId
  surface := t.surface
  requestedModel := t.model
  decisionModel := t.model
  decisionProvider := "none".toList
  status := status
  isError := true
  createdAt := t.createdAt

/-- What the guard does about a turn that no upstream answered. -/
def guardDeeds (status : Nat) : List Deed :=
  [.effect (.observed (t.guardRecord status)), .effect (.telemetry (t.guardRecord status))]

def fail {α : Type} (e : Error) : Work α :=
  query .disarm fun _ => performAll (.fail e) (t.guardDeeds e.httpStatus)

def recordCtx (d : Deployment) : RecordCtx where
  apiKeyId := t.ctx.apiKeyId
  userId := t.ctx.userId
  teamId := t.ctx.teamId
  requestId := t.ctx.requestId
  surface := t.surface
  requestedModel := t.model
  deployment := d
  createdAt := t.createdAt
  tokenMeter := t.ctx.tokenMeter

def commit {α : Type} (d : Deployment) (turn : Turn) (captured : List UInt8) (p : Work α) : Work α :=
  query .disarm fun _ => performAll p ((t.recordCtx d).deeds turn captured)

def servedTurn (status : Nat) (served : Served) : Turn where
  usage := served.usage
  status := status
  isError := false
  response := none
  responseBytes := served.body.length

/-- An error status: the next candidate is asked, or the error passed on. -/
def refuse (d : Deployment) (status : Nat) (next : Error → Work BufferedReply) (message : Str) :
    Work BufferedReply :=
  let e := Error.upstream d.provider status message
  if isRetryable status || isModelNotFound status then next e
  else t.commit d (Inbound.errorTurn status) [] (.fail e)

/-- An answer that cannot be translated ends the turn with the guard still armed. -/
def serve (k : K) (d : Deployment) (resp : HeadedResponse) (bytes : List UInt8) : Work BufferedReply :=
  match t.accept k resp bytes with
  | .error e => .fail e
  | .ok served =>
      t.commit d (servedTurn resp.status served) served.captured
        (done ⟨resp.status, served.contentType, served.body⟩)

def answered (k : K) (d : Deployment) (next : Error → Work BufferedReply) :
    Except Error HeadedResponse → Work BufferedReply
  | .error e => next e
  | .ok resp =>
      if isSuccess resp.status then readBytes resp.body >>= t.serve k d resp
      else readBodyMessage resp.body >>= t.refuse d resp.status next

/-- A deployment whose connection is lost may be asked once more. -/
def askAgain (d : Deployment) (body : List UInt8) :
    Except Error HeadedResponse → Work (Except Error HeadedResponse)
  | .error (.connectionLost message) =>
      if t.asksAgain then query (.send d body) done
      else done (.error (.connectionLost message))
  | a => done a

def ask (d : Deployment) (body : List UInt8) : Work (Except Error HeadedResponse) :=
  query (.send d body) (t.askAgain d body)

/-- The next candidate is asked. Candidates of other kinds are passed over. -/
def dispatch (lastErr : Option Error) (sawOtherKindOnly : Bool) : List Deployment → Work BufferedReply
  | [] => t.fail (if sawOtherKindOnly then .badRequest t.mismatch
      else lastErr.getD (.noEligibleProvider t.model))
  | d :: rest =>
      match t.kind d.upstreamFormat with
      | none => dispatch lastErr sawOtherKindOnly rest
      | some k =>
          match t.emitRequest k d with
          | .error e => t.fail e
          | .ok body => t.ask d body >>= t.answered k d fun e => dispatch (some e) false rest

def handle : Work BufferedReply :=
  match t.resolved with
  | .error e => t.fail e
  | .ok candidates =>
      let candidates := filterAccess candidates t.ctx
      if candidates.isEmpty then t.fail (.noEligibleProvider t.model)
      else t.dispatch none true candidates

/-- What is done about a turn that ends there. A guard that is armed records it when
it is dropped, with the status of a client that went away. -/
def ends (s : Trace) : List Deed := if s.armed then s.did ++ t.guardDeeds 499 else s.did

end

end Endpoint

/-! ### The endpoints -/

/-- The texts of the errors, and an embedding as the request log keeps it. -/
structure EmbedCodec (F : Type) where
  floats : Embed.Floats F
  wireErr : WireError → Error
  irJson : Embed.EmbedResponse F → List UInt8

def EmbedCodec.accept {F : Type} (codec : EmbedCodec F) (surface : EmbedFormat) (req : Embed.EmbedRequest)
    (upstream : EmbedFormat) (bytes : List UInt8) : Except Error Served := do
  let body ← (fromSlice bytes).elim (.error (codec.wireErr .json)) .ok
  let parsed ← (Embed.parseResponse codec.floats upstream body).mapError codec.wireErr
  let clientBody ← (Embed.emitResponse codec.floats surface parsed req).mapError codec.wireErr
  return { usage := { inputTokens := parsed.usage.inputTokens }
           contentType := "application/json".toList
           body := Text.toUtf8 clientBody.render
           captured := codec.irJson parsed }

def handleEmbed {F : Type} (codec : EmbedCodec F) (surface : EmbedFormat) (req : Embed.EmbedRequest)
    (ctx : RequestCtx) (createdAt : Timestamp) (resolved : Except Error (List Deployment)) :
    Endpoint EmbedFormat where
  surface := surface.asStr
  model := req.model
  ctx := ctx
  createdAt := createdAt
  resolved := resolved
  kind
    | .embed f => some f
    | .chat _ | .media _ => none
  emitRequest f d := ((Embed.emitRequest f req { targetModel := d.upstreamModel }).mapError
    codec.wireErr).map fun (body, _) => Text.toUtf8 body
  asksAgain := true
  accept f _ bytes := codec.accept surface req f bytes
  mismatch := "model ".toList ++ req.model ++
    " resolves only to chat deployments; use a chat endpoint".toList

/-- Audio is not kept in the request log. -/
def mediaAccept (resp : HeadedResponse) (bytes : List UInt8) : Served :=
  let contentType := resp.contentType.getD "application/octet-stream".toList
  { contentType := contentType
    body := bytes
    captured := if "application/json".toList.isPrefixOf contentType then bytes else [] }

def handleMedia (wireErr : WireError → Error) (surface : MediaFormat) (request : Media.MediaRequest)
    (body : List UInt8) (ctx : RequestCtx) (createdAt : Timestamp)
    (resolved : Except Error (List Deployment)) : Endpoint Unit where
  surface := surface.asStr
  model := request.model
  ctx := ctx
  createdAt := createdAt
  resolved := resolved
  kind f := if f = .media surface then some () else none
  emitRequest _ d := (request.upstreamBody body d.upstreamModel).mapError wireErr
  asksAgain := false
  accept _ resp bytes := .ok (mediaAccept resp bytes)
  mismatch := "model ".toList ++ request.model ++ " does not serve ".toList ++ surface.path

end Gateway.Service
