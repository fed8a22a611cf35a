import Gateway.Core.Access
import Gateway.Service.StreamedTurn

/-! One chat turn, from its parsed request to the answer: the candidates are
tried in order, and the first answer that is not worth another try is passed on.
A guard records a turn that ends before that. -/
namespace Gateway.Service

open Json Wire

/-! ### Outcomes of a request upstream -/

inductive ResponseBody where
  | full (bytes : List UInt8)
  | stream

structure UpstreamResponse where
  status : Nat
  body : ResponseBody

def isRetryable (status : Nat) : Bool := 500 ≤ status || status == 408 || status == 429

def isModelNotFound (status : Nat) : Bool := status == 404

def isSuccess (status : Nat) : Bool := 200 ≤ status && status < 300

/-- The text of an error body, cut to a fair length. -/
def bodyMessage (bytes : List UInt8) : Str :=
  let trimmed := trimEnd ((Text.fromUtf8Lossy bytes).dropWhile isWhitespace)
  if trimmed.isEmpty then "upstream error (no body)".toList else trimmed.take 2000

/-- An error body that is streamed is read until it ends, fails or is long
enough. -/
def drain (read : List UInt8) : Item → List UInt8 × Bool
  | .chunk bytes => (read ++ bytes, 64 * 1024 ≤ (read ++ bytes).length)
  | .failed => (read, true)
  | .ended => (read, true)

/-! ### A turn -/

/-- The translations between the formats and the IR. -/
structure Codec where
  emitRequest : WireFormat → ChatRequest → EmitOptions → Except Error (List UInt8)
  parseResponse : WireFormat → List UInt8 → Except Error ChatResponse
  emitResponse : WireFormat → ChatResponse → Except Error (List UInt8)

/-- A turn whose request is parsed: the request, who sent it, and what the
router makes of it. -/
structure Inbound where
  codec : Codec
  surface : WireFormat
  surfaceName : Str := []
  chat : ChatRequest
  ctx : RequestCtx
  createdAt : Timestamp := 0
  resolved : Except Error (List Deployment)

/-- What the handler returns. An upstream that breaks off has an error of its
own. -/
inductive Reply where
  | full (status : Nat) (body : List UInt8)
  /-- A streamed answer of one piece. -/
  | once (status : Nat) (frames : List Frame)
  | failed (e : Error)
  | broken

/-- Where a turn stands. -/
inductive Stage where
  /-- A request is sent to a candidate. -/
  | dispatching (d : Deployment) (f : WireFormat) (rest : List Deployment)
  /-- The body of an error is read. -/
  | draining (d : Deployment) (rest : List Deployment) (status : Nat) (read : List UInt8)
  /-- The guard records a failure. -/
  | failing (e : Error) (pending : List Effect)
  /-- A committed turn is recorded before the handler returns. -/
  | recording (pending : List Effect) (reply : Reply)
  | aggregating (d : Deployment) (status : Nat) (fold : Fold)
  /-- The handler has returned the relay. -/
  | streaming (d : Deployment) (phase : Phase)
  | returned (reply : Reply)
  /-- The handler was dropped. -/
  | gone

structure TurnState where
  stage : Stage
  spawned : List Effect := []

inductive Act where
  | sent (d : Deployment)
  | did (e : Effect)

inductive Input where
  /-- The upstream answers, or the connection fails. -/
  | answer (r : Except Error UpstreamResponse)
  | move (m : Move)

namespace Inbound

variable (t : Inbound)

/-- The guard's record of a turn that no upstream answered. -/
def guardRecord (status : Nat) : TelemetryRecord where
  requestId := t.ctx.requestId
  apiKeyId := t.ctx.apiKeyId
  userId := t.ctx.userId
  teamId := t.ctx.teamId
  surface := t.surfaceName
  requestedModel := t.chat.model
  decisionModel := t.chat.model
  decisionProvider := "none".toList
  status := status
  isError := true
  createdAt := t.createdAt

def recordCtx (d : Deployment) : RecordCtx where
  apiKeyId := t.ctx.apiKeyId
  userId := t.ctx.userId
  teamId := t.ctx.teamId
  requestId := t.ctx.requestId
  surface := t.surfaceName
  requestedModel := t.chat.model
  deployment := d
  createdAt := t.createdAt
  tokenMeter := t.ctx.tokenMeter

/-- The guard records a failure. -/
def fail (e : Error) : List Act × TurnState :=
  ([.did (.observed (t.guardRecord e.httpStatus))],
    { stage := .failing e [.telemetry (t.guardRecord e.httpStatus)] })

/-- The guard is dropped: the client is gone before an answer. -/
def abandon : List Act × TurnState :=
  ([.did (.observed (t.guardRecord 499))],
    { stage := .gone, spawned := [.telemetry (t.guardRecord 499)] })

/-- A committed turn is recorded, and then the handler returns. -/
def commit (d : Deployment) (turn : Turn) (reply : Reply) : List Act × TurnState :=
  (((t.recordCtx d).finishNow turn).map .did,
    { stage := .recording ((t.recordCtx d).finishLater turn) reply })

/-- A turn that an upstream failed. -/
def errorTurn (status : Nat) : Turn where
  usage := {}
  status := status
  isError := true
  response := none
  responseBytes := 0

/-- The next candidate is tried. Candidates of other formats are passed over. -/
def dispatch (lastErr : Option Error) (embedOnly : Bool) :
    List Deployment → List Act × TurnState
  | [] => t.fail (if embedOnly then .badRequest ("model ".toList ++ t.chat.model ++
        " is an embeddings model; use an embeddings endpoint".toList)
      else lastErr.getD (.noEligibleProvider t.chat.model))
  | d :: rest =>
      match d.upstreamFormat with
      | .chat f =>
          match t.codec.emitRequest f t.chat { targetModel := d.upstreamModel, stream := true } with
          | .error e => t.fail e
          | .ok _ => ([.sent d], { stage := .dispatching d f rest })
      | .embed _ | .media _ => dispatch lastErr embedOnly rest

/-- The turn once its request is parsed. -/
def begin : List Act × TurnState :=
  match t.resolved with
  | .error e => t.fail e
  | .ok candidates =>
      let candidates := filterAccess candidates t.ctx
      if candidates.isEmpty then t.fail (.noEligibleProvider t.chat.model)
      else t.dispatch none true candidates

/-- An error status: the next candidate is tried, or the error passed on. -/
def refuse (d : Deployment) (rest : List Deployment) (status : Nat) (message : Str) :
    List Act × TurnState :=
  let e := Error.upstream d.provider status message
  if isRetryable status || isModelNotFound status then t.dispatch (some e) false rest
  else t.commit d (errorTurn status) (.failed e)

def cacheEcho : Option Str × Option Str := (t.chat.promptCacheKey, t.chat.promptCacheRetention)

def responseTurn (resp : ChatResponse) (status : Nat) (bytes : Nat) : Turn where
  usage := resp.usage
  status := status
  isError := false
  response := some resp
  responseBytes := bytes

/-- A buffered answer. -/
def emitFull (d : Deployment) (status : Nat) (resp : ChatResponse) : List Act × TurnState :=
  match t.codec.emitResponse t.surface resp with
  | .error e => ([], { stage := .returned (.failed e) })
  | .ok bytes => t.commit d (responseTurn resp status bytes.length) (.full status bytes)

/-- A buffered response for a client that asked for a stream. -/
def fullToStream (d : Deployment) (status : Nat) (resp : ChatResponse) : List Act × TurnState :=
  let (frames, _) := (Encoder.new t.surface).encode (eventsFromResponse resp)
  t.commit d (responseTurn resp status (frameBytes frames).length) (.once status frames)

/-- A success is adapted to what the client asked for. -/
def accept (d : Deployment) (f : WireFormat) (status : Nat) (body : ResponseBody) :
    List Act × TurnState :=
  match body, t.chat.stream with
  | .stream, false => ([], { stage := .aggregating d status { decoder := Decoder.new f } })
  | .stream, true => ([], { stage := .streaming d (.open (translateStream f t.surface
      t.ctx.requestId status t.cacheEcho t.chat.includeUsage)) })
  | .full bytes, stream =>
      match t.codec.parseResponse f bytes with
      | .error e => ([], { stage := .returned (.failed e) })
      | .ok resp =>
          if stream then t.fullToStream d status (applyCacheEcho resp t.cacheEcho)
          else t.emitFull d status (applyCacheEcho resp t.cacheEcho)

def answered (d : Deployment) (f : WireFormat) (rest : List Deployment) :
    Except Error UpstreamResponse → List Act × TurnState
  | .error e => t.dispatch (some e) false rest
  | .ok resp =>
      if isSuccess resp.status then t.accept d f resp.status resp.body
      else match resp.body with
        | .full bytes => t.refuse d rest resp.status (bodyMessage bytes)
        | .stream => ([], { stage := .draining d rest resp.status [] })

/-- The aggregated stream goes on. -/
def aggregate (d : Deployment) (status : Nat) (fold : Fold) : Item → List Act × TurnState
  | .chunk bytes => ([], { stage := .aggregating d status (fold.chunk bytes) })
  | .failed => t.commit d (errorTurn status) .broken
  | .ended => t.emitFull d status
      (applyCacheEcho (fold.flush.agg.intoResponse t.ctx.requestId) t.cacheEcho)

/-- A suspended recording goes on; after its last effect it is done. -/
def advance (pending : List Effect) (suspended : List Effect → Stage) (done : Stage) :
    List Act × TurnState :=
  match pending with
  | [] => ([], { stage := done })
  | [e] => ([.did e], { stage := done })
  | e :: rest => ([.did e], { stage := suspended rest })

def step (s : TurnState) (input : Input) : List Act × TurnState :=
  match s.stage, input with
  | .dispatching d f rest, .answer r => t.answered d f rest r
  | .dispatching .., .move .drop => t.abandon
  | .draining d rest status read, .move (.item i) =>
      match drain read i with
      | (read, false) => ([], { s with stage := .draining d rest status read })
      | (read, true) => t.refuse d rest status (bodyMessage read)
  | .draining .., .move .drop => t.abandon
  | .failing e pending, .move .advance => advance pending (.failing e) (.returned (.failed e))
  | .failing .., .move .drop => ([], { stage := .gone })
  | .recording pending reply, .move .advance =>
      advance pending (.recording · reply) (.returned reply)
  | .recording .., .move .drop => ([], { stage := .gone })
  | .aggregating d status fold, .move (.item i) => t.aggregate d status fold i
  | .aggregating .., .move .drop => ([], { stage := .gone })
  | .streaming d phase, .move m =>
      let (effects, s) := Streaming.step (t.recordCtx d) ⟨phase, s.spawned⟩ m
      (effects.map .did, { stage := .streaming d s.phase, spawned := s.spawned })
  | _, .move .spawned =>
      match s.spawned with
      | [] => ([], s)
      | e :: rest => ([.did e], { s with spawned := rest })
  | _, _ => ([], s)

/-- A run of the turn: its acts, the start included, and where it stands. -/
def run (inputs : List Input) : List Act × TurnState :=
  let (acts, s) := Transducer.run t.step t.begin.2 inputs
  (t.begin.1 ++ acts, s)

/-- The inputs of a run with the states they met. -/
def history (inputs : List Input) : List (TurnState × Input) :=
  Transducer.trace t.step t.begin.2 inputs

end Inbound

end Gateway.Service
