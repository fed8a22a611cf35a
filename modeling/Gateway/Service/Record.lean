import Gateway.Core.Routing
import Gateway.Service.Relay

/-! The record of a finished turn: a charge to the caller's meter, a telemetry
row, spend rows and a log entry. The charge is made at once, the rows one after
the other, each by a call that may be suspended. -/
namespace Gateway.Service

open Json Wire

/-- A captured turn. -/
structure RequestLogRecord where
  now : Timestamp
  requestId : Str
  status : Int
  isError : Bool
  responseBytes : Nat
  response : Option ChatResponse

inductive Effect where
  | charge (tokens : Int)
  /-- The metrics take note of a turn. -/
  | observed (record : TelemetryRecord)
  | telemetry (record : TelemetryRecord)
  | rollup (delta : RollupDelta)
  | log (record : RequestLogRecord)

namespace Effect

def isTelemetry : Effect → Bool
  | .telemetry _ => true
  | _ => false

/-- The effects that bill a turn. -/
def isBilling : Effect → Bool
  | .charge _ | .telemetry _ | .rollup _ => true
  | .observed _ | .log _ => false

end Effect

/-- What is known of a turn apart from its answer. -/
structure RecordCtx where
  apiKeyId : Option Id := none
  userId : Option Id := none
  teamId : Option Id := none
  requestId : Str := []
  surface : Str := []
  requestedModel : Str := []
  deployment : Deployment
  createdAt : Timestamp := 0
  /-- Whether the caller has a limit on tokens. -/
  tokenMeter : Bool := false

namespace RecordCtx

variable (rctx : RecordCtx)

/-- The deployment's own price, or the table's, or none. -/
def price : ModelPrice :=
  ((rctx.deployment.pricing.or (builtinPrice rctx.deployment.upstreamModel)).or
    (builtinPrice rctx.deployment.modelName)).getD { inputPer1m := 0, outputPer1m := 0 }

def cost (usage : Usage) : Micros :=
  rctx.price.costMicros usage.inputTokens usage.outputTokens usage.cacheReadTokens
    usage.cacheWriteTokens

def telemetry (turn : Turn) : TelemetryRecord where
  requestId := rctx.requestId
  apiKeyId := rctx.apiKeyId
  userId := rctx.userId
  teamId := rctx.teamId
  surface := rctx.surface
  requestedModel := rctx.requestedModel
  decisionModel := rctx.deployment.modelName
  decisionProvider := rctx.deployment.provider
  inputTokens := turn.usage.inputTokens
  outputTokens := turn.usage.outputTokens
  cacheReadTokens := turn.usage.cacheReadTokens
  cacheWriteTokens := turn.usage.cacheWriteTokens
  costMicros := rctx.cost turn.usage
  status := turn.status
  isError := turn.isError
  createdAt := rctx.createdAt

/-- Whom a turn's spend counts for. -/
def subjects : List (SubjectType × Id) :=
  (rctx.apiKeyId.map (SubjectType.key, ·)).toList ++
    (rctx.userId.map (SubjectType.user, ·)).toList ++
      (rctx.teamId.map (SubjectType.team, ·)).toList

def rollup (usage : Usage) (subject : SubjectType × Id) : RollupDelta where
  subjectType := subject.1
  subjectId := subject.2
  periodStart := dayStart rctx.createdAt
  spendMicros := rctx.cost usage
  requestCount := 1
  inputTokens := usage.inputTokens
  outputTokens := usage.outputTokens

def logRecord (turn : Turn) : RequestLogRecord where
  now := rctx.createdAt
  requestId := rctx.requestId
  status := turn.status
  isError := turn.isError
  responseBytes := turn.responseBytes
  response := turn.response

def charges (usage : Usage) : List Effect :=
  if rctx.tokenMeter && 0 < usage.inputTokens + usage.outputTokens then
    [.charge (usage.inputTokens + usage.outputTokens)]
  else []

/-- What is done before the first call to the store. -/
def finishNow (turn : Turn) : List Effect :=
  rctx.charges turn.usage ++ [.observed (rctx.telemetry turn)]

/-- What is left then. Every step but the last is a call to the store. -/
def finishLater (turn : Turn) : List Effect :=
  .telemetry (rctx.telemetry turn) ::
    (rctx.subjects.map fun subject => .rollup (rctx.rollup turn.usage subject)) ++
      [.log (rctx.logRecord turn)]

/-- All that a finished turn does. -/
def finish (turn : Turn) : List Effect := rctx.finishNow turn ++ rctx.finishLater turn

/-- The billing of a turn, in the order it is done. -/
def billing (turn : Turn) : List Effect := (rctx.finish turn).filter Effect.isBilling

theorem charges_billing (usage : Usage) :
    (rctx.charges usage).filter Effect.isBilling = rctx.charges usage := by
  unfold charges
  split_ifs <;> rfl

theorem charges_telemetry (usage : Usage) :
    (rctx.charges usage).filter Effect.isTelemetry = [] := by
  unfold charges
  split_ifs <;> rfl

theorem finishNow_billing (turn : Turn) :
    (rctx.finishNow turn).filter Effect.isBilling = rctx.charges turn.usage := by
  simp [finishNow, charges_billing, Effect.isBilling]

theorem finishNow_telemetry (turn : Turn) :
    (rctx.finishNow turn).filter Effect.isTelemetry = [] := by
  simp [finishNow, charges_telemetry, Effect.isTelemetry]

theorem finishLater_telemetry (turn : Turn) :
    (rctx.finishLater turn).filter Effect.isTelemetry = [.telemetry (rctx.telemetry turn)] := by
  rw [finishLater, List.cons_append, List.filter_cons_of_pos rfl, List.filter_append,
    List.filter_eq_nil_iff.mpr]
  · rfl
  · intro e he
    obtain ⟨subject, -, rfl⟩ := List.mem_map.mp he
    exact Bool.false_ne_true

end RecordCtx

end Gateway.Service
