import Gateway.Otel.Prometheus

/-! The bodies that are pushed to a collector: the metrics of the registry, and an
event and a span for each turn. -/
namespace Gateway.Otel

open Json

/-- A turn with the trace that its caller named, if it did. -/
structure TracedRecord extends TimedRecord where
  traceId : Option Str := none
  parentSpanId : Option Str := none

def text (s : String) : Value := .string s.toList

def number (n : Nat) : Value := .string (digits n)

def resource (serviceName : Str) : Value :=
  obj [("attributes", .array [obj [("key", text "service.name"),
    ("value", obj [("stringValue", .string serviceName)])]])]

def kvStr (key : String) (v : Str) : Value :=
  obj [("key", text key), ("value", obj [("stringValue", .string v)])]

def kvInt (key : String) (v : Int) : Value :=
  obj [("key", text key), ("value", obj [("intValue", .string (intText v))])]

def labelAttrs (l : Labels) : List Value :=
  [kvStr "surface" l.surface, kvStr "model" l.model, kvStr "provider" l.provider,
    kvInt "status" l.status]

/-- Nanoseconds, where they fit. -/
def nanosOpt (t : Timestamp) : Int := if -2 ^ 63 ≤ t ∧ t < 2 ^ 63 then t else 0

def nanos (t : Timestamp) : Str := intText (nanosOpt t)

section

variable (float : ℚ → Number) (round : ℚ → ℚ)

/-! ### Metrics -/

def sumMetric (name unit : String) (points : List Value) : Value :=
  obj [("name", text name), ("unit", text unit), ("sum", obj [("dataPoints", .array points),
    ("aggregationTemporality", .nat 2), ("isMonotonic", .bool true)])]

def histogramMetric (name unit : String) (points : List Value) : Value :=
  obj [("name", text name), ("unit", text unit), ("histogram", obj [("dataPoints", .array points),
    ("aggregationTemporality", .nat 2)])]

def point (startNs nowNs : Str) (attrs : List Value) (v : Nat) : Value :=
  obj [("attributes", .array attrs), ("startTimeUnixNano", .string startNs),
    ("timeUnixNano", .string nowNs), ("asInt", number v)]

/-- A data point of a distribution. There is none where its counts step down. -/
def histogramPointBody (startNs nowNs : Str) (attrs : List Value) (h : Histogram) : Option Value :=
  (histogramPoint h).map fun counts =>
    obj [("attributes", .array attrs), ("startTimeUnixNano", .string startNs),
      ("timeUnixNano", .string nowNs), ("count", number h.count), ("sum", .number (float h.sum)),
      ("bucketCounts", .array (counts.map number)),
      ("explicitBounds", .array (h.bounds.map fun b => .number (float b)))]

def latencyPointBody (startNs nowNs : Str) (attrs : List Value) (s : Series) : Option Value :=
  s.latencyPoint.map fun counts =>
    obj [("attributes", .array attrs), ("startTimeUnixNano", .string startNs),
      ("timeUnixNano", .string nowNs), ("count", number s.latencyCount),
      ("sum", .number (float s.latencySumMs)), ("bucketCounts", .array (counts.map number)),
      ("explicitBounds", .array (latencyBucketsMs.map fun b => .number (float b)))]

def tokenPoints (startNs nowNs : Str) (l : Labels) (s : Series) : List Value :=
  [("input", s.inputTokens), ("output", s.outputTokens), ("cache_read", s.cacheReadTokens),
      ("cache_write", s.cacheWriteTokens)].map fun (dir, v) =>
    point startNs nowNs (labelAttrs l ++ [kvStr "direction" (String.toList dir)]) v

/-- The body of the metrics. The subtractions of counts are those of unsigned
integers, which a step down would stop. -/
def metricsPayload (serviceName : Str) (snapshot : Rows) (startNs nowNs : Str) : Option Value := do
  let firstToken ← snapshot.mapM fun (l, s) =>
    histogramPointBody float startNs nowNs (labelAttrs l) s.firstToken
  let queue ← snapshot.mapM fun (l, s) =>
    histogramPointBody float startNs nowNs (labelAttrs l) s.queue
  let output ← snapshot.mapM fun (l, s) =>
    histogramPointBody float startNs nowNs (labelAttrs l) s.outputRate
  let latency ← snapshot.mapM fun (l, s) =>
    latencyPointBody float startNs nowNs (labelAttrs l) s
  let points (value : Series → Nat) := snapshot.map fun (l, s) =>
    point startNs nowNs (labelAttrs l) (value s)
  let tokens := snapshot.flatMap fun (l, s) => tokenPoints startNs nowNs l s
  pure (obj [("resourceMetrics", .array [obj [("resource", resource serviceName),
    ("scopeMetrics", .array [obj [("scope", obj [("name", text "gateway")]),
      ("metrics", .array [
        sumMetric "gateway.requests" "1" (points Series.requests),
        sumMetric "gateway.errors" "1" (points Series.errors),
        sumMetric "gateway.tokens" "1" tokens,
        sumMetric "gateway.cost" "us$1e-6" (points Series.costMicros),
        histogramMetric "gateway.request.duration" "ms" latency,
        histogramMetric "gateway.time_to_first_token" "ms" firstToken,
        histogramMetric "gateway.queue.wait" "ms" queue,
        histogramMetric "gateway.output.rate" "\x7btoken\x7d/s" output])]])]])])

/-! ### Events and spans -/

/-- What is told of a turn: never what was said in it. -/
def turnAttrs (rec : TracedRecord) : List Value :=
  [kvStr "request_id" rec.requestId, kvStr "surface" rec.surface,
      kvStr "requested_model" rec.requestedModel, kvStr "model" rec.decisionModel,
      kvStr "provider" rec.decisionProvider, kvInt "status" rec.status,
      kvInt "input_tokens" rec.inputTokens, kvInt "output_tokens" rec.outputTokens,
      kvInt "cache_read_tokens" rec.cacheReadTokens, kvInt "cache_write_tokens" rec.cacheWriteTokens,
      kvInt "cost_micros" rec.costMicros, kvInt "latency_ms" rec.latencyMs,
      obj [("key", text "error"), ("value", obj [("boolValue", .bool rec.isError)])]] ++
    [("time_to_first_token_ms", rec.firstTokenMs), ("generation_ms", rec.generationMs),
      ("queue_wait_ms", rec.queueMs)].filterMap (fun (key, v) => v.map (kvInt key)) ++
    ((outputRate round rec.toTimedRecord).map fun rate =>
      obj [("key", text "output_tokens_per_second"),
        ("value", obj [("doubleValue", .number (float rate))])]).toList ++
    [("api_key_id", rec.apiKeyId), ("user_id", rec.userId), ("team_id", rec.teamId)].filterMap
      fun (key, v) => v.map (kvStr key)

def logRecord (rec : TracedRecord) : Value :=
  obj [("timeUnixNano", .string (nanos rec.createdAt)),
    ("severityNumber", .nat (if rec.isError then 13 else 9)),
    ("severityText", text (if rec.isError then "WARN" else "INFO")),
    ("body", obj [("stringValue", text "gateway.turn")]),
    ("attributes", .array (turnAttrs float round rec ++ [kvStr "event.name" "gateway.turn".toList]))]

def logsPayload (serviceName : Str) (recs : List TracedRecord) : Value :=
  obj [("resourceLogs", .array [obj [("resource", resource serviceName),
    ("scopeLogs", .array [obj [("scope", obj [("name", text "gateway")]),
      ("logRecords", .array (recs.map (logRecord float round)))]])]])]

def asciiHexdigit (c : Char) : Bool :=
  ('0' ≤ c && c ≤ '9') || ('a' ≤ c && c ≤ 'f') || ('A' ≤ c && c ≤ 'F')

def toAsciiLowercase (s : Str) : Str := s.map Char.toLower

/-- The trace that a turn joins: the one its caller named, if that is the name of a
trace, or a new one. -/
def joinedTrace (rec : TracedRecord) (minted : Str) : Str :=
  ((rec.traceId.filter fun t => t.length == 32 && t.all asciiHexdigit).map toAsciiLowercase).getD
    minted

/-- The span of a turn, with the identifiers that were minted for it. -/
def span (rec : TracedRecord) (minted : Str × Str) : Value :=
  let start := nanosOpt rec.createdAt
  obj ([("traceId", .string (joinedTrace rec minted.1)), ("spanId", .string (minted.2.take 16)),
      ("name", text "gateway.turn"), ("kind", .nat 2), ("startTimeUnixNano", .string (intText start)),
      ("endTimeUnixNano", .string (intText (start + max rec.latencyMs 0 * 1000000))),
      ("attributes", .array (turnAttrs float round rec)),
      ("status", obj [("code", .nat (if rec.isError then 2 else 1))])] ++
    (rec.parentSpanId.map fun parent => ("parentSpanId", Value.string parent)).toList)

def tracesPayload (serviceName : Str) (recs : List TracedRecord) (minted : Nat → Str × Str) : Value :=
  obj [("resourceSpans", .array [obj [("resource", resource serviceName),
    ("scopeSpans", .array [obj [("scope", obj [("name", text "gateway")]),
      ("spans", .array (recs.mapIdx fun i rec => span float round rec (minted i)))]])]])]

end

end Gateway.Otel
