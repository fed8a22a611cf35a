import Gateway.Buckets
import Gateway.Core.Spend
import Mathlib.Logic.Function.Basic
import Mathlib.Tactic.NormNum

/-! The metrics of a process: counters and histograms for each set of labels, as
they are kept, and the counts of the intervals that are exported. Numbers are
floats of the program, with `round` for what its arithmetic rounds to. -/
namespace Gateway.Otel

open Json

/-- A turn with the times that were taken, in milliseconds. -/
structure TimedRecord extends TelemetryRecord where
  latencyMs : Int := 0
  firstTokenMs : Option Int := none
  generationMs : Option Int := none
  queueMs : Option Int := none

def latencyBucketsMs : List ℚ :=
  [25, 50, 100, 250, 500, 1000, 2500, 5000, 10000, 30000, 60000, 120000]

def firstTokenBucketsMs : List ℚ :=
  [50, 100, 250, 500, 1000, 2500, 5000, 10000, 30000, 60000, 120000, 300000]

def outputRateBuckets : List ℚ := [5, 10, 20, 30, 40, 60, 80, 100, 150, 200, 300]

/-- A distribution of observations over fixed bounds. The counts are cumulative. -/
structure Histogram where
  bounds : List ℚ
  bucketCounts : List Nat
  sum : ℚ := 0
  count : Nat := 0

def Histogram.new (bounds : List ℚ) : Histogram where
  bounds
  bucketCounts := List.replicate bounds.length 0

structure Labels where
  surface : Str
  model : Str
  provider : Str
  status : Nat
  deriving DecidableEq

/-- What is kept for one set of labels. -/
structure Series where
  requests : Nat := 0
  errors : Nat := 0
  inputTokens : Nat := 0
  outputTokens : Nat := 0
  cacheReadTokens : Nat := 0
  cacheWriteTokens : Nat := 0
  costMicros : Nat := 0
  latencyBucketCounts : List Nat := List.replicate latencyBucketsMs.length 0
  latencySumMs : ℚ := 0
  latencyCount : Nat := 0
  firstToken : Histogram := .new firstTokenBucketsMs
  queue : Histogram := .new firstTokenBucketsMs
  outputRate : Histogram := .new outputRateBuckets

abbrev Registry := Labels → Option Series

def labelsOf (rec : TimedRecord) : Labels where
  surface := rec.surface
  model := rec.decisionModel
  provider := rec.decisionProvider
  status := (rec.status % 2 ^ 16).toNat

section

variable (round : ℚ → ℚ)

def Histogram.observe (h : Histogram) (value : ℚ) : Histogram where
  bounds := h.bounds
  bucketCounts := Buckets.bump h.bounds h.bucketCounts value
  sum := round (h.sum + value)
  count := h.count + 1

/-- What may have been observed. -/
def Histogram.fold (h : Histogram) (value : Option ℚ) : Histogram :=
  (value.map (h.observe round)).getD h

/-- A time that is not negative, as a float. -/
def millis (ms : Int) : ℚ := round (max ms 0)

/-- Output tokens a second while the answer was written, where its writing time is
known. -/
def outputRate (rec : TimedRecord) : Option ℚ :=
  (rec.generationMs.filter (0 < ·)).bind fun ms =>
    if 0 < rec.outputTokens then some (round (round (round rec.outputTokens * 1000) / round ms))
    else none

def Series.add (s : Series) (rec : TimedRecord) : Series where
  requests := s.requests + 1
  errors := s.errors + if rec.isError then 1 else 0
  inputTokens := s.inputTokens + rec.inputTokens.toNat
  outputTokens := s.outputTokens + rec.outputTokens.toNat
  cacheReadTokens := s.cacheReadTokens + rec.cacheReadTokens.toNat
  cacheWriteTokens := s.cacheWriteTokens + rec.cacheWriteTokens.toNat
  costMicros := s.costMicros + rec.costMicros.toNat
  latencyBucketCounts :=
    Buckets.bump latencyBucketsMs s.latencyBucketCounts (millis round rec.latencyMs)
  latencySumMs := round (s.latencySumMs + millis round rec.latencyMs)
  latencyCount := s.latencyCount + 1
  firstToken := s.firstToken.fold round (rec.firstTokenMs.map (millis round))
  queue := s.queue.fold round (rec.queueMs.map (millis round))
  outputRate := s.outputRate.fold round (Otel.outputRate round rec)

def record (r : Registry) (rec : TimedRecord) : Registry :=
  Function.update r (labelsOf rec) (some (((r (labelsOf rec)).getD {}).add round rec))

/-- After a sequence of turns. -/
def recorded (recs : List TimedRecord) : Registry := recs.foldl (record round) fun _ => none

/-! ### The export -/

/-- The counts of the intervals of the latency, as `metrics_payload` takes them. -/
def Series.latencyPoint (s : Series) : Option (List Nat) :=
  Buckets.differences 0 s.latencyBucketCounts s.latencyCount

def histogramPoint (h : Histogram) : Option (List Nat) :=
  Buckets.differences 0 h.bucketCounts h.count

/-- The four distributions of a series. -/
inductive Metric where
  | latency
  | firstToken
  | queue
  | outputRate

namespace Metric

def bounds : Metric → List ℚ
  | .latency => latencyBucketsMs
  | .firstToken | .queue => firstTokenBucketsMs
  | .outputRate => outputRateBuckets

def counts (s : Series) : Metric → List Nat
  | .latency => s.latencyBucketCounts
  | .firstToken => s.firstToken.bucketCounts
  | .queue => s.queue.bucketCounts
  | .outputRate => s.outputRate.bucketCounts

def count (s : Series) : Metric → Nat
  | .latency => s.latencyCount
  | .firstToken => s.firstToken.count
  | .queue => s.queue.count
  | .outputRate => s.outputRate.count

/-- The bounds that are exported with the counts. -/
def explicitBounds (s : Series) : Metric → List ℚ
  | .latency => latencyBucketsMs
  | .firstToken => s.firstToken.bounds
  | .queue => s.queue.bounds
  | .outputRate => s.outputRate.bounds

def exported (s : Series) : Metric → Option (List Nat)
  | .latency => s.latencyPoint
  | .firstToken => histogramPoint s.firstToken
  | .queue => histogramPoint s.queue
  | .outputRate => histogramPoint s.outputRate

/-- What a turn is an observation of. -/
def observation (rec : TimedRecord) : Metric → Option ℚ
  | .latency => some (millis round rec.latencyMs)
  | .firstToken => rec.firstTokenMs.map (millis round)
  | .queue => rec.queueMs.map (millis round)
  | .outputRate => Otel.outputRate round rec

/-- What the turns of a set of labels have been observed to take. -/
def observed (recs : List TimedRecord) (labels : Labels) (m : Metric) : List ℚ :=
  (recs.filter (labelsOf · = labels)).filterMap (m.observation round ·)

theorem rising (m : Metric) : m.bounds.Pairwise (· < ·) := by
  cases m <;> norm_num [bounds, latencyBucketsMs, firstTokenBucketsMs, outputRateBuckets]

end Metric

/-- A series has counted what was observed. -/
structure Series.Tallies (s : Series) (obs : Metric → List ℚ) : Prop where
  bounds : ∀ m, Metric.explicitBounds s m = m.bounds
  counts : ∀ m, Metric.counts s m = Buckets.cumulative m.bounds (obs m)
  count : ∀ m, Metric.count s m = (obs m).length

theorem tallies_empty : ({} : Series).Tallies fun _ => [] where
  bounds m := by cases m <;> rfl
  counts m := by cases m <;> rfl
  count m := by cases m <;> rfl

variable {round}

theorem counts_fold {h : Histogram} {bounds obs : List ℚ} (hBounds : h.bounds = bounds)
    (hCounts : h.bucketCounts = Buckets.cumulative bounds obs) (hCount : h.count = obs.length)
    (value : Option ℚ) :
    (h.fold round value).bounds = bounds ∧
      (h.fold round value).bucketCounts = Buckets.cumulative bounds (obs ++ value.toList) ∧
      (h.fold round value).count = (obs ++ value.toList).length := by
  subst hBounds
  cases value with
  | none => simp [Histogram.fold, hCounts, hCount]
  | some x =>
      refine ⟨rfl, ?_, ?_⟩
      · show Buckets.bump h.bounds h.bucketCounts x = _
        rw [hCounts, Buckets.bump_cumulative]
        rfl
      · show h.count + 1 = _
        rw [hCount, List.length_append]
        rfl

/-- One more turn. -/
theorem Series.Tallies.add {s : Series} {obs : Metric → List ℚ} (h : s.Tallies obs)
    (rec : TimedRecord) :
    (s.add round rec).Tallies fun m => obs m ++ (m.observation round rec).toList := by
  obtain ⟨hBounds, hCounts, hCount⟩ := h
  have hFirst := @counts_fold round _ _ _ (hBounds .firstToken) (hCounts .firstToken)
    (hCount .firstToken) (rec.firstTokenMs.map (millis round))
  have hQueue := @counts_fold round _ _ _ (hBounds .queue) (hCounts .queue)
    (hCount .queue) (rec.queueMs.map (millis round))
  have hRate := @counts_fold round _ _ _ (hBounds .outputRate) (hCounts .outputRate)
    (hCount .outputRate) (Otel.outputRate round rec)
  constructor
  · intro m
    cases m with
    | latency => rfl
    | firstToken => exact hFirst.1
    | queue => exact hQueue.1
    | outputRate => exact hRate.1
  · intro m
    cases m with
    | latency =>
        show Buckets.bump latencyBucketsMs s.latencyBucketCounts (millis round rec.latencyMs) = _
        rw [show s.latencyBucketCounts = _ from hCounts .latency]
        exact Buckets.bump_cumulative _ _ _
    | firstToken => exact hFirst.2.1
    | queue => exact hQueue.2.1
    | outputRate => exact hRate.2.1
  · intro m
    cases m with
    | latency =>
        show s.latencyCount + 1 = _
        rw [show s.latencyCount = _ from hCount .latency, List.length_append]
        rfl
    | firstToken => exact hFirst.2.2
    | queue => exact hQueue.2.2
    | outputRate => exact hRate.2.2

/-! ### Every sequence of turns -/

theorem observed_append (recs : List TimedRecord) (rec : TimedRecord) (labels : Labels) (m : Metric) :
    m.observed round (recs ++ [rec]) labels =
      m.observed round recs labels ++
        if labelsOf rec = labels then (m.observation round rec).toList else [] := by
  unfold Metric.observed
  rw [List.filter_append, List.filterMap_append]
  congr 1
  split_ifs with hLabels
  · rw [List.filter_cons_of_pos (by simpa using hLabels), List.filter_nil, List.filterMap_cons]
    cases m.observation round rec <;> rfl
  · rw [List.filter_cons_of_neg (by simpa using hLabels), List.filter_nil, List.filterMap_nil]

/-- Each series has counted what was observed under its labels, and where there is
no series nothing was. -/
theorem tallies_recorded (recs : List TimedRecord) (labels : Labels) :
    ((recorded round recs labels).getD {}).Tallies fun m => m.observed round recs labels := by
  induction recs using List.reverseRecOn with
  | nil => exact tallies_empty
  | append_singleton recs rec ih =>
      rw [recorded, List.foldl_append, List.foldl_cons, List.foldl_nil]
      change ((record round (recorded round recs) rec labels).getD {}).Tallies _
      simp only [observed_append]
      unfold record
      by_cases hLabels : labelsOf rec = labels
      · subst hLabels
        simp only [Function.update_self, Option.getD_some, if_true]
        exact ih.add rec
      · rw [Function.update_of_ne (Ne.symm hLabels)]
        simp only [if_neg hLabels, List.append_nil]
        exact ih

variable (round)

/-- The counts of each distribution rise to no more than its count. The counts of
the intervals that are exported are those of what was observed in each, and make
up the count. -/
theorem histograms_sound (recs : List TimedRecord) (labels : Labels) {s : Series}
    (h : recorded round recs labels = some s) (m : Metric) :
    m.explicitBounds s = m.bounds ∧
      Buckets.Sound m.bounds (m.observed round recs labels) (m.counts s) (m.count s)
        (m.exported s) := by
  have hTallies := @tallies_recorded round recs labels
  rw [h, Option.getD_some] at hTallies
  obtain ⟨hBounds, hCounts, hCount⟩ := hTallies
  refine ⟨hBounds m, ?_⟩
  have hExported : m.exported s = Buckets.differences 0 (m.counts s) (m.count s) := by
    cases m <;> rfl
  rw [hExported, hCounts m, hCount m]
  exact Buckets.sound_cumulative m.rising _

/-- A turn of thirty milliseconds. -/
def shortTurn : TimedRecord where
  requestId := "r".toList
  apiKeyId := none
  userId := none
  teamId := none
  surface := "chat".toList
  requestedModel := "m".toList
  decisionModel := "m".toList
  decisionProvider := "p".toList
  status := 200
  isError := false
  createdAt := 0
  latencyMs := 30

theorem histograms_sound_shortTurn : ∃ s, recorded id [shortTurn] (labelsOf shortTurn) = some s ∧
    s.latencyCount = 1 ∧ ∃ ds, s.latencyPoint = some ds ∧ ds.sum = 1 := by
  have hServed : recorded id [shortTurn] (labelsOf shortTurn) =
      some (({} : Series).add id shortTurn) := by
    simp [recorded, record]
  obtain ⟨ds, hExported, -, hSum, -⟩ := (histograms_sound id _ _ hServed .latency).2.exported
  exact ⟨_, hServed, rfl, ds, hExported, hSum⟩

end

end Gateway.Otel
