import Gateway.Json.Render
import Gateway.Otel.Registry
import Gateway.Text.Exposition
import Mathlib.Data.Char
import Mathlib.Data.List.Lex
import Mathlib.Data.Prod.Lex
import Mathlib.Data.List.Sort

/-! The metrics as they are scraped, in the text format of the monitoring system. -/
namespace Gateway.Otel

open Json Text.Exposition

/-- Floats as they are printed. -/
structure FloatText where
  text : ℚ → Str
  plain : ∀ x, ∀ c ∈ text x, c.isDigit = true ∨ c = '.' ∨ c = '-'

def replaced (c : Char) (instead : Str) (s : Str) : Str := s.flatMap fun x => if x = c then instead else [x]

/-- A label's value, with backslashes, quotes and newlines set off. -/
def escape (s : Str) : Str :=
  replaced '\n' "\\n".toList (replaced '"' "\\\"".toList (replaced '\\' "\\\\".toList s))

def labelStr (l : Labels) : Str :=
  "surface=\"".toList ++ escape l.surface ++ "\",model=\"".toList ++ escape l.model ++
    "\",provider=\"".toList ++ escape l.provider ++ "\",status=\"".toList ++ digits l.status ++
      "\"".toList

def metricLine (name labels value : Str) : Str :=
  name ++ "\x7b".toList ++ labels ++ "\x7d ".toList ++ value ++ "\n".toList

abbrev Rows := List (Labels × Series)

def typeLine (name kind : Str) : Str :=
  "# TYPE ".toList ++ name ++ " ".toList ++ kind ++ "\n".toList

def renderCounter (name : Str) (value : Series → Nat) (snap : Rows) : Str :=
  typeLine name "counter".toList ++
    snap.flatMap fun (l, s) => metricLine name (labelStr l) (digits (value s))

def Series.tokens (s : Series) : List (Str × Nat) :=
  [("input".toList, s.inputTokens), ("output".toList, s.outputTokens),
    ("cache_read".toList, s.cacheReadTokens), ("cache_write".toList, s.cacheWriteTokens)]

def renderTokens (snap : Rows) : Str :=
  typeLine "gateway_tokens_total".toList "counter".toList ++
    snap.flatMap fun (l, s) => s.tokens.flatMap fun (dir, v) =>
      metricLine "gateway_tokens_total".toList
        (labelStr l ++ ",direction=\"".toList ++ dir ++ "\"".toList) (digits v)

section

variable (float : FloatText)

def renderHistogram (name : Str) (histogram : Series → Histogram) (snap : Rows) : Str :=
  typeLine name "histogram".toList ++
    snap.flatMap fun (l, s) =>
      let h := histogram s
      let ls := labelStr l
      ((h.bounds.zip h.bucketCounts).flatMap fun (bound, n) =>
        metricLine (name ++ "_bucket".toList)
          (ls ++ ",le=\"".toList ++ float.text bound ++ "\"".toList) (digits n)) ++
      metricLine (name ++ "_bucket".toList) (ls ++ ",le=\"+Inf\"".toList) (digits h.count) ++
      metricLine (name ++ "_sum".toList) ls (float.text h.sum) ++
      metricLine (name ++ "_count".toList) ls (digits h.count)

/-- The latency is kept apart from the other distributions. -/
def Series.latency (s : Series) : Histogram :=
  ⟨latencyBucketsMs, s.latencyBucketCounts, s.latencySumMs, s.latencyCount⟩

/-- Series are in the order of their labels, whatever the order of the table. -/
def Labels.key (l : Labels) : Str ×ₗ Str ×ₗ Str ×ₗ Nat :=
  toLex (l.surface, toLex (l.model, toLex (l.provider, l.status)))

def sortedRows (snapshot : Rows) : Rows := snapshot.insertionSort fun a b => a.1.key ≤ b.1.key

def renderPrometheus (snapshot : Rows) : Str :=
  let snap := sortedRows snapshot
  renderCounter "gateway_requests_total".toList Series.requests snap ++
    renderCounter "gateway_errors_total".toList Series.errors snap ++
    renderTokens snap ++
    renderCounter "gateway_cost_micros_total".toList Series.costMicros snap ++
    renderHistogram float "gateway_request_duration_ms".toList Series.latency snap ++
    renderHistogram float "gateway_time_to_first_token_ms".toList Series.firstToken snap ++
    renderHistogram float "gateway_queue_wait_ms".toList Series.queue snap ++
    renderHistogram float "gateway_output_tokens_per_second".toList Series.outputRate snap

end

/-! ### What is written -/

def labelPairs (l : Labels) : List (Str × Str) :=
  [("surface".toList, l.surface), ("model".toList, l.model), ("provider".toList, l.provider),
    ("status".toList, digits l.status)]

theorem replaced_append (c : Char) (instead a b : Str) :
    replaced c instead (a ++ b) = replaced c instead a ++ replaced c instead b := List.flatMap_append

theorem escape_append (a b : Str) : escape (a ++ b) = escape a ++ escape b := by
  simp only [escape, replaced_append]

theorem escape_singleton (c : Char) : escape [c] = quoteChar c := by
  by_cases hBackslash : c = '\\'
  · subst hBackslash
    rfl
  · by_cases hQuote : c = '"'
    · subst hQuote
      rfl
    · by_cases hEnd : c = '\n'
      · subst hEnd
        rfl
      · simp [escape, replaced, quoteChar, hBackslash, hQuote, hEnd]

/-- Backslashes are set off first, so that those which set off others are not. -/
theorem escape_eq (s : Str) : escape s = quoted s := by
  induction s with
  | nil => rfl
  | cons c s ih =>
      rw [← List.singleton_append, escape_append, escape_singleton, ih]
      rfl

theorem quoted_of_plain {s : Str} (h : ∀ c ∈ s, c.isDigit = true ∨ c = '.' ∨ c = '-') : quoted s = s := by
  have hChar (c : Char) (hc : c.isDigit = true ∨ c = '.' ∨ c = '-') : quoteChar c = [c] := by
    have hBackslash : c ≠ '\\' := by rintro rfl; simp at hc
    have hQuote : c ≠ '"' := by rintro rfl; simp at hc
    have hEnd : c ≠ '\n' := by rintro rfl; simp at hc
    rw [quoteChar, if_neg hBackslash, if_neg hQuote, if_neg hEnd]
  induction s with
  | nil => rfl
  | cons c s ih =>
      rw [quoted, List.flatMap_cons, hChar c (h c List.mem_cons_self)]
      exact congrArg (c :: ·) (ih fun c hc => h c (List.mem_cons_of_mem _ hc))

theorem digits_plain (n : Nat) : ∀ c ∈ digits n, c.isDigit = true ∨ c = '.' ∨ c = '-' :=
  fun _ hc => Or.inl (Nat.isDigit_of_mem_toDigits (by decide) (by decide) hc)

theorem four_labels (a b c d u v w x : Str) :
    (a ++ ['=', '"']) ++ quoted u ++ (['"', ','] ++ (b ++ ['=', '"'])) ++ quoted v ++
        (['"', ','] ++ (c ++ ['=', '"'])) ++ quoted w ++ (['"', ','] ++ (d ++ ['=', '"'])) ++
          quoted x ++ ['"'] = labelsText [(a, u), (b, v), (c, w), (d, x)] := by
  simp [labelsText, labelText]

theorem labelStr_eq (l : Labels) : labelStr l = labelsText (labelPairs l) := by
  have hStatus : quoted (digits l.status) = digits l.status := quoted_of_plain (digits_plain _)
  have hFour := four_labels "surface".toList "model".toList "provider".toList "status".toList l.surface
    l.model l.provider (digits l.status)
  rw [hStatus, ← escape_eq, ← escape_eq, ← escape_eq] at hFour
  exact hFour

theorem labelStr_with (l : Labels) (key value : Str) :
    labelStr l ++ ',' :: labelText (key, value) = labelsText (labelPairs l ++ [(key, value)]) := by
  rw [labelStr_eq]
  simp only [labelPairs, labelsText, List.append_assoc, List.cons_append, List.nil_append]

theorem metricLine_eq (name : Str) (labels : List (Str × Str)) (value : Str) :
    metricLine name (labelsText labels) value = (Entry.sample ⟨name, labels, value⟩).text ++ ['\n'] := by
  simp [metricLine, Entry.text, Sample.text]

/-! ### The samples of a family -/

/-- The samples that stand under a header of their own. -/
structure Family where
  name : Str
  kind : Str
  samples : Labels × Series → List Sample

def Family.entries (f : Family) (snap : Rows) : List Entry :=
  .comment (" TYPE ".toList ++ f.name ++ " ".toList ++ f.kind) ::
    (snap.flatMap f.samples).map .sample

/-- The counters, of which those of the tokens have one family. -/
inductive Counter where
  | requests
  | errors
  | input
  | output
  | cacheRead
  | cacheWrite
  | costMicros

namespace Counter

def name : Counter → Str
  | .requests => "gateway_requests_total".toList
  | .errors => "gateway_errors_total".toList
  | .input | .output | .cacheRead | .cacheWrite => "gateway_tokens_total".toList
  | .costMicros => "gateway_cost_micros_total".toList

def direction : Counter → List (Str × Str)
  | .requests | .errors | .costMicros => []
  | .input => [("direction".toList, "input".toList)]
  | .output => [("direction".toList, "output".toList)]
  | .cacheRead => [("direction".toList, "cache_read".toList)]
  | .cacheWrite => [("direction".toList, "cache_write".toList)]

def value (s : Series) : Counter → Nat
  | .requests => s.requests
  | .errors => s.errors
  | .input => s.inputTokens
  | .output => s.outputTokens
  | .cacheRead => s.cacheReadTokens
  | .cacheWrite => s.cacheWriteTokens
  | .costMicros => s.costMicros

/-- What a turn adds. -/
def ofTurn (rec : TimedRecord) : Counter → Nat
  | .requests => 1
  | .errors => if rec.isError then 1 else 0
  | .input => rec.inputTokens.toNat
  | .output => rec.outputTokens.toNat
  | .cacheRead => rec.cacheReadTokens.toNat
  | .cacheWrite => rec.cacheWriteTokens.toNat
  | .costMicros => rec.costMicros.toNat

def sample (c : Counter) (l : Labels) (n : Nat) : Sample :=
  ⟨c.name, labelPairs l ++ c.direction, digits n⟩

end Counter

namespace Metric

def name : Metric → Str
  | .latency => "gateway_request_duration_ms".toList
  | .firstToken => "gateway_time_to_first_token_ms".toList
  | .queue => "gateway_queue_wait_ms".toList
  | .outputRate => "gateway_output_tokens_per_second".toList

def histogram (s : Series) : Metric → Histogram
  | .latency => s.latency
  | .firstToken => s.firstToken
  | .queue => s.queue
  | .outputRate => s.outputRate

/-- The count of a bound, written as it is printed. -/
def bucket (m : Metric) (l : Labels) (le : Str) (n : Nat) : Sample :=
  ⟨m.name ++ "_bucket".toList, labelPairs l ++ [("le".toList, le)], digits n⟩

def total (m : Metric) (l : Labels) (sum : Str) : Sample :=
  ⟨m.name ++ "_sum".toList, labelPairs l, sum⟩

def counted (m : Metric) (l : Labels) (n : Nat) : Sample :=
  ⟨m.name ++ "_count".toList, labelPairs l, digits n⟩

end Metric

def counterFamily (name : Str) (counters : List Counter) : Family where
  name
  kind := "counter".toList
  samples := fun (l, s) => counters.map fun c => c.sample l (c.value s)

section

variable (float : FloatText)

def histogramFamily (m : Metric) : Family where
  name := m.name
  kind := "histogram".toList
  samples := fun (l, s) =>
    ((m.histogram s).bounds.zip (m.histogram s).bucketCounts).map
        (fun (bound, n) => m.bucket l (float.text bound) n) ++
      [m.bucket l "+Inf".toList (m.histogram s).count, m.total l (float.text (m.histogram s).sum),
        m.counted l (m.histogram s).count]

def families : List Family :=
  [counterFamily Counter.requests.name [.requests], counterFamily Counter.errors.name [.errors],
    counterFamily Counter.input.name [.input, .output, .cacheRead, .cacheWrite],
    counterFamily Counter.costMicros.name [.costMicros],
    histogramFamily float .latency, histogramFamily float .firstToken, histogramFamily float .queue,
    histogramFamily float .outputRate]

end

/-- A sample as its line. -/
def line (x : Sample) : Str := metricLine x.name (labelsText x.labels) x.value

theorem written_append (xs ys : List Entry) : written (xs ++ ys) = written xs ++ written ys :=
  List.flatMap_append

theorem written_samples (xs : List Sample) : written (xs.map .sample) = xs.flatMap line := by
  induction xs with
  | nil => rfl
  | cons x xs ih =>
      rw [List.map_cons, List.flatMap_cons, ← ih]
      exact congrArg (· ++ _) (metricLine_eq x.name x.labels x.value).symm

theorem written_entries (f : Family) (snap : Rows) :
    written (f.entries snap) =
      typeLine f.name f.kind ++ snap.flatMap fun row => (f.samples row).flatMap line := by
  have hHeader (a b c : Str) (x y : Str) :
      (Entry.comment (x ++ a ++ y ++ b)).text ++ '\n' :: c = '#' :: x ++ a ++ y ++ b ++ ['\n'] ++ c := by
    simp [Entry.text]
  have hSamples := written_samples (snap.flatMap f.samples)
  rw [List.flatMap_assoc] at hSamples
  rw [← hSamples]
  show (_ ++ _) ++ written _ = _
  rw [List.append_assoc, List.singleton_append, hHeader]
  rfl

theorem renderCounter_eq (c : Counter) (h : c.direction = []) (snap : Rows) :
    renderCounter c.name (c.value ·) snap = written ((counterFamily c.name [c]).entries snap) := by
  rw [written_entries]
  apply congrArg (typeLine c.name "counter".toList ++ snap.flatMap ·)
  funext row
  simp [counterFamily, Counter.sample, line, labelStr_eq, h]

theorem renderTokens_eq (snap : Rows) :
    renderTokens snap =
      written ((counterFamily Counter.input.name [.input, .output, .cacheRead, .cacheWrite]).entries
        snap) := by
  have hLine (l : Labels) (key dir : Str) (c : Counter) (n : Nat)
      (hName : c.name = Counter.input.name) (hDirection : c.direction = [(key, dir)])
      (hPlain : quoted dir = dir) :
      metricLine Counter.input.name (labelStr l ++ (',' :: (key ++ ['=', '"'])) ++ dir ++ ['"'])
        (digits n) = line (c.sample l n) := by
    have hLabels := labelStr_with l key dir
    rw [labelText, hPlain] at hLabels
    rw [line, Counter.sample, hName, hDirection, ← hLabels]
    simp
  rw [written_entries]
  apply congrArg (typeLine Counter.input.name "counter".toList ++ snap.flatMap ·)
  funext row
  obtain ⟨l, s⟩ := row
  have hInput := hLine l "direction".toList "input".toList .input s.inputTokens rfl rfl (by decide)
  have hOutput := hLine l "direction".toList "output".toList .output s.outputTokens rfl rfl (by decide)
  have hRead := hLine l "direction".toList "cache_read".toList .cacheRead s.cacheReadTokens rfl rfl
    (by decide)
  have hWrite := hLine l "direction".toList "cache_write".toList .cacheWrite s.cacheWriteTokens rfl rfl
    (by decide)
  show _ = [Counter.input.sample l s.inputTokens, Counter.output.sample l s.outputTokens,
    Counter.cacheRead.sample l s.cacheReadTokens,
    Counter.cacheWrite.sample l s.cacheWriteTokens].flatMap line
  simp only [List.flatMap_cons, List.flatMap_nil, ← hInput, ← hOutput, ← hRead, ← hWrite]
  rfl

section

variable (float : FloatText)

theorem renderHistogram_eq (m : Metric) (snap : Rows) :
    renderHistogram float m.name (m.histogram ·) snap =
      written ((histogramFamily float m).entries snap) := by
  have hBucket (l : Labels) (key le : Str) (n : Nat) (hPlain : quoted le = le) :
      metricLine (m.name ++ "_bucket".toList) (labelStr l ++ (',' :: (key ++ ['=', '"'])) ++ le ++ ['"'])
        (digits n) = line ⟨m.name ++ "_bucket".toList, labelPairs l ++ [(key, le)], digits n⟩ := by
    have hLabels := labelStr_with l key le
    rw [labelText, hPlain] at hLabels
    rw [line, ← hLabels]
    simp
  have hBounds (l : Labels) (buckets : List (ℚ × Nat)) :
      (buckets.flatMap fun (bound, n) => metricLine (m.name ++ "_bucket".toList)
          (labelStr l ++ ",le=\"".toList ++ float.text bound ++ "\"".toList) (digits n)) =
        (buckets.map fun (bound, n) => m.bucket l (float.text bound) n).flatMap line := by
    rw [List.flatMap_map]
    apply congrArg (buckets.flatMap ·)
    funext bucket
    exact hBucket l "le".toList (float.text bucket.1) bucket.2 (quoted_of_plain (float.plain _))
  rw [written_entries]
  apply congrArg (typeLine m.name "histogram".toList ++ snap.flatMap ·)
  funext row
  obtain ⟨l, s⟩ := row
  have hRest := hBucket l "le".toList "+Inf".toList (m.histogram s).count (by decide)
  rw [List.append_assoc, List.append_assoc] at hRest
  show _ = (_ ++ [_, _, _]).flatMap line
  rw [List.flatMap_append, ← hBounds]
  simp only [List.append_assoc, List.flatMap_cons, List.flatMap_nil, List.append_nil]
  apply congrArg (_ ++ ·)
  apply congr (congrArg (· ++ ·) ?_)
  · apply congr (congrArg (· ++ ·) ?_)
    · exact congrArg (metricLine _ · _) (labelStr_eq l)
    · exact congrArg (metricLine _ · _) (labelStr_eq l)
  · exact hRest

/-- The text is that of the samples, family by family. -/
theorem renderPrometheus_eq (snapshot : Rows) :
    renderPrometheus float snapshot =
      written ((families float).flatMap (·.entries (sortedRows snapshot))) := by
  have hRequests := renderCounter_eq .requests rfl (sortedRows snapshot)
  have hErrors := renderCounter_eq .errors rfl (sortedRows snapshot)
  have hCost := renderCounter_eq .costMicros rfl (sortedRows snapshot)
  simp only [families, List.flatMap_cons, List.flatMap_nil, List.append_nil, written_append, ← hRequests,
    ← hErrors, ← hCost, ← renderTokens_eq, ← renderHistogram_eq]
  simp only [renderPrometheus, ← List.append_assoc]
  rfl

theorem digits_ends (n : Nat) : '\n' ∉ digits n := by
  intro hMem
  have hPlain := digits_plain n _ hMem
  simp at hPlain

theorem text_ends (x : ℚ) : '\n' ∉ float.text x := by
  intro hMem
  have hPlain := float.plain x _ hMem
  simp at hPlain

/-- A name that needs nothing set off. -/
def Bare (name : Str) : Prop := name ≠ [] ∧ ∀ c ∈ name, c ≠ '{' ∧ c ≠ '\n' ∧ c ≠ '#' ∧ c ≠ '='

instance (name : Str) : Decidable (Bare name) :=
  @instDecidableAnd _ _ inferInstance (List.decidableBAll _ name)

theorem bare_counter (c : Counter) : Bare c.name ∧ ∀ label ∈ c.direction, Bare label.1 := by
  cases c <;> decide

theorem Bare.append {a b : Str} (ha : Bare a) (hb : Bare b) : Bare (a ++ b) := by
  constructor
  · intro hNil
    exact ha.1 (List.append_eq_nil_iff.mp hNil).1
  · intro c hc
    rcases List.mem_append.mp hc with hc | hc
    · exact ha.2 c hc
    · exact hb.2 c hc

theorem bare_metric (m : Metric) : Bare m.name := by cases m <;> decide

theorem fits {name value : Str} (l : Labels) {more : List (Str × Str)} (hName : Bare name)
    (hMore : ∀ label ∈ more, Bare label.1) (hValue : '\n' ∉ value) :
    (⟨name, labelPairs l ++ more, value⟩ : Sample).Fits := by
  have hKeys : ∀ key ∈ ["surface".toList, "model".toList, "provider".toList, "status".toList],
      Bare key := by decide
  have hPairs : ∀ label ∈ labelPairs l, Bare label.1 := fun label hLabel =>
    hKeys label.1 (List.mem_map_of_mem hLabel)
  constructor
  · intro c hc
    obtain ⟨hBrace, hEnd, hHash, -⟩ := hName.2 c hc
    exact ⟨hBrace, hEnd, hHash⟩
  · exact hName.1
  · exact List.cons_ne_nil _ _
  · intro label hLabel c hc
    rcases List.mem_append.mp hLabel with hLabel | hLabel
    · exact ⟨((hPairs label hLabel).2 c hc).2.2.2, ((hPairs label hLabel).2 c hc).2.1⟩
    · exact ⟨((hMore label hLabel).2 c hc).2.2.2, ((hMore label hLabel).2 c hc).2.1⟩
  · exact hValue

theorem fits_counter (c : Counter) (l : Labels) (n : Nat) : (c.sample l n).Fits :=
  fits l (bare_counter c).1 (bare_counter c).2 (digits_ends n)

theorem fits_bucket (m : Metric) (l : Labels) (le : Str) (n : Nat) : (m.bucket l le n).Fits := by
  apply fits l ((bare_metric m).append (by decide)) _ (digits_ends n)
  intro label hLabel
  rw [List.mem_singleton.mp hLabel]
  exact (by decide : Bare "le".toList)

theorem fits_total (m : Metric) (l : Labels) (x : ℚ) : (m.total l (float.text x)).Fits :=
  @fits _ _ l [] ((bare_metric m).append (by decide)) (by simp) (text_ends float x)

theorem fits_counted (m : Metric) (l : Labels) (n : Nat) : (m.counted l n).Fits :=
  @fits _ _ l [] ((bare_metric m).append (by decide)) (by simp) (digits_ends n)

theorem fits_entries (snap : Rows) :
    ∀ e ∈ (families float).flatMap (·.entries snap), e.Fits := by
  have hFamily (f : Family) (hType : '\n' ∉ " TYPE ".toList ++ f.name ++ " ".toList ++ f.kind)
      (hSamples : ∀ row, ∀ x ∈ f.samples row, x.Fits) : ∀ e ∈ f.entries snap, e.Fits := by
    intro e he
    rcases List.mem_cons.mp he with rfl | he
    · exact hType
    · obtain ⟨x, hx, rfl⟩ := List.mem_map.mp he
      obtain ⟨row, -, hx⟩ := List.mem_flatMap.mp hx
      exact hSamples row x hx
  have hCounters (c : Counter) (cs : List Counter) :
      ∀ e ∈ (counterFamily c.name cs).entries snap, e.Fits := by
    apply hFamily
    · cases c <;> exact of_decide_eq_true rfl
    · intro row x hx
      obtain ⟨c, -, rfl⟩ := List.mem_map.mp hx
      exact fits_counter c _ _
  have hHistogram (m : Metric) : ∀ e ∈ (histogramFamily float m).entries snap, e.Fits := by
    apply hFamily
    · cases m <;> exact of_decide_eq_true rfl
    · intro row x hx
      rcases List.mem_append.mp hx with hx | hx
      · obtain ⟨bucket, -, rfl⟩ := List.mem_map.mp hx
        exact fits_bucket m _ _ _
      · simp only [List.mem_cons, List.not_mem_nil, or_false] at hx
        obtain rfl | rfl | rfl := hx
        · exact fits_bucket m _ _ _
        · exact fits_total float m _ _
        · exact fits_counted m _ _
  intro e he
  obtain ⟨f, hf, he⟩ := List.mem_flatMap.mp he
  simp only [families, List.mem_cons, List.not_mem_nil, or_false] at hf
  obtain rfl | rfl | rfl | rfl | rfl | rfl | rfl | rfl := hf
  · exact hCounters _ _ e he
  · exact hCounters _ _ e he
  · exact hCounters _ _ e he
  · exact hCounters _ _ e he
  · exact hHistogram _ e he
  · exact hHistogram _ e he
  · exact hHistogram _ e he
  · exact hHistogram _ e he

/-- What is read of a text is the samples of each family, over the rows. -/
theorem samplesOf_renderPrometheus (snapshot : Rows) :
    ∃ samples, samplesOf (renderPrometheus float snapshot) = some samples ∧
      ∀ x, x ∈ samples ↔ ∃ row ∈ snapshot, ∃ f ∈ families float, x ∈ f.samples row := by
  refine ⟨_, (congrArg samplesOf (renderPrometheus_eq float snapshot)).trans
    (samplesOf_written (fits_entries float _)), ?_⟩
  intro x
  have hEntry (f : Family) : Entry.sample x ∈ f.entries (sortedRows snapshot) ↔
      ∃ row ∈ snapshot, x ∈ f.samples row := by
    simp [Family.entries, sortedRows]
  have hSample (e : Entry) : e.sample? = some x ↔ e = .sample x := by
    cases e <;> simp [Entry.sample?]
  simp only [List.mem_filterMap, hSample, exists_eq_right, List.mem_flatMap, hEntry]
  constructor
  · intro ⟨f, hf, row, hRow, hx⟩
    exact ⟨row, hRow, f, hf, hx⟩
  · intro ⟨row, hRow, f, hf, hx⟩
    exact ⟨f, hf, row, hRow, hx⟩

variable (round : ℚ → ℚ)

/-! ### What the turns come to -/

/-- A copy of the table, whose rows are in no order. -/
structure Snapshot (r : Registry) (rows : Rows) : Prop where
  distinct : (rows.map Prod.fst).Nodup
  mem : ∀ l s, (l, s) ∈ rows ↔ r l = some s

/-- What the turns of a set of labels come to. -/
inductive Told (recs : List TimedRecord) (l : Labels) : Sample → Prop where
  | counter (c : Counter) :
      Told recs l (c.sample l ((recs.filter (labelsOf · = l)).map (c.ofTurn ·)).sum)
  | bucket (m : Metric) (bound : ℚ) (h : bound ∈ m.bounds) :
      Told recs l (m.bucket l (float.text bound) ((m.observed round recs l).countP (· ≤ bound)))
  | all (m : Metric) : Told recs l (m.bucket l "+Inf".toList (m.observed round recs l).length)
  | total (m : Metric) :
      Told recs l
        (m.total l (float.text ((m.observed round recs l).foldl (fun sum x => round (sum + x)) 0)))
  | counted (m : Metric) : Told recs l (m.counted l (m.observed round recs l).length)

variable {round}

theorem recorded_append (recs : List TimedRecord) (rec : TimedRecord) (l : Labels) :
    recorded round (recs ++ [rec]) l =
      if labelsOf rec = l then some (((recorded round recs l).getD {}).add round rec)
      else recorded round recs l := by
  rw [recorded, List.foldl_append]
  show record round (recorded round recs) rec l = _
  unfold record
  split_ifs with hLabels
  · rw [hLabels, Function.update_self]
  · exact Function.update_of_ne (Ne.symm hLabels) _ _

/-- What holds of nothing and is kept by each turn that is added holds of each
series and the turns that have its labels. -/
theorem recorded_induction {P : Series → List TimedRecord → Prop} (hEmpty : P {} [])
    (hAdd : ∀ s recs rec, P s recs → P (s.add round rec) (recs ++ [rec])) (recs : List TimedRecord)
    (l : Labels) : P ((recorded round recs l).getD {}) (recs.filter (labelsOf · = l)) := by
  induction recs using List.reverseRecOn with
  | nil => exact hEmpty
  | append_singleton recs rec ih =>
      rw [recorded_append, List.filter_append]
      split_ifs with hLabels
      · rw [List.filter_cons_of_pos (by simpa using hLabels)]
        exact hAdd _ _ _ ih
      · rw [List.filter_cons_of_neg (by simpa using hLabels), List.filter_nil, List.append_nil]
        exact ih

/-- There are series for the labels of the turns. -/
theorem isSome_recorded (recs : List TimedRecord) (l : Labels) :
    (recorded round recs l).isSome ↔ ∃ rec ∈ recs, labelsOf rec = l := by
  induction recs using List.reverseRecOn with
  | nil => simp [recorded]
  | append_singleton recs rec ih =>
      rw [recorded_append]
      split_ifs with hLabels
      · simp [hLabels]
      · simp [ih, hLabels]

theorem value_add (c : Counter) (s : Series) (rec : TimedRecord) :
    c.value (s.add round rec) = c.value s + c.ofTurn rec := by
  cases c <;> rfl

/-- A counter counts what the turns added. -/
theorem value_recorded (c : Counter) (recs : List TimedRecord) (l : Labels) :
    c.value ((recorded round recs l).getD {}) =
      ((recs.filter (labelsOf · = l)).map (c.ofTurn ·)).sum := by
  apply recorded_induction (P := fun s recs => c.value s = (recs.map (c.ofTurn ·)).sum)
  · cases c <;> rfl
  · intro s recs rec ih
    rw [value_add, ih, List.map_append, List.sum_append]
    simp

theorem sum_fold (h : Histogram) (value : Option ℚ) :
    (h.fold round value).sum = value.toList.foldl (fun sum x => round (sum + x)) h.sum := by
  cases value <;> rfl

/-- A sum has added each observation and rounded. -/
theorem sum_recorded (m : Metric) (recs : List TimedRecord) (l : Labels) :
    (m.histogram ((recorded round recs l).getD {})).sum =
      (m.observed round recs l).foldl (fun sum x => round (sum + x)) 0 := by
  apply recorded_induction (P := fun s recs => (m.histogram s).sum =
    (recs.filterMap (m.observation round ·)).foldl (fun sum x => round (sum + x)) 0)
  · cases m <;> rfl
  · intro s recs rec ih
    have hAdd : (m.histogram (s.add round rec)).sum =
        (m.observation round rec).toList.foldl (fun sum x => round (sum + x)) (m.histogram s).sum := by
      cases m with
      | latency => rfl
      | firstToken => exact sum_fold _ _
      | queue => exact sum_fold _ _
      | outputRate => exact sum_fold _ _
    rw [hAdd, ih, List.filterMap_append, List.foldl_append]
    cases hObserved : m.observation round rec <;> simp [hObserved]

theorem histogram_recorded (m : Metric) (recs : List TimedRecord) (l : Labels) :
    (m.histogram ((recorded round recs l).getD {})).bounds.zip
        (m.histogram ((recorded round recs l).getD {})).bucketCounts =
      m.bounds.map (fun b => (b, (m.observed round recs l).countP (· ≤ b))) ∧
    (m.histogram ((recorded round recs l).getD {})).count = (m.observed round recs l).length := by
  obtain ⟨hBounds, hCounts, hCount⟩ := @tallies_recorded round recs l
  generalize (recorded round recs l).getD {} = s at *
  have hHistogram : (m.histogram s).bounds = m.explicitBounds s ∧
      (m.histogram s).bucketCounts = m.counts s ∧ (m.histogram s).count = m.count s := by
    cases m <;> exact ⟨rfl, rfl, rfl⟩
  rw [hHistogram.1, hHistogram.2.1, hHistogram.2.2, hBounds, hCounts, hCount]
  exact ⟨List.map_prod_left_eq_zip.symm, rfl⟩

theorem counter_told (cs : List Counter) (name : Str) (recs : List TimedRecord) {l : Labels} {s : Series}
    (h : recorded round recs l = some s) (x : Sample) :
    x ∈ (counterFamily name cs).samples (l, s) ↔
      ∃ c ∈ cs, x = c.sample l ((recs.filter (labelsOf · = l)).map (c.ofTurn ·)).sum := by
  have hValue (c : Counter) := @value_recorded round c recs l
  simp only [h, Option.getD_some] at hValue
  simp only [counterFamily, List.mem_map, hValue, eq_comm]

theorem histogram_told (m : Metric) (recs : List TimedRecord) {l : Labels} {s : Series}
    (h : recorded round recs l = some s) (x : Sample) :
    x ∈ (histogramFamily float m).samples (l, s) ↔
      (∃ bound ∈ m.bounds,
        x = m.bucket l (float.text bound) ((m.observed round recs l).countP (· ≤ bound))) ∨
      x = m.bucket l "+Inf".toList (m.observed round recs l).length ∨
      x = m.total l (float.text ((m.observed round recs l).foldl (fun sum x => round (sum + x)) 0)) ∨
      x = m.counted l (m.observed round recs l).length := by
  obtain ⟨hZip, hCount⟩ := @histogram_recorded round m recs l
  have hSum := @sum_recorded round m recs l
  rw [h, Option.getD_some] at hZip hCount hSum
  show x ∈ _ ++ [_, _, _] ↔ _
  rw [hZip, hCount, hSum, List.mem_append, List.map_map, List.mem_map]
  simp only [List.mem_cons, List.not_mem_nil, or_false, Function.comp_apply, eq_comm]

/-- The samples of a row are what its turns come to. -/
theorem row_told (recs : List TimedRecord) {l : Labels} {s : Series}
    (h : recorded round recs l = some s) (x : Sample) :
    (∃ f ∈ families float, x ∈ f.samples (l, s)) ↔ Told float round recs l x := by
  simp only [families, List.mem_cons, List.not_mem_nil, or_false, exists_eq_or_imp, exists_eq_left,
    counter_told _ _ recs h, histogram_told float _ recs h]
  constructor
  · have hHistogram (m : Metric) (hx : (∃ bound ∈ m.bounds,
        x = m.bucket l (float.text bound) ((m.observed round recs l).countP (· ≤ bound))) ∨
        x = m.bucket l "+Inf".toList (m.observed round recs l).length ∨
        x = m.total l (float.text ((m.observed round recs l).foldl (fun sum x => round (sum + x)) 0)) ∨
        x = m.counted l (m.observed round recs l).length) : Told float round recs l x := by
      obtain ⟨bound, hBound, rfl⟩ | rfl | rfl | rfl := hx
      · exact .bucket m bound hBound
      · exact .all m
      · exact .total m
      · exact .counted m
    rintro (rfl | rfl | (rfl | rfl | rfl | rfl) | rfl | hx | hx | hx | hx)
    · exact .counter .requests
    · exact .counter .errors
    · exact .counter .input
    · exact .counter .output
    · exact .counter .cacheRead
    · exact .counter .cacheWrite
    · exact .counter .costMicros
    · exact hHistogram .latency hx
    · exact hHistogram .firstToken hx
    · exact hHistogram .queue hx
    · exact hHistogram .outputRate hx
  · intro hTold
    cases hTold with
    | counter c => cases c <;> simp
    | bucket m bound hBound =>
        have hx : ∃ b ∈ m.bounds, m.bucket l (float.text bound)
            ((m.observed round recs l).countP (· ≤ bound)) =
              m.bucket l (float.text b) ((m.observed round recs l).countP (· ≤ b)) :=
          ⟨bound, hBound, rfl⟩
        cases m with
        | latency => exact .inr (.inr (.inr (.inr (.inl (.inl hx)))))
        | firstToken => exact .inr (.inr (.inr (.inr (.inr (.inl (.inl hx))))))
        | queue => exact .inr (.inr (.inr (.inr (.inr (.inr (.inl (.inl hx)))))))
        | outputRate => exact .inr (.inr (.inr (.inr (.inr (.inr (.inr (.inl hx)))))))
    | all m => cases m <;> simp
    | total m => cases m <;> simp
    | counted m => cases m <;> simp

theorem Labels.key_injective {a b : Labels} (h : a.key = b.key) : a = b := by
  cases a
  cases b
  have hParts := congrArg ofLex h
  obtain ⟨hSurface, hRest⟩ := Prod.mk.inj hParts
  obtain ⟨hModel, hRest⟩ := Prod.mk.inj (congrArg ofLex hRest)
  obtain ⟨hProvider, hStatus⟩ := Prod.mk.inj (congrArg ofLex hRest)
  cases hSurface
  cases hModel
  cases hProvider
  cases hStatus
  rfl

theorem sorted_eq {r : Registry} {rows rows' : Rows} (h : Snapshot r rows) (h' : Snapshot r rows') :
    sortedRows rows = sortedRows rows' := by
  have hSorted (rows : Rows) : (sortedRows rows).Pairwise fun a b => a.1.key ≤ b.1.key :=
    List.pairwise_insertionSort _ _
  have hPerm : rows.Perm rows' := by
    apply (List.perm_ext_iff_of_nodup h.distinct.of_map h'.distinct.of_map).mpr
    intro row
    exact (h.mem row.1 row.2).trans (h'.mem row.1 row.2).symm
  apply List.Perm.eq_of_pairwise _ (hSorted rows) (hSorted rows')
    (((List.perm_insertionSort _ _).trans hPerm).trans (List.perm_insertionSort _ _).symm)
  intro a b ha hb hab hba
  have hLabels : a.1 = b.1 := Labels.key_injective (le_antisymm hab hba)
  have hFirst := (h.mem a.1 a.2).mp ((List.mem_insertionSort _).mp ha)
  have hSecond := (h'.mem b.1 b.2).mp ((List.mem_insertionSort _).mp hb)
  rw [hLabels, hSecond] at hFirst
  exact Prod.ext hLabels (Option.some.inj hFirst).symm

variable (round)

/-- A scrape can be read, whatever stands in its labels. It has, for each set of
labels that a turn had, what the turns with these come to, and nothing else. It is
the same text for every order of the table. -/
theorem scraped (recs : List TimedRecord) {rows : Rows} (h : Snapshot (recorded round recs) rows) :
    (∃ samples, samplesOf (renderPrometheus float rows) = some samples ∧
      ∀ x, x ∈ samples ↔ ∃ rec ∈ recs, Told float round recs (labelsOf rec) x) ∧
    ∀ rows', Snapshot (recorded round recs) rows' →
      renderPrometheus float rows' = renderPrometheus float rows := by
  constructor
  · obtain ⟨samples, hRead, hSamples⟩ := samplesOf_renderPrometheus float rows
    refine ⟨samples, hRead, ?_⟩
    intro x
    rw [hSamples]
    constructor
    · intro ⟨(l, s), hRow, hx⟩
      have hSeries := (h.mem l s).mp hRow
      obtain ⟨rec, hRec, rfl⟩ := (isSome_recorded recs l).mp (Option.isSome_of_mem hSeries)
      exact ⟨rec, hRec, (row_told float recs hSeries x).mp hx⟩
    · intro ⟨rec, hRec, hTold⟩
      obtain ⟨s, hSeries⟩ :=
        Option.isSome_iff_exists.mp ((@isSome_recorded round recs _).mpr ⟨rec, hRec, rfl⟩)
      exact ⟨(labelsOf rec, s), (h.mem _ s).mpr hSeries, (row_told float recs hSeries x).mpr hTold⟩
  · intro rows' h'
    unfold renderPrometheus
    rw [sorted_eq h' h]

end

/-- Floats that are whole numbers, as they are printed. -/
def wholes : FloatText where
  text x := if x < 0 then '-' :: digits (-x).floor.toNat else digits x.floor.toNat
  plain := by
    intro x c hc
    split_ifs at hc
    · rcases List.mem_cons.mp hc with rfl | hc
      · exact .inr (.inr rfl)
      · exact digits_plain _ c hc
    · exact digits_plain _ c hc

theorem shortTurn_scraped : ∃ rows samples, Snapshot (recorded id [shortTurn]) rows ∧
    samplesOf (renderPrometheus wholes rows) = some samples ∧
      Counter.requests.sample (labelsOf shortTurn) 1 ∈ samples := by
  have hSeries (l : Labels) : recorded id [shortTurn] l =
      if labelsOf shortTurn = l then some (({} : Series).add id shortTurn) else none :=
    recorded_append [] shortTurn l
  have hRows : Snapshot (recorded id [shortTurn]) [(labelsOf shortTurn, ({} : Series).add id shortTurn)] := by
    constructor
    · exact List.nodup_singleton _
    · intro l s
      rw [hSeries]
      split_ifs with hLabels
      · simp [hLabels, eq_comm]
      · simp [Ne.symm hLabels]
  obtain ⟨samples, hRead, hSamples⟩ := (scraped wholes id [shortTurn] hRows).1
  refine ⟨_, samples, hRows, hRead, (hSamples _).mpr ⟨shortTurn, List.mem_cons_self, ?_⟩⟩
  have hTold := @Told.counter wholes id [shortTurn] (labelsOf shortTurn) .requests
  simpa [Counter.ofTurn] using hTold

end Gateway.Otel
