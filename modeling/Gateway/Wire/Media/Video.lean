import Gateway.Text.Base64Url
import Gateway.Wire.Media

/-! A video's id. The engine that makes a video names it after the model, the job
and a signature, so that a later request finds its way without any state. -/
namespace Gateway.Wire.Media

open Json Text

/-- The part before the last separator, and the part after it. -/
def rsplitOnce (separator : Char) (s : Str) : Option (Str × Str) :=
  (splitOnce separator s.reverse).map fun (after, before) => (before.reverse, after.reverse)

theorem rsplitOnce_eq_some {separator : Char} {s before after : Str} :
    rsplitOnce separator s = some (before, after) ↔
      s = before ++ separator :: after ∧ separator ∉ after := by
  unfold rsplitOnce
  rw [Option.map_eq_some_iff]
  constructor
  · rintro ⟨⟨back, front⟩, hSplit, hParts⟩
    obtain ⟨hText, hNot⟩ := splitOnce_eq_some.mp hSplit
    cases hParts
    refine ⟨?_, by rwa [List.mem_reverse]⟩
    rw [← List.reverse_reverse s, hText]
    simp
  · rintro ⟨rfl, hNot⟩
    refine ⟨(after.reverse, before.reverse), splitOnce_eq_some.mpr ⟨by simp, ?_⟩, by simp⟩
    rwa [List.mem_reverse]

/-- The upstream model that a video's id names. -/
def videoModel (id : Str) : Except WireError Str :=
  let invalid := Except.error (.invalidField "video".toList "not a video this gateway routes".toList)
  match stripPrefix "video_".toList id with
  | none => invalid
  | some encoded =>
      match (Base64Url.decode encoded).bind fromUtf8 with
      | none => invalid
      | some raw =>
          match rsplitOnce '/' raw with
          | none => invalid
          | some (rest, signature) =>
              match rsplitOnce '/' rest with
              | none => invalid
              | some (model, job) =>
                  if model.isEmpty || job.isEmpty || signature.isEmpty then invalid else .ok model

/-- What an engine names a video. The model may hold slashes. -/
def videoId (model job signature : Str) : Str :=
  "video_".toList ++ Base64Url.encode (toUtf8 (model ++ '/' :: (job ++ '/' :: signature)))

/-- The parts of an id that an engine gives. -/
structure VideoParts (model job signature : Str) : Prop where
  model : model ≠ []
  job : job ≠ [] ∧ '/' ∉ job
  signature : signature ≠ [] ∧ '/' ∉ signature

theorem payload_eq_some {encoded raw : Str} :
    (Base64Url.decode encoded).bind fromUtf8 = some raw ↔ encoded = Base64Url.encode (toUtf8 raw) := by
  rw [Option.bind_eq_some_iff]
  constructor
  · rintro ⟨bytes, hDecode, hText⟩
    rw [Base64Url.decode_eq_some.mp hDecode, fromUtf8_eq_some.mp hText]
  · rintro rfl
    exact ⟨_, Base64Url.decode_encode _, fromUtf8_toUtf8 raw⟩

theorem videoModel_eq_ok {id model : Str} :
    videoModel id = .ok model ↔ ∃ job signature, VideoParts model job signature ∧
      id = videoId model job signature := by
  constructor
  · intro h
    unfold videoModel at h
    dsimp only at h
    split at h
    · cases h
    next encoded hPrefix =>
    split at h
    · cases h
    next raw hRaw =>
    split at h
    · cases h
    next rest signature hSignature =>
    split at h
    · cases h
    next found job hJob =>
    split_ifs at h with hEmpty
    cases h
    simp only [Bool.or_eq_true, List.isEmpty_iff, not_or] at hEmpty
    obtain ⟨rfl, hNoSlash⟩ := rsplitOnce_eq_some.mp hSignature
    obtain ⟨rfl, hJobSlash⟩ := rsplitOnce_eq_some.mp hJob
    refine ⟨job, signature, ⟨hEmpty.1.1, ⟨hEmpty.1.2, hJobSlash⟩, hEmpty.2, hNoSlash⟩, ?_⟩
    have hText : model ++ '/' :: job ++ '/' :: signature =
        model ++ '/' :: (job ++ '/' :: signature) := by simp
    rw [hText] at hRaw
    unfold videoId
    exact (stripPrefix_eq_some.mp hPrefix).trans
      (congrArg ("video_".toList ++ ·) (payload_eq_some.mp hRaw))
  · rintro ⟨job, signature, ⟨hModel, ⟨hJob, hJobSlash⟩, hSignature, hNoSlash⟩, rfl⟩
    have hPrefix : stripPrefix "video_".toList (videoId model job signature) =
        some (Base64Url.encode (toUtf8 (model ++ '/' :: (job ++ '/' :: signature)))) :=
      stripPrefix_eq_some.mpr rfl
    have hLast : rsplitOnce '/' (model ++ '/' :: (job ++ '/' :: signature)) =
        some (model ++ '/' :: job, signature) := rsplitOnce_eq_some.mpr ⟨by simp, hNoSlash⟩
    have hFirst : rsplitOnce '/' (model ++ '/' :: job) = some (model, job) :=
      rsplitOnce_eq_some.mpr ⟨rfl, hJobSlash⟩
    unfold videoModel
    simp only [hPrefix, payload_eq_some.mpr rfl, hLast, hFirst]
    rw [if_neg (by simp [hModel, hJob, hSignature])]

/-- The characters that stand for themselves in one segment of a path. -/
def SegmentChar (c : Char) : Prop := c.isAlphanum = true ∨ c = '-' ∨ c = '_'

theorem segment_videoId (model job signature : Str) :
    ∀ c ∈ videoId model job signature, SegmentChar c := by
  unfold videoId
  rw [List.forall_mem_append]
  refine ⟨?_, Base64Url.mem_encode _⟩
  have hLead : "video_".toList.all (fun c => c.isAlphanum || c == '-' || c == '_') = true := by decide
  intro c hc
  have hChar := List.all_eq_true.mp hLead c hc
  simpa [SegmentChar, or_assoc] using hChar

/-! ### The request about a video -/

inductive VideoLookup where
  | status
  | content
  | delete
  deriving DecidableEq

/-- The URL of a request about a video, behind that of the endpoint. -/
def lookupUrl (endpoint id : Str) (lookup : VideoLookup) : Str :=
  endpoint ++ '/' :: id ++ if lookup = .content then "/content".toList else []

/-- The segments of a path. -/
def segments (path : Str) : List Str := path.splitOnP (· = '/')

theorem segments_append (path : Str) {segment : Str} (h : '/' ∉ segment) :
    segments (path ++ '/' :: segment) = segments path ++ [segment] := by
  have hOther : ∀ c ∈ segment, decide (c = '/') = false := by
    intro c hc
    exact decide_eq_false fun hSlash => h (hSlash ▸ hc)
  unfold segments
  rw [List.splitOnP_append_cons path segment (by simp), List.splitOnP_eq_singleton hOther]

theorem segments_lookupUrl (endpoint : Str) {id : Str} (h : '/' ∉ id) (lookup : VideoLookup) :
    segments (lookupUrl endpoint id lookup) =
      segments endpoint ++ id :: if lookup = .content then ["content".toList] else [] := by
  unfold lookupUrl
  split_ifs
  · have hContent : '/' ∉ "content".toList := by decide
    have hSplit := segments_append (endpoint ++ '/' :: id) hContent
    rw [segments_append endpoint h] at hSplit
    simpa using hSplit
  · rw [List.append_nil, segments_append endpoint h]

/-- Exactly the ids that an engine gives are accepted, with their model. An
accepted id holds only characters that stand for themselves, so that it is one
segment of the URL it is put in. -/
theorem video_ids (id : Str) :
    (∀ model, videoModel id = .ok model ↔ ∃ job signature, VideoParts model job signature ∧
      id = videoId model job signature) ∧
    ∀ model, videoModel id = .ok model → (∀ c ∈ id, SegmentChar c) ∧ ∀ endpoint lookup,
      segments (lookupUrl endpoint id lookup) =
        segments endpoint ++ id :: if lookup = .content then ["content".toList] else [] := by
  refine ⟨fun model => videoModel_eq_ok, fun model h => ?_⟩
  obtain ⟨job, signature, -, rfl⟩ := videoModel_eq_ok.mp h
  have hSegment := segment_videoId model job signature
  refine ⟨hSegment, fun endpoint lookup => segments_lookupUrl endpoint (fun hSlash => ?_) lookup⟩
  have hChar := hSegment '/' hSlash
  unfold SegmentChar at hChar
  exact absurd hChar (by decide)

end Gateway.Wire.Media
