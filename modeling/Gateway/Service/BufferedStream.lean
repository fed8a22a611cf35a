import Gateway.Service.Handle
import Gateway.Service.StreamEnd
import Gateway.Wire.EncoderSettings
import Gateway.Wire.Gemini.Response
import Gateway.Wire.Lifecycle.Ended
import Gateway.Wire.OpenaiResponses.Response
import Gateway.Wire.Reader

/-! A buffered response for a client that asked for a stream, against the relay
of a stream with the same events. Both put the events through an encoder, and
only the relay's is told what the client asked for. -/
namespace Gateway

open Json Wire

/-! ### What a client takes from a stream -/

namespace Wire.Gemini

structure Reader where
  text : Str := []
  calls : List PartialTool := []

/-- Calls have names and no ids. -/
def Reader.readPart (r : Reader) (p : Value) : Reader :=
  match optStr p "text", p.get "functionCall" with
  | some text, _ => { r with text := r.text ++ text }
  | none, some fc =>
      { r with calls := r.calls ++
        [⟨[], (optStr fc "name").getD [], ((fc.get "args").getD (obj [])).render⟩] }
  | none, none => r

def Reader.readFrame (r : Reader) (f : Frame) : Reader :=
  match f.payload with
  | .json v =>
      let content := ((firstCandidate v).bind (·.get "content")).getD .null
      ((optArr content "parts").getD []).foldl Reader.readPart r
  | .done => r

def Reader.reading (r : Reader) : Reading := ⟨r.text, [], r.calls⟩

end Wire.Gemini

namespace Service

/-- The text, the thinking and the calls of a stream. -/
def readingOn (surface : WireFormat) (frames : List Frame) : Reading :=
  match surface with
  | .anthropic => Anthropic.reading (frames.foldl Anthropic.Reader.readFrame {}).blocks
  | .openaiChat => (frames.foldl OpenaiChat.Reader.readFrame {}).reading
  | .openaiResponses => (frames.foldl OpenaiResponses.Reader.readFrame {}).reading
  | .gemini => (frames.foldl Gemini.Reader.readFrame {}).reading

/-- The document of a frame; the sentinel is none. -/
def document (f : Frame) : Option Value :=
  match f.payload with
  | .json v => some v
  | .done => none

/-- What the documents of a stream tell, one after the other. -/
def told {α : Type} (tells : Value → Option α) (frames : List Frame) : List α :=
  (frames.filterMap document).filterMap tells

def stopReasonIn (surface : WireFormat) (v : Value) : Option Value :=
  match surface with
  | .anthropic => (v.get "delta").bind (·.get "stop_reason")
  | .openaiChat => ((OpenaiChat.firstChoice v).bind (·.get "finish_reason")).filter (!·.isNull)
  | .openaiResponses => (v.get "response").bind (·.get "status")
  | .gemini => (Gemini.firstCandidate v).bind (·.get "finishReason")

def usageIn (surface : WireFormat) (v : Value) : Option Value :=
  match surface with
  | .anthropic => (v.get "usage").or ((v.get "message").bind (·.get "usage"))
  | .openaiChat => v.get "usage"
  | .openaiResponses => (v.get "response").bind (·.get "usage")
  | .gemini => v.get "usageMetadata"

/-- The prompt-cache fields of a response object. -/
def echoIn (surface : WireFormat) (v : Value) : Option (Option Str × Option Str) :=
  match surface with
  | .openaiResponses => (v.get "response").map fun r =>
      (optStr r "prompt_cache_key", optStr r "prompt_cache_retention")
  | _ => none

/-- What a client has of a stream. -/
structure ClientView where
  reading : Reading
  stopReasons : List Value
  usage : List Value
  echoes : List (Option Str × Option Str)
  /-- How many frames end the answer. -/
  ends : Nat
  deriving DecidableEq

def viewOf (surface : WireFormat) (frames : List Frame) : ClientView where
  reading := readingOn surface frames
  stopReasons := told (stopReasonIn surface) frames
  usage := told (usageIn surface) frames
  echoes := told (echoIn surface) frames
  ends := frames.countP (isTerminal surface)

theorem told_json {α : Type} (tells : Value → Option α) (event : Option String) (v : Value)
    (rest : List Frame) : told tells (⟨event, .json v⟩ :: rest) = (tells v).toList ++ told tells rest := by
  cases hTells : tells v <;> simp [told, document, hTells]

theorem told_append {α : Type} (tells : Value → Option α) (frames more : List Frame) :
    told tells (frames ++ more) = told tells frames ++ told tells more := by
  simp [told]

/-! ### The events of a response -/

/-- The events of a response before its stop reason; the last is its usage. -/
def eventsBefore (resp : ChatResponse) : List StreamEvent :=
  .messageStart resp.model :: resp.content.flatMap ContentBlock.streamEvents ++
    [.usageDelta resp.usage]

theorem eventsFromResponse_eq (resp : ChatResponse) :
    eventsFromResponse resp = eventsBefore resp ++ [.done resp.stopReason] := by
  simp [eventsFromResponse, eventsBefore]

theorem eventsBefore_not_done (resp : ChatResponse) : ∀ e ∈ eventsBefore resp, e.isDone = false := by
  intro e he
  rcases List.mem_append.mp he with hStart | hUsage
  · rcases List.mem_cons.mp hStart with rfl | hContent
    · rfl
    · obtain ⟨b, -, hb⟩ := List.mem_flatMap.mp hContent
      cases b with
      | text t | thinking t signature =>
          cases List.mem_singleton.mp hb
          rfl
      | toolUse id name input => rcases List.mem_pair.mp hb with rfl | rfl <;> rfl
      | _ => cases hb
  · cases List.mem_singleton.mp hUsage
    rfl

namespace Encoder

/-- The frames of a response's events owe nothing when the upstream ends. -/
theorem finish_of_response {enc : Encoder} {t : Track} (h : enc.Follows t) (hSound : t.Sound)
    (resp : ChatResponse) : (enc.encode (eventsFromResponse resp)).2.finish.1 = [] := by
  have hOwes := finish_owes (h.encodeAll (eventsFromResponse resp))
    (@Track.Sound.afterAll enc.surface _ hSound (eventsFromResponse resp))
  refine hOwes.1 ?_
  rw [eventsFromResponse_eq, eventsBefore, List.foldl_append, List.foldl_append]
  simp [Track.after, Gate.after]

/-- A relay that leaves events unread has stopped before the upstream closed. -/
theorem stops_of_cut {enc : Encoder} {batches : List (List StreamEvent)}
    (hCut : (enc.cut batches).2 ≠ []) : enc.stops batches = true := by
  induction batches generalizing enc with
  | nil => exact absurd rfl hCut
  | cons batch rest ih =>
      unfold Encoder.cut at hCut
      by_cases hCloses : enc.Closes batch
      · rw [if_pos hCloses] at hCut
        have hRest : rest ≠ [] := by
          rintro rfl
          exact hCut rfl
        rw [stops_cons hRest, decide_eq_true hCloses, Bool.true_or]
      · rw [if_neg hCloses] at hCut
        have hStops := ih hCut
        have hRest : rest ≠ [] := by
          rintro rfl
          exact Bool.false_ne_true hStops
        rw [stops_cons hRest, hStops, Bool.or_true]

theorem ends_forTurn_of_none (surface : WireFormat) (includeUsage : Bool)
    (echo : Option Str × Option Str) {events : List StreamEvent}
    (hNone : events.any StreamEvent.isDone = false) :
    (Encoder.forTurn surface includeUsage echo).ends events = false := by
  cases surface <;> simp [Encoder.forTurn, Encoder.new, Encoder.setPromptCache,
    Encoder.setIncludeUsage, ends, Gate.ends, hNone, OpenaiChat.EmitState.gate,
    OpenaiChat.EmitState.setIncludeUsage, OpenaiResponses.EmitState.gate,
    OpenaiResponses.EmitState.setPromptCache]

theorem ends_new_response (surface : WireFormat) (resp : ChatResponse) :
    (Encoder.new surface).ends (eventsFromResponse resp) = true := by
  rw [eventsFromResponse_eq, eventsBefore]
  cases surface <;> simp [Encoder.new, ends, Gate.ends, StreamEvent.isDone, StreamEvent.isUsage,
    OpenaiChat.EmitState.gate]

theorem surface_forTurn (surface : WireFormat) (includeUsage : Bool) (echo : Option Str × Option Str) :
    (Encoder.forTurn surface includeUsage echo).surface = surface := by
  cases surface <;> rfl

theorem surface_new (surface : WireFormat) : (Encoder.new surface).surface = surface := by
  cases surface <;> rfl

/-- An encoder that is told of nothing is a new one. -/
theorem encode_forTurn {surface : WireFormat} {includeUsage : Bool} {echo : Option Str × Option Str}
    (hUsage : surface = .openaiChat → includeUsage = false)
    (hEcho : surface = .openaiResponses → echo.1 = none) (events : List StreamEvent) :
    ((Encoder.forTurn surface includeUsage echo).encode events).1 =
      ((Encoder.new surface).encode events).1 := by
  cases surface with
  | anthropic | gemini => rfl
  | openaiChat =>
      rw [hUsage rfl]
      rfl
  | openaiResponses =>
      have hSame : OpenaiResponses.cacheFields echo.1 echo.2 =
          OpenaiResponses.cacheFields none none := by
        rw [hEcho rfl]
        rfl
      have hFrames := congrArg Prod.fst (OpenaiResponses.encodeSse_setPromptCache (s := {}) hSame events)
      exact hFrames

end Encoder

/-! ### Both ways to a stream -/

namespace Inbound

variable (t : Inbound)

/-- The stream of a buffered response. -/
def bufferedFrames (resp : ChatResponse) : List Frame :=
  ((Encoder.new t.surface).encode (eventsFromResponse resp)).1

/-- The relay of a body that comes in chunks. -/
def relayedFrames (upstream : WireFormat) (status : Nat) (chunks : List (List UInt8)) : List Frame :=
  ((translateStream upstream t.surface t.ctx.requestId status t.cacheEcho t.chat.includeUsage).drive
    (delivered chunks)).2

def relayEncoder : Encoder := Encoder.forTurn t.surface t.chat.includeUsage t.cacheEcho

/-- The events that the relay reads, and those it leaves unread. -/
def relayCut (upstream : WireFormat) (chunks : List (List UInt8)) :
    List StreamEvent × List StreamEvent :=
  t.relayEncoder.cut (batchesFrom [] (Decoder.new upstream) chunks)

/-- The relay takes no batch for the end while others are to come. -/
def ReadsAll (upstream : WireFormat) (chunks : List (List UInt8)) : Prop :=
  (t.relayCut upstream chunks).2 = []

instance (upstream : WireFormat) (chunks : List (List UInt8)) :
    Decidable (t.ReadsAll upstream chunks) := inferInstanceAs (Decidable (_ = []))

variable {t} {upstream : WireFormat} {status : Nat} {chunks : List (List UInt8)} {resp : ChatResponse}

theorem relayedFrames_cut : t.relayedFrames upstream status chunks =
    (t.relayEncoder.encode (t.relayCut upstream chunks).1).1 ++
      bif t.relayEncoder.stops (batchesFrom [] (Decoder.new upstream) chunks) then []
      else (t.relayEncoder.encode (t.relayCut upstream chunks).1).2.finish.1 :=
  StreamState.drive_frames _ rfl rfl chunks

theorem relayCut_append (upstream : WireFormat) (chunks : List (List UInt8)) :
    (t.relayCut upstream chunks).1 ++ (t.relayCut upstream chunks).2 =
      bodyEvents upstream chunks.flatten := by
  rw [relayCut, Encoder.cut_append, batchesFrom_flatten]

/-- A relay that reads all puts the events through its encoder. -/
theorem relayedFrames_eq (hSame : bodyEvents upstream chunks.flatten = eventsFromResponse resp)
    (hAll : t.ReadsAll upstream chunks) :
    t.relayedFrames upstream status chunks = (t.relayEncoder.encode (eventsFromResponse resp)).1 := by
  have hSeen : (t.relayCut upstream chunks).1 = eventsFromResponse resp := by
    rw [← hSame, ← relayCut_append, hAll, List.append_nil]
  have hFinish : (t.relayEncoder.encode (eventsFromResponse resp)).2.finish.1 = [] :=
    Encoder.finish_of_response (Encoder.follows_start t.surface t.chat.includeUsage t.cacheEcho)
      (Track.sound_start t.surface t.chat.includeUsage) resp
  rw [relayedFrames_cut, hSeen, hFinish, Bool.cond_self, List.append_nil]

/-- A relay that stops early gives the client no end. -/
theorem ends_relayedFrames (hSame : bodyEvents upstream chunks.flatten = eventsFromResponse resp)
    (hCut : ¬ t.ReadsAll upstream chunks) :
    (viewOf t.surface (t.relayedFrames upstream status chunks)).ends = 0 := by
  have hNone : (t.relayCut upstream chunks).1.any StreamEvent.isDone = false := by
    have hSplit := relayCut_append (t := t) upstream chunks
    obtain ⟨later, last, hLater⟩ := (List.eq_nil_or_concat' _).resolve_left hCut
    rw [hSame, eventsFromResponse_eq, hLater, ← List.append_assoc] at hSplit
    have hFront := List.append_inj_left' hSplit rfl
    rw [List.any_eq_false]
    intro e he
    have hMem : e ∈ eventsBefore resp := hFront ▸ List.mem_append_left later he
    simp [eventsBefore_not_done resp e hMem]
  have hSurface : t.relayEncoder.surface = t.surface := Encoder.surface_forTurn _ _ _
  have hAny := Encoder.any_isTerminal t.relayEncoder (t.relayCut upstream chunks).1
  rw [hSurface, show t.relayEncoder.ends (t.relayCut upstream chunks).1 = false from
    Encoder.ends_forTurn_of_none _ _ _ hNone] at hAny
  rw [relayedFrames_cut, Encoder.stops_of_cut hCut, cond_true, List.append_nil]
  rw [viewOf, List.countP_eq_zero]
  exact fun f hf => by simpa using List.any_eq_false.mp hAny f hf

theorem ends_bufferedFrames (t : Inbound) (resp : ChatResponse) :
    0 < (viewOf t.surface (t.bufferedFrames resp)).ends := by
  have hAny := Encoder.any_isTerminal (Encoder.new t.surface) (eventsFromResponse resp)
  rw [Encoder.surface_new, Encoder.ends_new_response] at hAny
  obtain ⟨f, hf, hTerminal⟩ := List.any_eq_true.mp hAny
  exact List.countP_pos_iff.mpr ⟨f, hf, hTerminal⟩

/-- Before the end, a Chat Completions encoder has the response's usage. -/
theorem usage_eventsBefore (resp : ChatResponse) (s : OpenaiChat.EmitState) :
    ((OpenaiChat.encodeSse (eventsBefore resp) s).2.usage).isSome = true := by
  have hGate := Gate.run_gate OpenaiChat.gate_encodeEvent s (eventsBefore resp)
  rw [eventsBefore, List.foldl_append] at hGate
  exact congrArg Gate.reported hGate

/-- A Chat Completions stream with its usage, and without. -/
theorem frames_includeUsage (resp : ChatResponse) (echo : Option Str × Option Str) :
    ∃ shown s u, ((Encoder.new .openaiChat).encode (eventsFromResponse resp)).1 =
        shown ++ [.sentinel] ∧
      ((Encoder.forTurn .openaiChat true echo).encode (eventsFromResponse resp)).1 =
        shown ++ [OpenaiChat.writeUsageChunk s u, .sentinel] := by
  let before := OpenaiChat.encodeSse (eventsBefore resp) {}
  obtain ⟨u, hUsage⟩ := Option.isSome_iff_exists.mp (usage_eventsBefore resp {})
  obtain ⟨closing, hPlain, hAsked⟩ :=
    OpenaiChat.encodeEvent_done before.2 resp.stopReason hUsage
  have hFrames (on : Bool) : (OpenaiChat.encodeSse (eventsFromResponse resp)
      (OpenaiChat.EmitState.setIncludeUsage {} on)).1 = before.1 ++
        (OpenaiChat.encodeEvent (before.2.setIncludeUsage on) (.done resp.stopReason)).1 := by
    have hBefore := OpenaiChat.encodeSse_setIncludeUsage {} on (eventsBefore_not_done resp)
    unfold OpenaiChat.encodeSse at hBefore ⊢
    rw [eventsFromResponse_eq, Transducer.run_append, hBefore, Transducer.run_cons,
      Transducer.run_nil, List.append_nil]
    rfl
  refine ⟨before.1 ++ closing, before.2, u, ?_, ?_⟩
  · rw [List.append_assoc, ← hPlain]
    exact hFrames false
  · rw [List.append_assoc, ← hAsked]
    exact hFrames true

/-- A Responses stream begins with the fields to echo. -/
theorem echoes_head (resp : ChatResponse) (includeUsage : Bool) (echo : Option Str × Option Str) :
    (told (echoIn .openaiResponses) ((Encoder.forTurn .openaiResponses includeUsage echo).encode
      (eventsFromResponse resp)).1).head? =
        some (echo.1, echo.1.map fun _ => echo.2.getD "24h".toList) := by
  let created : OpenaiResponses.EmitState :=
    { model := resp.model
      respId := "resp_stream".toList
      promptCacheKey := echo.1
      promptCacheRetention := echo.2 }
  obtain ⟨rest, hFrames⟩ : ∃ rest, ((Encoder.forTurn .openaiResponses includeUsage echo).encode
      (eventsFromResponse resp)).1 = Frame.named "response.created"
        (obj [("type", .string "response.created".toList),
          ("response", created.responseObj "in_progress" []), ("sequence_number", .nat 0)]) :: rest :=
    ⟨_, rfl⟩
  have hTold : echoIn .openaiResponses (obj [("type", .string "response.created".toList),
      ("response", created.responseObj "in_progress" []), ("sequence_number", .nat 0)]) =
        some (echo.1, echo.1.map fun _ => echo.2.getD "24h".toList) := by
    simp only [echoIn, OpenaiResponses.EmitState.responseObj, created]
    cases echo.1 <;> simp [OpenaiResponses.cacheFields]
  rw [hFrames, Frame.named, told_json, hTold]
  rfl

theorem view_eq_iff (hSame : bodyEvents upstream chunks.flatten = eventsFromResponse resp) :
    viewOf t.surface (t.bufferedFrames resp) =
        viewOf t.surface (t.relayedFrames upstream status chunks) ↔
      (t.surface = .openaiChat → t.chat.includeUsage = false) ∧
        (t.surface = .openaiResponses → t.chat.promptCacheKey = none) ∧
          t.ReadsAll upstream chunks := by
  constructor
  · intro hView
    have hAll : t.ReadsAll upstream chunks := by
      by_contra hCut
      have hEnds := congrArg ClientView.ends hView
      rw [ends_relayedFrames hSame hCut] at hEnds
      exact absurd hEnds (ends_bufferedFrames t resp).ne'
    rw [relayedFrames_eq hSame hAll, bufferedFrames, relayEncoder] at hView
    refine ⟨fun hSurface => ?_, fun hSurface => ?_, hAll⟩
    · rw [hSurface] at hView
      by_contra hAsked
      rw [Bool.not_eq_false] at hAsked
      obtain ⟨shown, s, u, hPlain, hUsage⟩ := frames_includeUsage resp t.cacheEcho
      rw [hAsked, hPlain, hUsage] at hView
      have hReports : told (usageIn .openaiChat) (shown ++ [.sentinel]) =
          told (usageIn .openaiChat) (shown ++ [OpenaiChat.writeUsageChunk s u, .sentinel]) :=
        congrArg ClientView.usage hView
      rw [told_append, told_append, OpenaiChat.writeUsageChunk, Frame.data, told_json] at hReports
      have hLength := congrArg List.length (List.append_cancel_left hReports)
      simp [usageIn, OpenaiChat.envelope] at hLength
    · rw [hSurface] at hView
      have hPlain := echoes_head resp t.chat.includeUsage (none, none)
      have hEchoes := congrArg (fun view => view.echoes.head?) hView
      exact (congrArg Prod.fst (Option.some.inj ((hPlain.symm.trans hEchoes).trans
        (echoes_head resp t.chat.includeUsage t.cacheEcho)))).symm
  · rintro ⟨hUsage, hEcho, hAll⟩
    rw [relayedFrames_eq hSame hAll, bufferedFrames, relayEncoder,
      Encoder.encode_forTurn hUsage hEcho]

/-- A client that asked for a stream gets a buffered response as one. -/
theorem accept_buffered (d : Deployment) {f : WireFormat} {bytes : List UInt8}
    (hStream : t.chat.stream = true) (hParsed : t.codec.parseResponse f bytes = .ok resp) :
    ∃ pending, (t.accept d f status (.full bytes)).2.stage =
      .recording pending (.once status (t.bufferedFrames resp)) := by
  simp only [accept, hParsed, hStream, if_true]
  exact ⟨_, rfl⟩

/-- The stream of a buffered response tells a client what the relay of the same
events does exactly when the client did not ask for Chat Completions usage and
gave no prompt-cache key of a Responses request, and the relay reads all. -/
theorem buffered_as_relayed_iff (t : Inbound) (d : Deployment) (f upstream : WireFormat)
    (status : Nat) (bytes : List UInt8) (resp : ChatResponse) (chunks : List (List UInt8))
    (hStream : t.chat.stream = true) (hParsed : t.codec.parseResponse f bytes = .ok resp)
    (hSame : bodyEvents upstream chunks.flatten = eventsFromResponse resp) :
    ∃ pending frames, (t.accept d f status (.full bytes)).2.stage =
        .recording pending (.once status frames) ∧
      (viewOf t.surface frames = viewOf t.surface (t.relayedFrames upstream status chunks) ↔
        (t.surface = .openaiChat → t.chat.includeUsage = false) ∧
          (t.surface = .openaiResponses → t.chat.promptCacheKey = none) ∧
            t.ReadsAll upstream chunks) := by
  obtain ⟨pending, hStage⟩ := accept_buffered d hStream hParsed
  exact ⟨pending, t.bufferedFrames resp, hStage, view_eq_iff hSame⟩

/-- A short answer of a Responses upstream, whole and in a stream. -/
def shortAnswer : Value :=
  obj [("model", .string "m".toList), ("status", .string "completed".toList),
    ("output", .array [obj [("type", .string "message".toList),
      ("content", .array [obj [("type", .string "output_text".toList),
        ("text", .string "Hi".toList)]])]]),
    ("usage", obj [("input_tokens", .nat 3), ("output_tokens", .nat 2)])]

def shortChunks : List (List UInt8) :=
  [frameBytes [
    .data (obj [("type", .string "response.created".toList), ("response", shortAnswer)]),
    .data (obj [("type", .string "response.output_text.delta".toList),
      ("delta", .string "Hi".toList)]),
    .data (obj [("type", .string "response.completed".toList), ("response", shortAnswer)])]]

def streamedTurn (surface : WireFormat) (chat : ChatRequest) : Inbound where
  codec :=
    { emitRequest := fun _ _ _ => .error (.wire [])
      parseResponse := fun _ bytes =>
        (OpenaiResponses.parseResponse bytes).mapError fun _ => .wire []
      emitResponse := fun _ _ => .error (.wire []) }
  surface
  chat := { chat with stream := true }
  ctx := { access := {}, excludedModelIds := [], excludedProviderIds := [] }
  resolved := .ok []

def answering : Deployment := { modelId := "m".toList, providerId := "p".toList }

theorem parse_shortAnswer (surface : WireFormat) (chat : ChatRequest) :
    (streamedTurn surface chat).codec.parseResponse .openaiResponses
      (Text.toUtf8 shortAnswer.render) = .ok (OpenaiResponses.responseOf shortAnswer) := by
  have hBody : fromSlice (Text.toUtf8 shortAnswer.render) = some shortAnswer := by decide +kernel
  have hParse : OpenaiResponses.parseResponse (Text.toUtf8 shortAnswer.render) =
      .ok (OpenaiResponses.responseOf shortAnswer) := by rw [OpenaiResponses.parseResponse, hBody]
  simp only [streamedTurn, hParse]
  rfl

theorem shortChunks_events : bodyEvents .openaiResponses shortChunks.flatten =
    eventsFromResponse (OpenaiResponses.responseOf shortAnswer) := by
  decide +kernel

/-- A client that asked for nothing more. -/
theorem buffered_as_relayed_short :
    ∃ pending frames, ((streamedTurn .openaiChat {}).accept answering .openaiResponses 200
        (.full (Text.toUtf8 shortAnswer.render))).2.stage = .recording pending (.once 200 frames) ∧
      (viewOf .openaiChat frames = viewOf .openaiChat
          ((streamedTurn .openaiChat {}).relayedFrames .openaiResponses 200 shortChunks) ↔
        (WireFormat.openaiChat = .openaiChat → false = false) ∧
          (WireFormat.openaiChat = .openaiResponses → (none : Option Str) = none) ∧
            (streamedTurn .openaiChat {}).ReadsAll .openaiResponses shortChunks) :=
  buffered_as_relayed_iff (streamedTurn .openaiChat {}) answering .openaiResponses .openaiResponses
    200 _ _ shortChunks rfl (parse_shortAnswer _ _) shortChunks_events

/-- A Chat Completions client that asked for usage gets none from a buffered
response. -/
theorem buffered_stream_untold :
    ¬ ∀ (t : Inbound) (d : Deployment) (f upstream : WireFormat) (status : Nat)
        (bytes : List UInt8) (resp : ChatResponse) (chunks : List (List UInt8)),
      t.chat.stream = true → t.codec.parseResponse f bytes = .ok resp →
        bodyEvents upstream chunks.flatten = eventsFromResponse resp →
          ∃ pending frames, (t.accept d f status (.full bytes)).2.stage =
              .recording pending (.once status frames) ∧
            viewOf t.surface frames =
              viewOf t.surface (t.relayedFrames upstream status chunks) := by
  intro h
  let t := streamedTurn .openaiChat { includeUsage := true }
  have hParsed := parse_shortAnswer .openaiChat { includeUsage := true }
  obtain ⟨pending, frames, hStage, hView⟩ := h t answering .openaiResponses .openaiResponses 200
    (Text.toUtf8 shortAnswer.render) _ shortChunks rfl hParsed shortChunks_events
  obtain ⟨recorded, hBuffered⟩ := @accept_buffered t 200 _ answering _ _
    (show t.chat.stream = true from rfl) hParsed
  rw [hBuffered] at hStage
  cases hStage
  have hTold := (view_eq_iff shortChunks_events).mp hView
  exact Bool.noConfusion (hTold.1 rfl)

end Inbound

end Service

end Gateway
