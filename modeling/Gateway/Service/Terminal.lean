import Gateway.Service.Terminal.Anthropic
import Gateway.Service.Terminal.OpenaiChat
import Gateway.Service.Terminal.OpenaiResponses

/-! When the test for the end of an answer, made on a batch's bytes, agrees with
the batch having the surface's terminal event. -/
namespace Gateway

open Json Wire

namespace Wire.Gemini

/-- The frame that ends an answer: the first candidate has finished. -/
def isTerminal (f : Frame) : Bool :=
  match f.payload with
  | .json v => (((optArr v "candidates").bind List.head?).bind (·.get "finishReason")).isSome
  | .done => false

@[simp] theorem isTerminal_partsChunk (model : Str) (parts : List Value) :
    isTerminal (partsChunk model parts) = false := by
  simp [isTerminal, partsChunk, Frame.data, candidate, Value.asArray]

theorem any_flushTool (s : EmitState) : s.flushTool.1.any isTerminal = false := by
  unfold EmitState.flushTool
  split <;> simp

theorem any_encodeEvent (s : EmitState) (e : StreamEvent) :
    (encodeEvent s e).1.any isTerminal = e.isDone := by
  cases e with
  | messageStart model => rfl
  | textDelta text => simp [encodeEvent, StreamEvent.isDone]
  | thinkingDelta text => rfl
  | toolUseStart id name => exact any_flushTool s
  | toolUseDelta fragment => rfl
  | usageDelta usage => rfl
  | done reason =>
      simp [encodeEvent, any_flushTool, isTerminal, Frame.data, candidate, Value.asArray,
        StreamEvent.isDone]

end Wire.Gemini

/-- An encoder whose terminal frames come from the events that end an answer. -/
theorem any_run_of_isDone {σ : Type} {step : σ → StreamEvent → List Frame × σ}
    {terminal : Frame → Bool} (hOut : ∀ s e, (step s e).1.any terminal = e.isDone) (s : σ)
    (events : List StreamEvent) :
    (Transducer.run step s events).1.any terminal = events.any StreamEvent.isDone := by
  induction events generalizing s with
  | nil => rfl
  | cons e rest ih => rw [Transducer.run_cons, List.any_append, hOut, ih, List.any_cons]

/-- A batch's text has a marker where a terminal frame or a marked string puts
it there. -/
theorem infix_run_iff {σ : Type} {step : σ → StreamEvent → List Frame × σ} {w : Str}
    (hw : Marker w) {terminal : Frame → Bool} {carried : σ → StreamEvent → List Str}
    {Marked : Str → Prop}
    (hStep : ∀ s e, Shows w (step s e).1 ↔
      (step s e).1.any terminal = true ∨ ∃ t ∈ carried s e, Marked t)
    (s : σ) (events : List StreamEvent) :
    w <:+: framesText (Transducer.run step s events).1 ↔
      (Transducer.run step s events).1.any terminal = true ∨
        ∃ t ∈ (Transducer.trace step s events).flatMap (fun p => carried p.1 p.2), Marked t := by
  rw [infix_framesText_iff hw]
  induction events generalizing s with
  | nil => simp [Transducer.trace]
  | cons e rest ih =>
      rw [Transducer.run_cons, shows_append, hStep, ih, List.any_append, Transducer.trace,
        List.flatMap_cons]
      simp only [Bool.or_eq_true, List.mem_append, or_and_right, exists_or]
      exact or_or_or_comm

namespace Service

/-- The frame that ends an answer in the surface's protocol. -/
def isTerminal : WireFormat → Frame → Bool
  | .anthropic => Anthropic.isTerminal
  | .openaiChat => OpenaiChat.isTerminal
  | .openaiResponses => OpenaiResponses.isTerminal
  | .gemini => Gemini.isTerminal

/-- A string that reads like the end of an answer once it is on the stream. -/
def Mistakable : WireFormat → Str → Prop
  | .anthropic, s => "message_stop".toList <:+: s
  | .openaiChat, s => "data: [DONE]".toList <:+: s ∨ '\x1d' :: "ata: [DONE]".toList <:+: s
  | .openaiResponses, s =>
      "response.completed".toList <:+: s ∨ '\r' :: "esponse.completed".toList <:+: s
  | .gemini, _ => False

namespace Encoder

/-- Whether a batch ends the answer: its end came, and the usage report where
the surface waits for one. -/
def ends (enc : Encoder) (events : List StreamEvent) : Bool :=
  match enc with
  | .openaiChat s => s.gate.ends events
  | .openaiResponses s => s.gate.ends events
  | .anthropic _ | .gemini _ => events.any StreamEvent.isDone

/-- The strings a batch puts on a stream that is searched for the end. -/
def carried (enc : Encoder) (events : List StreamEvent) : List Str :=
  match enc with
  | .anthropic s => (Transducer.trace Anthropic.encodeEvent s events).flatMap
      fun p => Anthropic.carried p.1 p.2
  | .openaiChat s => (Transducer.trace OpenaiChat.encodeEvent s events).flatMap
      fun p => OpenaiChat.carried p.1 p.2
  | .openaiResponses s => (Transducer.trace OpenaiResponses.encodeEvent s events).flatMap
      fun p => OpenaiResponses.carried p.1 p.2
  | .gemini _ => []

theorem any_isTerminal (enc : Encoder) (events : List StreamEvent) :
    (enc.encode events).1.any (isTerminal enc.surface) = enc.ends events := by
  cases enc with
  | anthropic s => exact any_run_of_isDone Anthropic.any_encodeEvent s events
  | openaiChat s =>
      exact Gate.any_run OpenaiChat.any_encodeEvent OpenaiChat.gate_encodeEvent s events
  | openaiResponses s =>
      exact Gate.any_run OpenaiResponses.any_encodeEvent OpenaiResponses.gate_encodeEvent s events
  | gemini s => exact any_run_of_isDone Gemini.any_encodeEvent s events

theorem endsStream_iff (enc : Encoder) (events : List StreamEvent) :
    endsStream enc.surface (frameBytes (enc.encode events).1) events = true ↔
      enc.ends events = true ∨ ∃ t ∈ enc.carried events, Mistakable enc.surface t := by
  rw [← any_isTerminal]
  cases enc with
  | anthropic s =>
      rw [endsStream, frameBytes, Text.fromUtf8Lossy_toUtf8]
      simp only [endMarker, surface, decide_eq_true_eq]
      refine infix_run_iff Anthropic.stopMarker_marker (fun s e => ?_) s events
      rw [Anthropic.shows_encodeEvent, isTerminal, Anthropic.any_encodeEvent]
      simp only [Anthropic.marked_iff]
      rfl
  | openaiChat s =>
      rw [endsStream, frameBytes, Text.fromUtf8Lossy_toUtf8]
      simp only [endMarker, surface, decide_eq_true_eq]
      refine infix_run_iff OpenaiChat.doneMarker_marker (fun s e => ?_) s events
      rw [OpenaiChat.shows_encodeEvent, isTerminal, OpenaiChat.any_encodeEvent]
      simp only [OpenaiChat.marked_iff]
      rfl
  | openaiResponses s =>
      rw [endsStream, frameBytes, Text.fromUtf8Lossy_toUtf8]
      simp only [endMarker, surface, decide_eq_true_eq]
      refine infix_run_iff OpenaiResponses.completedMarker_marker (fun s e => ?_) s events
      rw [OpenaiResponses.shows_encodeEvent, isTerminal, OpenaiResponses.any_encodeEvent]
      simp only [OpenaiResponses.marked_iff]
      rfl
  | gemini s =>
      rw [any_isTerminal]
      simp [endsStream, endMarker, surface, ends, Mistakable]

/-- The test made on the bytes finds the terminal event and nothing else,
unless a batch that does not end the answer has a string that reads like the
end. -/
theorem endsStream_eq_terminal_iff (enc : Encoder) (events : List StreamEvent) :
    endsStream enc.surface (frameBytes (enc.encode events).1) events =
        (enc.encode events).1.any (isTerminal enc.surface) ↔
      enc.ends events = true ∨ ∀ t ∈ enc.carried events, ¬ Mistakable enc.surface t := by
  rw [Bool.eq_iff_iff, endsStream_iff, any_isTerminal]
  constructor
  · intro h
    by_cases hEnds : enc.ends events = true
    · exact Or.inl hEnds
    · exact Or.inr fun t ht hMarked => hEnds (h.mp (Or.inr ⟨t, ht, hMarked⟩))
  · rintro (hEnds | hNone)
    · simp [hEnds]
    · refine or_iff_left ?_
      rintro ⟨t, ht, hMarked⟩
      exact hNone t ht hMarked

/-- A word of the answer ends it. -/
theorem text_ends_answer :
    let enc := Encoder.new .anthropic
    let events := [StreamEvent.textDelta "message_stop".toList]
    endsStream enc.surface (frameBytes (enc.encode events).1) events = true ∧
      (enc.encode events).1.any (isTerminal enc.surface) = false := by
  refine ⟨?_, ?_⟩
  · rw [endsStream_iff]
    exact Or.inr ⟨"message_stop".toList, List.mem_cons_of_mem _ (List.mem_singleton.mpr rfl),
      List.infix_refl _⟩
  · rw [any_isTerminal]
    rfl

end Encoder

end Service

end Gateway
