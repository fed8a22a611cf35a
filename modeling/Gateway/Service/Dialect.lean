import Gateway.Wire.Anthropic
import Gateway.Wire.Gemini
import Gateway.Wire.OpenaiChat
import Gateway.Wire.OpenaiResponses

/-! One decoder and one encoder type over the four wire formats, and the test
the relay makes for the end of an answer. -/
namespace Gateway.Service

open Json Wire

/-! ### Decoders -/

inductive Decoder where
  | anthropic (s : Anthropic.SseState)
  | openaiChat (s : OpenaiChat.SseState)
  | openaiResponses (s : OpenaiResponses.SseState)
  | gemini (s : Gemini.SseState)

def Decoder.new : WireFormat → Decoder
  | .anthropic => .anthropic {}
  | .openaiChat => .openaiChat {}
  | .openaiResponses => .openaiResponses {}
  | .gemini => .gemini {}

def Decoder.decodeLine (d : Decoder) (line : Str) : List StreamEvent × Decoder :=
  match d with
  | .anthropic s => let (es, s) := Anthropic.decodeSse line s; (es, .anthropic s)
  | .openaiChat s => let (es, s) := OpenaiChat.decodeSse line s; (es, .openaiChat s)
  | .openaiResponses s => let (es, s) := OpenaiResponses.decodeSse line s; (es, .openaiResponses s)
  | .gemini s => let (es, s) := Gemini.decodeSse line s; (es, .gemini s)

/-! ### Encoders -/

inductive Encoder where
  | anthropic (s : Anthropic.EmitState)
  | openaiChat (s : OpenaiChat.EmitState)
  | openaiResponses (s : OpenaiResponses.EmitState)
  | gemini (s : Gemini.EmitState)
  deriving DecidableEq

def Encoder.new : WireFormat → Encoder
  | .anthropic => .anthropic {}
  | .openaiChat => .openaiChat {}
  | .openaiResponses => .openaiResponses {}
  | .gemini => .gemini {}

def Encoder.surface : Encoder → WireFormat
  | .anthropic _ => .anthropic
  | .openaiChat _ => .openaiChat
  | .openaiResponses _ => .openaiResponses
  | .gemini _ => .gemini

def Encoder.encode (enc : Encoder) (events : List StreamEvent) : List Frame × Encoder :=
  match enc with
  | .anthropic s => let (fs, s) := Anthropic.encodeSse events s; (fs, .anthropic s)
  | .openaiChat s => let (fs, s) := OpenaiChat.encodeSse events s; (fs, .openaiChat s)
  | .openaiResponses s => let (fs, s) := OpenaiResponses.encodeSse events s; (fs, .openaiResponses s)
  | .gemini s => let (fs, s) := Gemini.encodeSse events s; (fs, .gemini s)

@[simp] theorem Encoder.encode_nil (enc : Encoder) : enc.encode [] = ([], enc) := by
  cases enc <;> rfl

@[simp] theorem Encoder.encode_surface (enc : Encoder) (events : List StreamEvent) :
    (enc.encode events).2.surface = enc.surface := by
  cases enc <;> rfl

/-- Usage is opt-in on the Chat Completions surface only. -/
def Encoder.setIncludeUsage (enc : Encoder) (on : Bool) : Encoder :=
  match enc with
  | .openaiChat s => .openaiChat (s.setIncludeUsage on)
  | enc => enc

/-- Frames still owed when the upstream ends. -/
def Encoder.finish (enc : Encoder) : List Frame × Encoder :=
  match enc with
  | .openaiChat s => let (fs, s) := s.finish; (fs, .openaiChat s)
  | .openaiResponses s => let (fs, s) := s.finish; (fs, .openaiResponses s)
  | enc => ([], enc)

def Encoder.setPromptCache (enc : Encoder) (key retention : Option Str) : Encoder :=
  match enc with
  | .openaiResponses s => .openaiResponses (s.setPromptCache key retention)
  | enc => enc

/-- The encoder a streamed turn starts with. -/
def Encoder.forTurn (surface : WireFormat) (includeUsage : Bool) (cacheEcho : Option Str × Option Str) :
    Encoder :=
  ((Encoder.new surface).setPromptCache cacheEcho.1 cacheEcho.2).setIncludeUsage includeUsage

/-- The bytes of a batch of frames. -/
def frameBytes (frames : List Frame) : List UInt8 := Text.toUtf8 (framesText frames)

/-! ### The end of an answer -/

/-- What a surface's end is searched for by; the Gemini surface has no such
text. -/
def endMarker : WireFormat → Option Str
  | .openaiChat => some "data: [DONE]".toList
  | .anthropic => some "message_stop".toList
  | .openaiResponses => some "response.completed".toList
  | .gemini => none

/-- Whether bytes carry the end of the answer in the client's dialect. -/
def endsStream (surface : WireFormat) (bytes : List UInt8) (events : List StreamEvent) : Bool :=
  let text := Text.fromUtf8Lossy bytes
  match endMarker surface with
  | some marker => marker <:+: text
  | none => events.any StreamEvent.isDone

end Gateway.Service
