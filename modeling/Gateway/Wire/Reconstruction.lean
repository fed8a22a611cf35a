import Gateway.Wire.Reconstruction.Anthropic
import Gateway.Wire.Reconstruction.OpenaiChat
import Gateway.Wire.Reconstruction.OpenaiResponses

/-! What a client reconstructs from a streamed answer, against the buffered
response built from the same events. The three surfaces agree with the
aggregator exactly when the fragments of a call are not interrupted. -/
namespace Gateway.Wire

open Json

/-- What the aggregator keeps of a run of events. -/
def readingOf (agg : Aggregator) : Reading := ⟨agg.text, agg.thinking, agg.tools⟩

theorem readingOf_pushAll (es : List StreamEvent) :
    readingOf (Aggregator.pushAll {} es) = ⟨es.flatMap StreamEvent.textOf,
      es.flatMap StreamEvent.thinkingOf, es.foldl toolsAfter []⟩ := by
  simp [readingOf, Aggregator.pushAll_text, Aggregator.pushAll_thinking,
    Aggregator.pushAll_tools]

/-- A call as a client uses it, with its arguments read. -/
def PartialTool.call (t : PartialTool) : Str × Str × Value := (t.id, t.name, t.input)

def ChatResponse.calls (resp : ChatResponse) : List (Str × Str × Value) :=
  resp.content.filterMap fun
    | .toolUse id name input => some (id, name, input)
    | _ => none

def ChatResponse.thinking (resp : ChatResponse) : Str :=
  resp.content.flatMap fun
    | .thinking t _ => t
    | _ => []

/-- The text, the thinking and the calls are those of a buffered response. -/
def Reading.Agrees (r : Reading) (resp : ChatResponse) : Prop :=
  r.text = joinText resp.content ∧ r.thinking = resp.thinking ∧
    r.calls.map PartialTool.call = resp.calls

theorem agrees_intoResponse_iff (r : Reading) (agg : Aggregator) (id : Str) :
    r.Agrees (agg.intoResponse id) ↔ r.text = agg.text ∧ r.thinking = agg.thinking ∧
      r.calls.map PartialTool.call = agg.tools.map PartialTool.call := by
  have hText : joinText (agg.intoResponse id).content = agg.text := by
    have hTools : (agg.tools.map PartialTool.block).filterMap ContentBlock.asText = [] := by
      simp [List.filterMap_eq_nil_iff, PartialTool.block, ContentBlock.asText]
    simp only [Aggregator.intoResponse, Aggregator.content, joinText, List.filterMap_append, hTools]
    by_cases hThinking : agg.thinking.isEmpty <;> by_cases hText : agg.text.isEmpty <;>
      simp_all [ContentBlock.asText]
  have hThinking : (agg.intoResponse id).thinking = agg.thinking := by
    simp only [Aggregator.intoResponse, Aggregator.content, ChatResponse.thinking,
      List.flatMap_append]
    by_cases hThinking : agg.thinking.isEmpty <;> by_cases hText : agg.text.isEmpty <;>
      simp_all [PartialTool.block, List.flatMap_map]
  have hCalls : (agg.intoResponse id).calls = agg.tools.map PartialTool.call := by
    simp only [Aggregator.intoResponse, Aggregator.content, ChatResponse.calls,
      List.filterMap_append, List.filterMap_map]
    by_cases hThinking : agg.thinking.isEmpty <;> by_cases hText : agg.text.isEmpty <;>
      simp_all [PartialTool.block, PartialTool.call, Function.comp_def]
  rw [Reading.Agrees, hText, hThinking, hCalls]

/-- What each surface's client reads from the whole stream, whatever was still
owed at its end included. -/
def Anthropic.streamed (es : List StreamEvent) : Reading :=
  reading ((encodeSse es {}).1.foldl Reader.readFrame {}).blocks

def OpenaiChat.streamed (includeUsage : Bool) (es : List StreamEvent) : Reading :=
  let (frames, s) := encodeSse es (EmitState.setIncludeUsage {} includeUsage)
  ((frames ++ s.finish.1).foldl Reader.readFrame {}).reading

def OpenaiResponses.streamed (key retention : Option Str) (es : List StreamEvent) : Reading :=
  let (frames, s) := encodeSse es (EmitState.setPromptCache {} key retention)
  ((frames ++ s.finish.1).foldl Reader.readFrame {}).reading

theorem Anthropic.streamed_eq (es : List StreamEvent) :
    streamed es = stepReadings false {} es :=
  encodeSse_reading (show Holds {} [] from rfl) false es

theorem OpenaiChat.streamed_eq (includeUsage : Bool) {es : List StreamEvent}
    (h : Uninterrupted false es) : streamed includeUsage es = stepReadings false {} es := by
  have hStart : Numbered (EmitState.setIncludeUsage {} includeUsage) {} := ⟨rfl, rfl⟩
  simp only [streamed, List.foldl_append, read_finish]
  exact encodeSse_reading hStart (by simp) h

theorem OpenaiResponses.streamed_eq (key retention : Option Str) {es : List StreamEvent}
    (h : Uninterrupted false es) : streamed key retention es = stepReadings false {} es := by
  have hStart : Indexed (EmitState.setPromptCache {} key retention) {} :=
    ⟨by simp, by simp, by simp [EmitState.setPromptCache]⟩
  simp only [streamed, List.foldl_append, read_finish]
  exact encodeSse_reading hStart h

/-- All three clients get what the buffered response says exactly when no
fragment of a call is interrupted by text, thinking or the end. -/
theorem streamed_agree_iff (es : List StreamEvent) (includeUsage : Bool)
    (key retention : Option Str) (id : Str) :
    ((Anthropic.streamed es).Agrees ((Aggregator.pushAll {} es).intoResponse id) ∧
      (OpenaiChat.streamed includeUsage es).Agrees ((Aggregator.pushAll {} es).intoResponse id) ∧
      (OpenaiResponses.streamed key retention es).Agrees
        ((Aggregator.pushAll {} es).intoResponse id)) ↔
      Uninterrupted false es := by
  have hBuffered := readingOf_pushAll es
  simp only [readingOf, Reading.mk.injEq] at hBuffered
  simp only [agrees_intoResponse_iff, hBuffered]
  constructor
  · rintro ⟨⟨-, -, hCalls⟩, -⟩
    have hLength := congrArg List.length hCalls
    have hNone : ({} : Reading).calls.length = ([] : List PartialTool).length + 0 := rfl
    rw [List.length_map, List.length_map, Anthropic.streamed_eq,
      stepReadings_calls_length false hNone] at hLength
    exact (strayFragments_eq_zero_iff false es).mp (by omega)
  · intro h
    rw [Anthropic.streamed_eq, OpenaiChat.streamed_eq includeUsage h,
      OpenaiResponses.streamed_eq key retention h, stepReadings_of_uninterrupted h]
    simp

/-- Every fragment comes after some call has started. -/
def fragmentsStarted (started : Bool) : List StreamEvent → Bool
  | [] => true
  | .toolUseStart .. :: es => fragmentsStarted true es
  | .toolUseDelta _ :: es => started && fragmentsStarted started es
  | _ :: es => fragmentsStarted started es

/-- The last event is the only one that ends the answer. -/
def endsOnce : List StreamEvent → Bool
  | [] => false
  | [e] => e.isDone
  | e :: es => !e.isDone && endsOnce es

/-- Text between the two halves of a call's arguments. -/
def interruptedCall : List StreamEvent :=
  [.toolUseStart "a".toList "f".toList, .toolUseDelta "\x7b".toList, .textDelta "x".toList,
    .toolUseDelta "\x7d".toList, .done .toolUse]

/-- The interrupted call comes apart on the Messages surface. -/
theorem interrupted_call_differs :
    ¬ ∀ es : List StreamEvent, fragmentsStarted false es = true →
      (∀ t ∈ es.foldl toolsAfter [], (fromStr t.json).isSome) → endsOnce es = true →
        (Anthropic.streamed es).Agrees ((Aggregator.pushAll {} es).intoResponse []) := by
  intro h
  have hAgrees := h interruptedCall rfl (by decide +kernel) rfl
  have hCalls := (agrees_intoResponse_iff ..).mp hAgrees
  have hLength := congrArg List.length hCalls.2.2
  revert hLength
  decide +kernel

end Gateway.Wire
