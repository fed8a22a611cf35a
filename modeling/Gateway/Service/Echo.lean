import Gateway.Service.StreamEnd
import Gateway.Wire.Anthropic.Placing
import Gateway.Wire.Anthropic.Response

/-! Whether a client of the Messages surface gets the blocks of a Messages
upstream's answer, to send them back on its next turn. An answer passes through
events that carry no signature and no redacted thinking. -/
namespace Gateway.Service

open Json Wire Wire.Anthropic

/-! ### Anthropic to Anthropic -/

/-- The documents of a body. -/
def bodyValues (body : List UInt8) : List Value :=
  (Text.allLines 0x0a body).filterMap fun line => sseValue (lineText line)

theorem decodeLines_anthropic (s : SseState) (lines : List (List UInt8)) :
    ((Decoder.anthropic s).decodeLines lines).1 =
      decodeValues s (lines.filterMap fun line => sseValue (lineText line)) := by
  induction lines generalizing s with
  | nil => rfl
  | cons line rest ih =>
      have hLine : (Decoder.anthropic s).decodeLines (line :: rest) =
          (((Decoder.anthropic s).decodeBytes line).1 ++
            (((Decoder.anthropic s).decodeBytes line).2.decodeLines rest).1,
          (((Decoder.anthropic s).decodeBytes line).2.decodeLines rest).2) := rfl
      rw [hLine, List.filterMap_cons]
      simp only [Decoder.decodeBytes, Decoder.decodeLine, decodeSse]
      cases hValue : sseValue (lineText line) with
      | none => exact ih s
      | some v =>
          rw [decodeValues, Transducer.run_cons]
          exact congrArg ((decodeValue v s).1 ++ ·) (ih (decodeValue v s).2)

theorem bodyEvents_anthropic (body : List UInt8) :
    bodyEvents .anthropic body = decodeValues {} (bodyValues body) :=
  decodeLines_anthropic {} _

/-- The blocks of a streamed answer. -/
def streamedBlocks (requestId : Str) (status : Nat) (echo : Option Str × Option Str)
    (includeUsage : Bool) (chunks : List (List UInt8)) : List Block :=
  (((translateStream .anthropic .anthropic requestId status echo includeUsage).drive
    (delivered chunks)).2.foldl Reader.readFrame {}).blocks

/-- The events of an answer up to the batch that is taken for its end, and those
after it. -/
def cutAnswer (chunks : List (List UInt8)) : List StreamEvent × List StreamEvent :=
  (Encoder.new .anthropic).cut (batchesFrom [] (Decoder.new .anthropic) chunks)

theorem streamedBlocks_eq (requestId : Str) (status : Nat) (echo : Option Str × Option Str)
    (includeUsage : Bool) {chunks : List (List UInt8)} (hOrderly : Orderly (cutAnswer chunks).1) :
    streamedBlocks requestId status echo includeUsage chunks =
      ((cutAnswer chunks).1.foldl place []).reverse := by
  have hStart : Live {} [] := ⟨rfl, rfl⟩
  have hOwes : ∀ (enc : EmitState) (stops : Bool),
      (bif stops then [] else (Encoder.anthropic enc).finish.1) = [] := by
    rintro enc (_ | _) <;> rfl
  have hFrames : ((translateStream .anthropic .anthropic requestId status echo includeUsage).drive
      (delivered chunks)).2 = (encodeSse (cutAnswer chunks).1 {}).1 := by
    rw [StreamState.drive_frames _ rfl rfl]
    exact (congrArg (_ ++ ·) (hOwes _ _)).trans (List.append_nil _)
  rw [streamedBlocks, hFrames]
  exact hStart.read_encodeSse false hOrderly

/-- What events without content leave alone depends on the content only. -/
theorem foldl_filter_content {β : Type} {step : β → StreamEvent → β}
    (hQuiet : ∀ b e, isContent e = false → step b e = b) (b : β) (events : List StreamEvent) :
    (events.filter isContent).foldl step b = events.foldl step b := by
  induction events generalizing b with
  | nil => rfl
  | cons e rest ih =>
      by_cases hContent : isContent e = true
      · rw [List.filter_cons_of_pos hContent, List.foldl_cons, List.foldl_cons, ih]
      · rw [List.filter_cons_of_neg hContent, List.foldl_cons,
          hQuiet b e (Bool.eq_false_iff.mpr hContent), ih]

theorem flatMap_filter_content {β : Type} {g : StreamEvent → List β}
    (hQuiet : ∀ e, isContent e = false → g e = []) (events : List StreamEvent) :
    (events.filter isContent).flatMap g = events.flatMap g := by
  induction events with
  | nil => rfl
  | cons e rest ih =>
      by_cases hContent : isContent e = true
      · rw [List.filter_cons_of_pos hContent, List.flatMap_cons, List.flatMap_cons, ih]
      · rw [List.filter_cons_of_neg hContent, List.flatMap_cons,
          hQuiet e (Bool.eq_false_iff.mpr hContent), List.nil_append, ih]

theorem foldl_place_filter (blocks : List Block) (events : List StreamEvent) :
    (events.filter isContent).foldl place blocks = events.foldl place blocks :=
  foldl_filter_content (fun blocks _ hQuiet => place_quiet blocks hQuiet) blocks events

/-- The aggregator keeps the content of the events, and of nothing else. -/
theorem readBody_aggregateStream (requestId : Str) (echo : Option Str × Option Str)
    {chunks : List (List UInt8)} {answer : List Sent}
    (hContent : (bodyEvents .anthropic chunks.flatten).filter isContent =
      answer.flatMap Sent.events) :
    readBody (emitResponse (aggregateStream .anthropic requestId echo chunks)) =
      aggregatedParts (answer.flatMap Sent.thinkingOf) (answer.flatMap Sent.textOf)
        (answer.flatMap Sent.callOf) := by
  obtain ⟨hText, hThinking, hCalls⟩ := aggregated_answer answer
  have hEcho (resp : ChatResponse) :
      readBody (emitResponse (applyCacheEcho resp echo)) = readBody (emitResponse resp) := rfl
  rw [aggregateStream, hEcho, readBody_intoResponse, Fold.foldl_chunk, batchesFrom_flatten,
    Aggregator.pushAll_text, Aggregator.pushAll_thinking, Aggregator.pushAll_tools,
    ← hText, ← hThinking, ← hCalls, ← hContent]
  rw [flatMap_filter_content, flatMap_filter_content, foldl_filter_content]
  · rfl
  · intro tools e hQuiet
    cases e <;> first | rfl | cases hQuiet
  · intro e hQuiet
    cases e <;> first | rfl | cases hQuiet
  · intro e hQuiet
    cases e <;> first | rfl | cases hQuiet

/-- A streamed answer arrives as it is exactly when every block of it can come
through the events and nothing of it follows the batch that is taken for its
end; a buffered one exactly when its blocks stand in the aggregator's order. -/
theorem echoed_iff (requestId : Str) (status : Nat) (echo : Option Str × Option Str)
    (includeUsage : Bool) (chunks : List (List UInt8)) (answer : List Sent)
    (hBody : Delivers answer (bodyValues chunks.flatten)) :
    (joinTexts (streamedBlocks requestId status echo includeUsage chunks) =
        joinTexts (answer.map Sent.block) ↔
      Kept (joined answer) ∧
        (cutAnswer chunks).2.foldl place ((cutAnswer chunks).1.foldl place []) =
          (cutAnswer chunks).1.foldl place []) ∧
      (readBody (emitResponse (aggregateStream .anthropic requestId echo chunks)) =
          (joinTexts (answer.map Sent.block)).map Block.part ↔
        Ordered (joined answer)) := by
  have hEvents : (cutAnswer chunks).1 ++ (cutAnswer chunks).2 =
      decodeValues {} (bodyValues chunks.flatten) := by
    rw [cutAnswer, Encoder.cut_append, batchesFrom_flatten, bodyEvents_anthropic]
  have hContent : (decodeValues {} (bodyValues chunks.flatten)).filter isContent =
      (joined answer).flatMap Sent.events := by
    rw [hBody.decoded, joined_events]
  constructor
  · have hOrderly : Orderly (cutAnswer chunks).1 :=
      (List.pairwise_append.mp (hEvents ▸ hBody.orderly {})).1
    have hCut : (cutAnswer chunks).1.filter isContent ++ (cutAnswer chunks).2.filter isContent =
        (joined answer).flatMap Sent.events := by
      rw [← List.filter_append, hEvents, hContent]
    rw [streamedBlocks_eq requestId status echo includeUsage hOrderly, joinTexts_foldl_place,
      joinTexts_block, List.reverse_eq_iff, ← foldl_place_filter,
      placed_cut_iff (joined_apart answer) hCut, List.foldl_append]
    simp only [foldl_place_filter]
  · rw [← bodyEvents_anthropic] at hContent
    rw [readBody_aggregateStream requestId echo hContent, joinTexts_block, List.map_map]
    exact aggregated_eq_iff (joined answer)

/-- The body of an answer in the fewest events. -/
def bodyOf (documents : List (List (String × Value))) : List UInt8 :=
  frameBytes (documents.map fun fields => Frame.data (obj fields))

def startDocument (kind : String) : List (String × Value) :=
  [("type", .string "content_block_start".toList), ("index", .nat 0),
    ("content_block", obj [("type", .string kind.toList)])]

def deltaDocument (kind field text : String) : List (String × Value) :=
  [("type", .string "content_block_delta".toList), ("index", .nat 0),
    ("delta", obj [("type", .string kind.toList), (field, .string text.toList)])]

def stopDocument : List (String × Value) := [("type", .string "message_stop".toList)]

/-- Thinking without a signature. -/
def unsignedBody : List UInt8 :=
  bodyOf [startDocument "thinking", deltaDocument "thinking_delta" "thinking" "t", stopDocument]

/-- Thinking with its signature. -/
def signedBody : List UInt8 :=
  bodyOf [startDocument "thinking", deltaDocument "thinking_delta" "thinking" "t",
    deltaDocument "signature_delta" "signature" "s", stopDocument]

theorem unsigned_echoed :
    joinTexts (streamedBlocks [] 200 (none, none) false [unsignedBody]) =
        [.thinking "t".toList []] ∧
      readBody (emitResponse (aggregateStream .anthropic [] (none, none) [unsignedBody])) =
        [.thinking "t".toList []] := by
  have hBody : Delivers [.thinking ["t".toList] []] (bodyValues [unsignedBody].flatten) := by
    have hValues : bodyValues [unsignedBody].flatten = [obj (startDocument "thinking"),
        obj (deltaDocument "thinking_delta" "thinking" "t"), obj stopDocument] := by decide +kernel
    rw [hValues]
    exact ⟨by decide +kernel, by decide +kernel⟩
  obtain ⟨hStreamed, hBuffered⟩ := echoed_iff [] 200 (none, none) false [unsignedBody] _ hBody
  refine ⟨hStreamed.mpr ⟨⟨?_, ?_⟩, ?_⟩, hBuffered.mpr ⟨?_, ?_, ?_⟩⟩
  · decide
  · exact List.isChain_singleton _
  · decide +kernel
  · decide
  · decide
  · exact fun b hb => by cases hb

/-- Signed thinking reaches the client unsigned. -/
theorem signature_lost :
    ¬ ∀ (chunks : List (List UInt8)) (answer : List Sent),
      Delivers answer (bodyValues chunks.flatten) →
        joinTexts (streamedBlocks [] 200 (none, none) false chunks) =
            joinTexts (answer.map Sent.block) ∧
          readBody (emitResponse (aggregateStream .anthropic [] (none, none) chunks)) =
            (joinTexts (answer.map Sent.block)).map Block.part := by
  intro h
  have hBody : Delivers [.thinking ["t".toList] ["s".toList]] (bodyValues [signedBody].flatten) := by
    have hValues : bodyValues [signedBody].flatten = [obj (startDocument "thinking"),
        obj (deltaDocument "thinking_delta" "thinking" "t"),
        obj (deltaDocument "signature_delta" "signature" "s"), obj stopDocument] := by decide +kernel
    rw [hValues]
    exact ⟨by decide +kernel, by decide +kernel⟩
  have hStreamed := (h [signedBody] _ hBody).1
  revert hStreamed
  decide +kernel

end Gateway.Service
