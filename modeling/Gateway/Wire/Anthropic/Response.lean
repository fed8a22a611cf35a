import Gateway.Wire.Anthropic.Answer

/-! The buffered response in the Messages format, and what a client reads in its
body. -/
namespace Gateway.Wire.Anthropic

open Json

/-! ### Emission -/

def isPlainText : ContentBlock → Bool
  | .text _ => true
  | _ => false

def plainText : ContentBlock → Str
  | .text t => t
  | _ => []

mutual
def emitBlock : ContentBlock → Value
  | .text text => obj [("type", .string "text".toList), ("text", .string text)]
  | .cachedText text ttl => obj [("type", .string "text".toList), ("text", .string text),
      ("cache_control", obj ([("type", .string "ephemeral".toList)] ++
        (match ttl with
          | some ttl => [("ttl", .string ttl)]
          | none => [])))]
  | .image mediaType data url => obj [("type", .string "image".toList), ("source",
      match url with
      | some url => obj [("type", .string "url".toList), ("url", .string url)]
      | none => obj [("type", .string "base64".toList),
          ("media_type", .string (mediaType.getD "image/png".toList)),
          ("data", .string (data.getD []))])]
  | .toolUse id name input => obj [("type", .string "tool_use".toList), ("id", .string id),
      ("name", .string name), ("input", input)]
  | .toolResult toolUseId content isError => obj ([("type", .string "tool_result".toList),
      ("tool_use_id", .string toolUseId),
      -- a string when it is all text, else an array
      ("content", if content.all isPlainText then .string (content.flatMap plainText)
        else .array (emitBlocks content))] ++
      if isError then [("is_error", .bool true)] else [])
  | .thinking text signature => obj ([("type", .string "thinking".toList),
      ("thinking", .string text)] ++
      (match signature with
        | some signature => [("signature", .string signature)]
        | none => []))
  | .native format raw =>
      if format = "anthropic".toList then raw
      else obj [("type", .string "text".toList), ("text", .string [])]

def emitBlocks : List ContentBlock → List Value
  | [] => []
  | b :: rest => emitBlock b :: emitBlocks rest
end

def emitUsage (u : Usage) : Value :=
  obj [("input_tokens", .nat u.inputTokens), ("output_tokens", .nat u.outputTokens),
    ("cache_read_input_tokens", .nat u.cacheReadTokens),
    ("cache_creation_input_tokens", .nat u.cacheWriteTokens)]

def emitResponse (resp : ChatResponse) : Value :=
  obj [("id", .string resp.id), ("type", .string "message".toList),
    ("role", .string "assistant".toList), ("model", .string resp.model),
    ("content", .array (resp.content.map emitBlock)),
    ("stop_reason", .string (stopReasonStr resp.stopReason)), ("stop_sequence", .null),
    ("usage", emitUsage resp.usage)]

/-! ### A client's reading -/

/-- A complete block, a call with its arguments as a document; `none` for
arguments that cannot be read. -/
inductive Part where
  | text (text : Str)
  | thinking (text signature : Str)
  | redacted (data : Str)
  | toolUse (id name : Str) (input : Option Value)
  | unknown

/-- Streamed arguments; none at all stand for the empty object. -/
def readInput (json : Str) : Option Value := if isBlank json then some (obj []) else fromStr json

def Block.part : Block → Part
  | .text t => .text t
  | .thinking t s => .thinking t s
  | .redacted data => .redacted data
  | .toolUse id name json => .toolUse id name (readInput json)
  | .unknown => .unknown

def readPart (v : Value) : Part :=
  match startBlock v with
  | .toolUse id name _ => .toolUse id name (v.get "input")
  | b => b.part

def readBody (body : Value) : List Part := ((optArr body "content").getD []).map readPart

theorem readPart_text (t : Str) : readPart (emitBlock (.text t)) = .text t := by
  simp [emitBlock, readPart, startBlock, Block.part]

theorem readPart_thinking (t : Str) : readPart (emitBlock (.thinking t none)) = .thinking t [] := by
  simp [emitBlock, readPart, startBlock, Block.part]

theorem readPart_toolUse (id name : Str) (input : Value) :
    readPart (emitBlock (.toolUse id name input)) = .toolUse id name (some input) := by
  simp [emitBlock, readPart, startBlock]

theorem readBody_emitResponse (resp : ChatResponse) :
    readBody (emitResponse resp) = resp.content.map (fun b => readPart (emitBlock b)) := by
  simp [readBody, emitResponse, Value.asArray]

/-! ### Aggregated answers -/

/-- A call as the client reads it in a body. -/
def callPart (t : PartialTool) : Part := .toolUse t.id t.name (some t.input)

/-- The parts of an aggregated response: its thinking, its text, its calls. -/
def aggregatedParts (thinking text : Str) (calls : List PartialTool) : List Part :=
  (if thinking.isEmpty then [] else [.thinking thinking []]) ++
    (if text.isEmpty then [] else [.text text]) ++ calls.map callPart

theorem readBody_intoResponse (agg : Aggregator) (id : Str) :
    readBody (emitResponse (agg.intoResponse id)) =
      aggregatedParts agg.thinking agg.text agg.tools := by
  rw [readBody_emitResponse]
  simp only [Aggregator.intoResponse, Aggregator.content, aggregatedParts, List.map_append,
    List.map_map]
  congr 1
  · congr 1 <;> split_ifs <;> simp [readPart_thinking, readPart_text]
  · refine List.map_congr_left fun t _ => ?_
    exact readPart_toolUse t.id t.name t.input

namespace Sent

def textOf : Sent → Str
  | .text fragments => fragments.flatten
  | _ => []

def thinkingOf : Sent → Str
  | .thinking fragments _ => fragments.flatten
  | _ => []

def callOf : Sent → List PartialTool
  | .toolUse id name fragments => [⟨id, name, fragments.flatten⟩]
  | _ => []

/-- A call whose arguments can be read. -/
def isReadableCall : Sent → Bool
  | .toolUse _ _ fragments => (readInput fragments.flatten).isSome
  | _ => false

end Sent

theorem foldl_toolsAfter_fragments (tools : List PartialTool) (id name json : Str)
    (fragments : List Str) :
    (fragments.map StreamEvent.toolUseDelta).foldl toolsAfter (tools ++ [⟨id, name, json⟩]) =
      tools ++ [⟨id, name, json ++ fragments.flatten⟩] := by
  induction fragments generalizing json with
  | nil => simp
  | cons t rest ih =>
      rw [List.map_cons, List.foldl_cons, toolsAfter, extendLast_concat, ih]
      simp

theorem Sent.toolsAfter_events (b : Sent) (tools : List PartialTool) :
    b.events.foldl toolsAfter tools = tools ++ b.callOf := by
  have hOther (g : Str → StreamEvent) (hg : ∀ tools t, toolsAfter tools (g t) = tools)
      (fragments : List Str) : (fragments.map g).foldl toolsAfter tools = tools := by
    induction fragments with
    | nil => rfl
    | cons t rest ih => rw [List.map_cons, List.foldl_cons, hg, ih]
  cases b with
  | text fragments =>
      exact (hOther _ (fun _ _ => rfl) fragments).trans (List.append_nil tools).symm
  | thinking fragments signature =>
      exact (hOther _ (fun _ _ => rfl) fragments).trans (List.append_nil tools).symm
  | redacted data => exact (List.append_nil tools).symm
  | toolUse id name fragments =>
      rw [events, List.foldl_cons, toolsAfter, foldl_toolsAfter_fragments]
      rfl

theorem Sent.textOf_events (b : Sent) : b.events.flatMap StreamEvent.textOf = b.textOf := by
  cases b <;>
    simp [events, textOf, List.flatMap_map, StreamEvent.textOf, List.flatMap_id']

theorem Sent.thinkingOf_events (b : Sent) :
    b.events.flatMap StreamEvent.thinkingOf = b.thinkingOf := by
  cases b <;>
    simp [events, thinkingOf, List.flatMap_map, StreamEvent.thinkingOf, List.flatMap_id']

/-- What the aggregator keeps of an answer. -/
theorem aggregated_answer (answer : List Sent) :
    (answer.flatMap Sent.events).flatMap StreamEvent.textOf = answer.flatMap Sent.textOf ∧
      (answer.flatMap Sent.events).flatMap StreamEvent.thinkingOf =
        answer.flatMap Sent.thinkingOf ∧
      (answer.flatMap Sent.events).foldl toolsAfter [] = answer.flatMap Sent.callOf := by
  refine ⟨?_, ?_, ?_⟩
  · simp only [List.flatMap_assoc, Sent.textOf_events]
  · simp only [List.flatMap_assoc, Sent.thinkingOf_events]
  · suffices ∀ tools, (answer.flatMap Sent.events).foldl toolsAfter tools =
        tools ++ answer.flatMap Sent.callOf from this []
    induction answer with
    | nil => simp
    | cons b rest ih =>
        intro tools
        rw [List.flatMap_cons, List.foldl_append, b.toolsAfter_events, ih]
        simp

/-! ### Answers in the aggregator's order -/

def CallsOnly (answer : List Sent) : Prop := ∀ b ∈ answer, b.isReadableCall = true

/-- Text at most once, and calls after it. -/
def AfterThinking : List Sent → Prop
  | .text fragments :: rest => fragments.flatten ≠ [] ∧ CallsOnly rest
  | rest => CallsOnly rest

/-- Unsigned thinking at most once, then text, then calls. -/
def Ordered : List Sent → Prop
  | .thinking fragments signature :: rest =>
      fragments.flatten ≠ [] ∧ signature.flatten = [] ∧ AfterThinking rest
  | rest => AfterThinking rest

def Sent.part (b : Sent) : Part := b.block.part

theorem readInput_of_isSome {t : PartialTool} (h : (readInput t.json).isSome = true) :
    readInput t.json = some t.input := by
  unfold readInput PartialTool.input at *
  split_ifs at * with hBlank
  · rfl
  · obtain ⟨v, hv⟩ := Option.isSome_iff_exists.mp h
    rw [hv]
    rfl

theorem callsOnly_of_map {answer : List Sent} {calls : List PartialTool}
    (h : answer.map Sent.part = calls.map callPart) : CallsOnly answer := by
  intro b hb
  have hPart : b.part ∈ calls.map callPart := h ▸ List.mem_map_of_mem hb
  obtain ⟨t, -, ht⟩ := List.mem_map.mp hPart
  cases b with
  | toolUse id name fragments =>
      simp only [callPart, Sent.part, Sent.block, Block.part, Part.toolUse.injEq] at ht
      rw [Sent.isReadableCall, ← ht.2.2]
      rfl
  | _ => cases ht

theorem CallsOnly.read {answer : List Sent} (h : CallsOnly answer) :
    answer.flatMap Sent.textOf = [] ∧ answer.flatMap Sent.thinkingOf = [] ∧
      answer.map Sent.part = (answer.flatMap Sent.callOf).map callPart := by
  induction answer with
  | nil => exact ⟨rfl, rfl, rfl⟩
  | cons b rest ih =>
      obtain ⟨hText, hThinking, hCalls⟩ := ih fun c hc => h c (List.mem_cons_of_mem b hc)
      have hReadable := h b List.mem_cons_self
      cases b with
      | toolUse id name fragments =>
          refine ⟨hText, hThinking, ?_⟩
          have hInput : readInput fragments.flatten =
              some (PartialTool.input ⟨id, name, fragments.flatten⟩) :=
            readInput_of_isSome (t := ⟨id, name, fragments.flatten⟩) hReadable
          rw [List.map_cons, hCalls, Sent.part, Sent.block, Block.part, hInput]
          rfl
      | _ => cases hReadable

theorem afterThinking_of_map {answer : List Sent} {text : Str} {calls : List PartialTool}
    (h : answer.map Sent.part =
      (if text.isEmpty then [] else [.text text]) ++ calls.map callPart) :
    AfterThinking answer := by
  cases answer with
  | nil => exact fun b hb => by cases hb
  | cons b rest =>
      split_ifs at h with hNone
      · have hCalls := callsOnly_of_map h
        cases b with
        | text fragments => cases hCalls _ List.mem_cons_self
        | _ => exact hCalls
      · obtain ⟨hHead, hRest⟩ := List.cons.inj h
        cases b with
        | text fragments =>
            have hText : fragments.flatten = text := Part.text.inj hHead
            exact ⟨hText ▸ fun hNil => hNone (List.isEmpty_iff.mpr hNil), callsOnly_of_map hRest⟩
        | _ => cases hHead

theorem AfterThinking.read {answer : List Sent} (h : AfterThinking answer) :
    answer.flatMap Sent.thinkingOf = [] ∧ answer.map Sent.part =
      (if (answer.flatMap Sent.textOf).isEmpty then [] else [.text (answer.flatMap Sent.textOf)]) ++
        (answer.flatMap Sent.callOf).map callPart := by
  have hOnly (hCalls : CallsOnly answer) : answer.flatMap Sent.thinkingOf = [] ∧
      answer.map Sent.part =
        (if (answer.flatMap Sent.textOf).isEmpty then []
          else [.text (answer.flatMap Sent.textOf)]) ++
            (answer.flatMap Sent.callOf).map callPart := by
    obtain ⟨hText, hThinking, hParts⟩ := hCalls.read
    exact ⟨hThinking, by rw [hText, hParts]; rfl⟩
  cases answer with
  | nil => exact hOnly h
  | cons b rest =>
      cases b with
      | text fragments =>
          obtain ⟨hSome, hCalls⟩ := h
          obtain ⟨hText, hThinking, hParts⟩ := hCalls.read
          have hWhole : (Sent.text fragments :: rest).flatMap Sent.textOf = fragments.flatten := by
            rw [List.flatMap_cons, hText, List.append_nil, Sent.textOf]
          refine ⟨by rw [List.flatMap_cons, hThinking]; rfl, ?_⟩
          rw [hWhole, if_neg (by simpa using hSome), List.map_cons, hParts]
          rfl
      | _ => exact hOnly h

/-- A body has the parts of the answer exactly when the answer's blocks come in
the order of the aggregator, one of a kind and without a signature. -/
theorem aggregated_eq_iff (answer : List Sent) :
    aggregatedParts (answer.flatMap Sent.thinkingOf) (answer.flatMap Sent.textOf)
        (answer.flatMap Sent.callOf) = answer.map Sent.part ↔ Ordered answer := by
  unfold aggregatedParts
  rw [List.append_assoc]
  constructor
  · intro h
    cases answer with
    | nil => exact fun b hb => by cases hb
    | cons b rest =>
        by_cases hNone : ((b :: rest).flatMap Sent.thinkingOf).isEmpty = true
        · rw [if_pos hNone, List.nil_append] at h
          have hAfter := afterThinking_of_map h.symm
          cases b with
          | thinking fragments signature => cases hAfter _ List.mem_cons_self
          | _ => exact hAfter
        · rw [if_neg hNone] at h
          obtain ⟨hHead, hRest⟩ := List.cons.inj h
          cases b with
          | thinking fragments signature =>
              obtain ⟨hText, hSignature⟩ := Part.thinking.inj hHead
              refine ⟨?_, hSignature.symm, afterThinking_of_map hRest.symm⟩
              exact hText ▸ fun hNil => hNone (List.isEmpty_iff.mpr hNil)
          | _ => cases hHead
  · intro h
    have hAfter (h : AfterThinking answer) := h.read
    cases answer with
    | nil => rfl
    | cons b rest =>
        cases b with
        | thinking fragments signature =>
            obtain ⟨hSome, hUnsigned, hRest⟩ := h
            obtain ⟨hThinking, hParts⟩ := hRest.read
            have hWhole : (Sent.thinking fragments signature :: rest).flatMap Sent.thinkingOf =
                fragments.flatten := by
              rw [List.flatMap_cons, hThinking, List.append_nil, Sent.thinkingOf]
            rw [hWhole, if_neg (by simpa using hSome), List.map_cons, hParts, Sent.part, Sent.block,
              Block.part, hUnsigned]
            rfl
        | _ =>
            obtain ⟨hThinking, hParts⟩ := hAfter h
            rw [hThinking, hParts]
            rfl

end Gateway.Wire.Anthropic
