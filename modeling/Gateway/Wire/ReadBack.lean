import Gateway.Json.Held
import Gateway.Wire.Anthropic.Parse
import Gateway.Wire.Gemini.Response
import Gateway.Wire.OpenaiChat.Response
import Gateway.Wire.OpenaiResponses.Response
import Gateway.Wire.Counts
import Gateway.Wire.Said

/-! A response that is written in a format and read again by the same format's
parser, as a gateway reads it that stands before another. -/
namespace Gateway.Wire

open Json Text

def readResponse (f : WireFormat) (bytes : List UInt8) : Except WireError ChatResponse :=
  match f with
  | .anthropic => Anthropic.parseResponse bytes
  | .openaiChat => OpenaiChat.parseResponse bytes
  | .openaiResponses => OpenaiResponses.parseResponse bytes
  | .gemini => Gemini.parseResponse bytes

/-- What a block calls, and with what; ids aside. -/
def ContentBlock.named (b : ContentBlock) : Option (Str × Value) := b.asCall.map Prod.snd

def namedCalls (blocks : List ContentBlock) : List (Str × Value) :=
  blocks.filterMap ContentBlock.named

/-- Counts of 32 bits. -/
structure Usage.Held (u : Usage) : Prop where
  input : u.inputTokens < 2 ^ 32
  output : u.outputTokens < 2 ^ 32
  cacheRead : u.cacheReadTokens < 2 ^ 32
  cacheWrite : u.cacheWriteTokens < 2 ^ 32
  reasoning : u.reasoningTokens < 2 ^ 32

/-- A response as a program holds it. -/
structure ChatResponse.Held (r : ChatResponse) : Prop where
  arguments : ∀ call ∈ namedCalls r.content, call.2.Held
  usage : r.usage.Held

/-- The levels of a body around the arguments of a call. Two of the formats write
them as text. -/
def argumentsLevel : WireFormat → Nat
  | .anthropic => 3
  | .gemini => 7
  | .openaiChat | .openaiResponses => 0

/-- The stop reason that comes back, for a turn that ended, by its length or for
calls; `none` where the format's writer and its parser differ. A format without one
for calls tells them by their presence. -/
def stopIn (f : WireFormat) (stop : StopReason) (called : Bool) : Option StopReason :=
  match f, stop with
  | _, .stopSequence | _, .other _ | .openaiResponses, .maxTokens => none
  | .openaiResponses, .endTurn | .gemini, .endTurn => some (if called then .toolUse else .endTurn)
  | _, reason => some reason

def ChatResponse.called (r : ChatResponse) : Bool := !(namedCalls r.content).isEmpty

/-- What comes back of a response. -/
structure ReadsBack (f : WireFormat) (r back : ChatResponse) : Prop where
  text : joinText back.content = joinText r.content
  calls : namedCalls back.content = namedCalls r.content
  stop : ∀ reason ∈ stopIn f r.stopReason r.called, back.stopReason = reason
  input : back.usage.inputTokens = r.usage.inputTokens
  output : back.usage.outputTokens = r.usage.outputTokens
  thinking : f = .anthropic →
    OpenaiChat.thinkingText back.content = OpenaiChat.thinkingText r.content

theorem kept_of_optArr {depth : Nat} {v : Value} {key : String} {items : List Value}
    (kept : v.Kept depth) (h : optArr v key = some items) {item : Value} (hItem : item ∈ items) :
    item.Kept (depth - 1 - 1) := by
  obtain ⟨w, hGet, hItems⟩ := Option.bind_eq_some_iff.mp h
  cases w <;> cases hItems
  exact itemsKept_iff.mp (kept.get hGet).2 item hItem

/-! ### Blocks that are read from blocks -/

section
variable {keep : ContentBlock → Option ContentBlock}

theorem joinText_filterMap (h : ∀ b, (keep b).bind ContentBlock.asText = b.asText)
    (blocks : List ContentBlock) : joinText (blocks.filterMap keep) = joinText blocks := by
  rw [joinText, joinText, List.filterMap_filterMap]
  exact congrArg List.flatten (List.filterMap_congr fun b _ => h b)

theorem namedCalls_filterMap (h : ∀ b, (keep b).bind ContentBlock.named = b.named)
    (blocks : List ContentBlock) : namedCalls (blocks.filterMap keep) = namedCalls blocks := by
  rw [namedCalls, namedCalls, List.filterMap_filterMap]
  exact List.filterMap_congr fun b _ => h b
end

theorem mem_namedCalls {blocks : List ContentBlock} {call : Str × Value} :
    call ∈ namedCalls blocks ↔ ∃ id, .toolUse id call.1 call.2 ∈ blocks := by
  simp only [namedCalls, List.mem_filterMap]
  constructor
  · rintro ⟨b, hb, h⟩
    cases b <;> cases h
    exact ⟨_, hb⟩
  · rintro ⟨id, hb⟩
    exact ⟨_, hb, rfl⟩

theorem optU32_nat {v : Value} {key : String} {n : Nat} (h : n < 2 ^ 32)
    (hGet : v.get key = some (.nat n)) : (optU32 v key).getD 0 = n := by
  rw [optU32, hGet, Option.bind_some, Value.asU64_nat, Option.map_some, Option.getD_some,
    Nat.mod_eq_of_lt h]

/-- The numbers that a usage is written with. -/
theorem Usage.Held.fits {u : Usage} (held : u.Held) (depth : Nat) :
    (Value.nat u.inputTokens).Fits depth ∧ (Value.nat u.outputTokens).Fits depth ∧
      (Value.nat u.cacheReadTokens).Fits depth ∧ (Value.nat u.cacheWriteTokens).Fits depth ∧
      (Value.nat u.reasoningTokens).Fits depth ∧
      (Value.nat ((u.inputTokens + u.outputTokens) % 2 ^ 32)).Fits depth := by
  have hFits {n : Nat} (h : n < 2 ^ 32) : (Value.nat n).Fits depth :=
    fits_nat (h.trans (by decide)) depth
  exact ⟨hFits held.input, hFits held.output, hFits held.cacheRead, hFits held.cacheWrite,
    hFits held.reasoning, hFits (Nat.mod_lt _ (by decide))⟩

variable {r : ChatResponse}

theorem ChatResponse.Held.fits {level : Nat} (held : r.Held)
    (h : ∀ call ∈ namedCalls r.content, call.2.depth + level ≤ maxDepth) {id name : Str}
    {input : Value} (hb : .toolUse id name input ∈ r.content) : input.Fits (maxDepth - level) :=
  have hCall := mem_namedCalls.mpr ⟨id, hb⟩
  ⟨held.arguments (name, input) hCall, Nat.le_sub_of_add_le (h (name, input) hCall)⟩

theorem namedCalls_append (bs cs : List ContentBlock) :
    namedCalls (bs ++ cs) = namedCalls bs ++ namedCalls cs :=
  List.filterMap_append ..

/-- A block whose call has the same name and arguments, text for text. -/
def plainBlock : ContentBlock → Option ContentBlock
  | .text t | .cachedText t _ => some (.text t)
  | .toolUse id name input => some (.toolUse id name input)
  | _ => none

theorem render_isEmpty (v : Value) : v.render.isEmpty = false := by
  obtain ⟨c, rest, hRender, -⟩ := render_head v
  rw [hRender]
  rfl

/-! ### The Messages format -/

namespace Anthropic

theorem fits_emitBlock {b : ContentBlock} {depth : Nat} (spoken : b.isSpoken = true)
    (h : ∀ id name input, b = .toolUse id name input → input.Fits (depth + 1)) :
    (emitBlock b).Fits (depth + 2) := by
  cases b with
  | text t => exact fits_obj (by simp)
  | cachedText t ttl =>
      unfold emitBlock
      cases ttl <;> exact fits_obj (by simp [fits_obj])
  | toolUse id name input =>
      refine fits_obj ?_
      simpa using h id name input rfl
  | thinking t signature =>
      unfold emitBlock
      cases signature <;> exact fits_obj (by simp)
  | _ => cases spoken

theorem fits_emitResponse (held : r.Held) (spoken : ∀ b ∈ r.content, b.isSpoken = true)
    (h : ∀ call ∈ namedCalls r.content, call.2.depth + 3 ≤ maxDepth) :
    (emitResponse r).Fits maxDepth := by
  have hBlocks : (Value.array (r.content.map emitBlock)).Fits 126 := by
    refine fits_array fun v hv => ?_
    obtain ⟨b, hb, rfl⟩ := List.mem_map.mp hv
    exact fits_emitBlock (spoken b hb) fun id name input hCall => held.fits h (hCall ▸ hb)
  have hUsage : (emitUsage r.usage).Fits 126 := by
    refine fits_obj ?_
    simp [held.usage.fits]
  refine fits_obj ?_
  simp [hBlocks, hUsage]

theorem parseBlocks_emitBlock {blocks : List ContentBlock}
    (spoken : ∀ b ∈ blocks, b.isSpoken = true) :
    parseBlocks (blocks.map emitBlock) = .ok blocks := by
  induction blocks with
  | nil => rfl
  | cons b rest ih =>
      obtain ⟨hFirst, hRest⟩ := List.forall_mem_cons.mp spoken
      rw [List.map_cons, parseBlocks, parseBlock_emitBlock hFirst, ih hRest]
      rfl

theorem parseResponse_emitResponse (fits : (emitResponse r).Fits maxDepth)
    (spoken : ∀ b ∈ r.content, b.isSpoken = true) :
    parseResponse (toUtf8 (emitResponse r).render) =
      .ok (responseOf (emitResponse r) r.content) := by
  have hContent : (emitResponse r).get "content" = some (.array (r.content.map emitBlock)) := by
    simp [emitResponse]
  rw [parseResponse, fits.fromSlice]
  simp only [hContent, Option.map_some, Option.getD_some, parseContent,
    parseBlocks_emitBlock spoken]
  rfl

theorem parseStopReason_str {stop reason : StopReason} {called : Bool}
    (h : reason ∈ stopIn .anthropic stop called) :
    parseStopReason (some (stopReasonStr stop)) = reason := by
  cases stop <;> cases h <;> rfl

theorem readsBack_emitResponse (held : r.Held) :
    ReadsBack .anthropic r (responseOf (emitResponse r) r.content) := by
  have hStop : (responseOf (emitResponse r) r.content).stopReason =
      parseStopReason (some (stopReasonStr r.stopReason)) := by
    simp [responseOf, emitResponse]
  have hUsage : (responseOf (emitResponse r) r.content).usage =
      parseUsage (some (emitUsage r.usage)) := by
    simp [responseOf, emitResponse]
  have hContent : (responseOf (emitResponse r) r.content).content = r.content := by
    simp only [responseOf]
  refine ⟨congrArg joinText hContent, congrArg namedCalls hContent, fun reason hReason => ?_, ?_,
    ?_, fun _ => congrArg OpenaiChat.thinkingText hContent⟩
  · rw [hStop]
    exact parseStopReason_str hReason
  · rw [hUsage]
    exact optU32_nat held.usage.input (by simp [emitUsage])
  · rw [hUsage]
    exact optU32_nat held.usage.output (by simp [emitUsage])

theorem mem_parseBlocks {items : List Value} {blocks : List ContentBlock}
    (h : parseBlocks items = .ok blocks) {b : ContentBlock} (hb : b ∈ blocks) :
    ∃ item ∈ items, parseBlock item = .ok b := by
  induction items generalizing blocks with
  | nil =>
      cases h
      cases hb
  | cons item items ih =>
      rw [parseBlocks] at h
      obtain ⟨first, hFirst, h⟩ := bind_eq_ok.mp h
      obtain ⟨rest, hRest, h⟩ := bind_eq_ok.mp h
      cases h
      rcases List.mem_cons.mp hb with rfl | hb
      · exact ⟨item, List.mem_cons_self, hFirst⟩
      · obtain ⟨item', hItem, hParse⟩ := ih hRest hb
        exact ⟨item', List.mem_cons_of_mem _ hItem, hParse⟩

/-- A call has the arguments of its block, or none. -/
theorem input_of_parseBlock {item input : Value} {id name : Str}
    (h : parseBlock item = .ok (.toolUse id name input)) :
    input = (item.get "input").getD (obj []) := by
  rw [parseBlock_eq, readBlock] at h
  split_ifs at h
  · cases h
  cases hKind : optStr item "type" with
  | none =>
      rw [hKind] at h
      cases h
  | some kind =>
      rw [hKind] at h
      unfold blockOf at h
      dsimp only at h
      split_ifs at h
      · split at h
        · split_ifs at h <;> cases h
        · cases h
      · cases h
      · cases h
      · cases h
        rfl
      · cases hContent : ((item.get "content").map parseContent).getD (.ok []) <;>
          rw [hContent] at h <;> cases h
      · cases h
      · unfold carriedBlock at h
        cases item <;> cases h

theorem depth_of_parseResponse {bytes : List UInt8} {back : ChatResponse}
    (h : parseResponse bytes = .ok back) {id name : Str} {input : Value}
    (hb : .toolUse id name input ∈ back.content) : input.depth + 3 ≤ maxDepth := by
  unfold parseResponse at h
  cases hBody : fromSlice bytes with
  | none =>
      rw [hBody] at h
      cases h
  | some v =>
      have kept := kept_of_fromSlice hBody
      simp only [hBody] at h
      cases hContent : v.get "content" with
      | none =>
          rw [hContent] at h
          cases h
          cases hb
      | some content =>
          have hKept := kept.get hContent
          rw [hContent, Option.map_some, Option.getD_some] at h
          cases content with
          | array items =>
              rw [parseContent] at h
              cases hBlocks : parseBlocks items with
              | error e =>
                  rw [hBlocks] at h
                  cases h
              | ok blocks =>
                  rw [hBlocks] at h
                  cases h
                  obtain ⟨item, hItem, hParse⟩ := mem_parseBlocks hBlocks hb
                  rw [input_of_parseBlock hParse]
                  cases hInput : item.get "input" with
                  | none => exact Nat.le_of_ble_eq_true rfl
                  | some input =>
                      have hDepth := ((itemsKept_iff.mp hKept.2 item hItem).get hInput).depth_le
                      exact Nat.add_le_of_le_sub (by decide) hDepth
          | string s =>
              cases h
              cases List.mem_singleton.mp hb
          | null =>
              cases h
              cases hb
          | _ => cases h

end Anthropic

/-! ### Chat Completions -/

namespace OpenaiChat

theorem parseArguments_render {input : Value} (h : input.Fits maxDepth) :
    parseArguments (some input.render) = input := by
  rw [parseArguments, if_neg (by simp [render_isEmpty]), h.fromStr, Option.getD_some]

theorem depth_parseArguments (s : Option Str) : (parseArguments s).depth ≤ maxDepth := by
  unfold parseArguments
  cases s with
  | none => exact Nat.le_of_ble_eq_true rfl
  | some s =>
      dsimp only
      split_ifs
      · exact Nat.le_of_ble_eq_true rfl
      · cases hRead : fromStr s with
        | none => exact Nat.zero_le _
        | some v => exact (kept_of_fromStr hRead).depth_le

theorem fits_emitUsage {u : Usage} (held : u.Held) (depth : Nat) :
    (emitUsage u).Fits (depth + 2) := by
  unfold emitUsage
  refine fits_obj ?_
  split_ifs <;> simp [-Nat.reducePow, held.fits, fits_obj]

theorem fits_emitResponse (held : r.Held) : (emitResponse r).Fits maxDepth := by
  have hCalls : (Value.array (toolCalls r.content)).Fits 3 := by
    refine fits_array fun v hv => ?_
    obtain ⟨b, -, hb⟩ := List.mem_filterMap.mp hv
    cases b <;> cases hb
    exact fits_obj (by simp [fits_obj])
  have hUsage : (emitUsage r.usage).Fits 6 :=
    fits_emitUsage held.usage 4
  have hMessage : (obj ([("role", .string "assistant".toList),
      ("content", if (joinText r.content).isEmpty ∧ ¬ (toolCalls r.content).isEmpty then .null
        else .string (joinText r.content))] ++
      (if (toolCalls r.content).isEmpty then []
        else [("tool_calls", .array (toolCalls r.content))]) ++
      (if (thinkingText r.content).isEmpty then []
        else [("reasoning_content", .string (thinkingText r.content))]))).Fits 4 := by
    refine fits_obj ?_
    split_ifs <;> simp [hCalls]
  have hChoices {message : Value} (h : message.Fits 4) : (Value.array [obj [("index", .nat 0),
      ("message", message), ("finish_reason", .string (stopToFinish r.stopReason))]]).Fits 6 :=
    fits_array (by simp [fits_obj, h, fits_nat])
  have hBody : (emitResponse r).Fits 7 := by
    refine fits_obj ?_
    simp only [List.forall_mem_cons]
    exact ⟨fits_string _ _, fits_string _ _, fits_nat (by decide) _, fits_string _ _,
      hChoices hMessage, hUsage, fun _ h => nomatch h⟩
  exact hBody.mono (by decide)

theorem map_parseCall_toolCalls {blocks : List ContentBlock}
    (h : ∀ id name input, .toolUse id name input ∈ blocks → input.Fits maxDepth) :
    namedCalls ((toolCalls blocks).map parseCall) = namedCalls blocks := by
  induction blocks with
  | nil => rfl
  | cons b rest ih =>
      have hRest := ih fun id name input hb => h id name input (List.mem_cons_of_mem _ hb)
      cases b with
      | toolUse id name input =>
          have hInput := parseArguments_render (h id name input List.mem_cons_self)
          have hCall : (parseCall (toolCall id name input)).named = some (name, input) := by
            simp [parseCall, toolCall, ContentBlock.named, ContentBlock.asCall, hInput]
          exact (List.filterMap_cons_some hCall).trans (congrArg ((name, input) :: ·) hRest)
      | _ => exact hRest

theorem joinText_calls (cs : List Value) : joinText (cs.map parseCall) = [] := by
  induction cs with
  | nil => rfl
  | cons c cs ih => exact ih

theorem namedCalls_texts (texts : List Str) : namedCalls (texts.map .text) = [] := by
  induction texts with
  | nil => rfl
  | cons t texts ih => exact ih

theorem firstChoice_emitResponse (r : ChatResponse) : ∃ choice,
    firstChoice (emitResponse r) = some choice ∧
      optStr choice "finish_reason" = some (stopToFinish r.stopReason) ∧
      messageBlocks ((choice.get "message").getD .null) =
        (nonEmpty (some (joinText r.content))).map .text ++
          (toolCalls r.content).map parseCall := by
  refine ⟨_, by simp [firstChoice, emitResponse, Value.asArray]; rfl, ?_, ?_⟩
  · simp
  · cases hText : joinText r.content <;> cases hCalls : toolCalls r.content <;>
      cases hThinking : thinkingText r.content <;>
      simp [messageBlocks, nonEmpty, Value.asStr, Value.asArray]

theorem finishToStop_stopToFinish {stop reason : StopReason} {called : Bool}
    (h : reason ∈ stopIn .openaiChat stop called) :
    finishToStop (some (stopToFinish stop)) = reason := by
  cases stop <;> cases h <;> rfl

theorem readsBack_emitResponse (held : r.Held)
    (h : ∀ call ∈ namedCalls r.content, call.2.depth + 0 ≤ maxDepth) : ∃ back,
      parseResponse (toUtf8 (emitResponse r).render) = .ok back ∧ ReadsBack .openaiChat r back := by
  obtain ⟨choice, hChoice, hReason, hBlocks⟩ := firstChoice_emitResponse r
  have hUsage : (emitResponse r).get "usage" = some (emitUsage r.usage) := by simp [emitResponse]
  have hCalls := map_parseCall_toolCalls fun id name input hb => held.fits h hb
  refine ⟨responseOf (emitResponse r) choice, ?_, ?_⟩
  · rw [parseResponse, (fits_emitResponse held).fromSlice]
    simp only [hChoice]
  · refine ⟨?_, ?_, fun reason hStop => ?_, ?_, ?_, fun hFormat => absurd hFormat (by decide)⟩
    · rw [responseOf, hBlocks, joinText_append, joinText_calls, List.append_nil]
      cases joinText r.content with
      | nil => rfl
      | cons c cs => simp [nonEmpty, joinText, ContentBlock.asText]
    · rw [responseOf, hBlocks, namedCalls_append, namedCalls_texts, hCalls]
      rfl
    · rw [responseOf, hReason]
      exact finishToStop_stopToFinish hStop
    · rw [responseOf, hUsage]
      exact optU32_nat held.usage.input (by simp [emitUsage]; split_ifs <;> simp)
    · rw [responseOf, hUsage]
      exact optU32_nat held.usage.output (by simp [emitUsage]; split_ifs <;> simp)

theorem depth_of_parseResponse {bytes : List UInt8} {back : ChatResponse}
    (h : parseResponse bytes = .ok back) {id name : Str} {input : Value}
    (hb : .toolUse id name input ∈ back.content) : input.depth ≤ maxDepth := by
  unfold parseResponse at h
  split at h
  · cases h
  · split at h
    · cases h
    · cases h
      rcases List.mem_append.mp hb with hb | hb
      · obtain ⟨t, -, ht⟩ := List.mem_map.mp hb
        cases ht
      · obtain ⟨c, -, hc⟩ := List.mem_map.mp hb
        cases hc
        exact depth_parseArguments _

end OpenaiChat

/-! ### Gemini -/

namespace Gemini

theorem fits_emitPart {b : ContentBlock} {depth : Nat} (spoken : b.isSpoken = true)
    (h : ∀ id name input, b = .toolUse id name input → input.Fits depth) {part : Value}
    (hPart : emitPart b = some part) : part.Fits (depth + 2) := by
  cases b with
  | text t | cachedText t _ =>
      cases hPart
      exact fits_obj (by simp)
  | thinking t _ => cases hPart
  | toolUse id name input =>
      cases hPart
      exact fits_obj (by simp [fits_obj, h id name input rfl])
  | _ => cases spoken

theorem fits_emitResponse (held : r.Held) (spoken : ∀ b ∈ r.content, b.isSpoken = true)
    (h : ∀ call ∈ namedCalls r.content, call.2.depth + 7 ≤ maxDepth) :
    (emitResponse r).Fits maxDepth := by
  have hParts : (Value.array (r.content.filterMap emitPart)).Fits 123 := by
    refine fits_array fun v hv => ?_
    obtain ⟨b, hb, hPart⟩ := List.mem_filterMap.mp hv
    exact fits_emitPart (spoken b hb) (fun id name input hCall => held.fits h (hCall ▸ hb)) hPart
  have hCandidates : (Value.array [obj [("content", obj [("role", .string "model".toList),
      ("parts", .array (r.content.filterMap emitPart))]),
      ("finishReason", .string (stopToGeminiFinish r.stopReason)), ("index", .nat 0)]]).Fits 126 :=
    fits_array (by simp [fits_obj, hParts, fits_nat])
  refine fits_obj ?_
  simp only [List.forall_mem_cons]
  exact ⟨hCandidates, fits_obj (by simp [-Nat.reducePow, held.usage.fits]), fits_string _ _,
    fun _ h => nomatch h⟩

/-- What a part is read as: a call under its name, text as text. -/
def partBlock : ContentBlock → Option ContentBlock
  | .text t | .cachedText t _ => some (.text t)
  | .toolUse _ name input => some (.toolUse name name input)
  | _ => none

theorem parsePart_emitPart {b : ContentBlock} (spoken : b.isSpoken = true) :
    (emitPart b).bind parsePart = partBlock b := by
  cases b with
  | text t | cachedText t _ => simp [emitPart, parsePart, partBlock]
  | thinking t _ => rfl
  | toolUse id name input =>
      simp [emitPart, parsePart, partBlock, inlineData, functionCall, functionResponse]
  | _ => cases spoken

theorem content_emitResponse (spoken : ∀ b ∈ r.content, b.isSpoken = true) :
    (responseOf (emitResponse r)).content = r.content.filterMap partBlock := by
  have hParts : (responseOf (emitResponse r)).content =
      (r.content.filterMap emitPart).filterMap parsePart := by
    simp [responseOf, emitResponse, firstCandidate, parseParts, Value.asArray]
  rw [hParts, List.filterMap_filterMap]
  exact List.filterMap_congr fun b hb => parsePart_emitPart (spoken b hb)

theorem any_isToolUse (blocks : List ContentBlock) :
    (blocks.filterMap partBlock).any isToolUse = !(namedCalls blocks).isEmpty := by
  induction blocks with
  | nil => rfl
  | cons b rest ih => cases b <;> first | exact ih | rfl

theorem stopReason_emitResponse (spoken : ∀ b ∈ r.content, b.isSpoken = true) :
    (responseOf (emitResponse r)).stopReason =
      geminiFinishToStop (some (stopToGeminiFinish r.stopReason)) r.called := by
  rw [ChatResponse.called, ← any_isToolUse, ← content_emitResponse spoken]
  simp [responseOf, emitResponse, firstCandidate, Value.asArray]

theorem geminiFinishToStop_finish {stop reason : StopReason} {called : Bool}
    (calling : stop = .toolUse → called = true) (h : reason ∈ stopIn .gemini stop called) :
    geminiFinishToStop (some (stopToGeminiFinish stop)) called = reason := by
  cases stop with
  | endTurn => cases called <;> cases h <;> rfl
  | maxTokens =>
      cases h
      rfl
  | toolUse =>
      obtain rfl := calling rfl
      cases h
      rfl
  | stopSequence | other s => cases h

theorem parseResponse_emitResponse (fits : (emitResponse r).Fits maxDepth) :
    parseResponse (toUtf8 (emitResponse r).render) = .ok (responseOf (emitResponse r)) := by
  simp only [parseResponse, fits.fromSlice]

theorem readsBack_emitResponse (held : r.Held) (spoken : ∀ b ∈ r.content, b.isSpoken = true)
    (calling : r.stopReason = .toolUse → r.called = true) :
    ReadsBack .gemini r (responseOf (emitResponse r)) := by
  have hUsage : (responseOf (emitResponse r)).usage =
      parseUsage ((emitResponse r).get "usageMetadata") := rfl
  have hMeta : (emitResponse r).get "usageMetadata" = some (geminiUsage r.usage) := by
    simp [emitResponse, geminiUsage]
  have hContent := content_emitResponse spoken
  refine ⟨?_, ?_, fun reason hStop => ?_, ?_, ?_, fun hFormat => absurd hFormat (by decide)⟩
  · rw [hContent]
    exact joinText_filterMap (fun b => by cases b <;> rfl) _
  · rw [hContent]
    exact namedCalls_filterMap (fun b => by cases b <;> rfl) _
  · rw [stopReason_emitResponse spoken]
    exact geminiFinishToStop_finish calling hStop
  · rw [hUsage, hMeta]
    exact optU32_nat held.usage.input (by simp [geminiUsage])
  · rw [hUsage, hMeta]
    exact optU32_nat held.usage.output (by simp [geminiUsage])

theorem input_of_parsePart {p input : Value} {id name : Str}
    (h : parsePart p = some (.toolUse id name input)) :
    ∃ fc, functionCall p = some fc ∧ input = (fc.get "args").getD (obj []) := by
  unfold parsePart at h
  split at h <;> cases h
  exact ⟨_, ‹_›, rfl⟩

theorem kept_functionCall {depth : Nat} {p fc : Value} (kept : p.Kept depth)
    (h : functionCall p = some fc) : fc.Kept (depth - 1) := by
  rcases Option.or_eq_some_iff.mp h with h | ⟨-, h⟩ <;> exact kept.get h

theorem depth_of_parseResponse {bytes : List UInt8} {back : ChatResponse}
    (h : parseResponse bytes = .ok back) {id name : Str} {input : Value}
    (hb : .toolUse id name input ∈ back.content) : input.depth + 7 ≤ maxDepth := by
  unfold parseResponse at h
  cases hBody : fromSlice bytes with
  | none =>
      rw [hBody] at h
      cases h
  | some v =>
      have kept := kept_of_fromSlice hBody
      rw [hBody] at h
      cases h
      simp only [responseOf] at hb
      cases hContent : (firstCandidate v).bind (·.get "content") with
      | none =>
          rw [hContent] at hb
          cases hb
      | some content =>
          obtain ⟨candidate, hCandidate, hGet⟩ := Option.bind_eq_some_iff.mp hContent
          obtain ⟨candidates, hArr, hHead⟩ := Option.bind_eq_some_iff.mp hCandidate
          have hKept := (kept_of_optArr kept hArr (List.mem_of_head? hHead)).get hGet
          rw [hContent, Option.map_some, Option.getD_some, parseParts] at hb
          cases hParts : optArr content "parts" with
          | none =>
              have hNone : (content.get "parts").bind Value.asArray = none := hParts
              rw [hNone] at hb
              cases hb
          | some parts =>
              have hSome : (content.get "parts").bind Value.asArray = some parts := hParts
              rw [hSome, Option.getD_some] at hb
              obtain ⟨p, hp, hParse⟩ := List.mem_filterMap.mp hb
              obtain ⟨fc, hCall, rfl⟩ := input_of_parsePart hParse
              have hFc := kept_functionCall (kept_of_optArr hKept hParts hp) hCall
              cases hArgs : fc.get "args" with
              | none => exact Nat.le_of_ble_eq_true rfl
              | some args => exact Nat.add_le_of_le_sub (by decide) (hFc.get hArgs).depth_le

end Gemini

/-! ### Responses -/

namespace OpenaiResponses

theorem parseArguments_render {input : Value} (h : input.Fits maxDepth) :
    parseArguments (some input.render) = input := by
  rw [parseArguments, if_neg (by simp [render_isEmpty]), h.fromStr, Option.getD_some]

/-- The blocks that the items written so far, and the text that waits, are read as. -/
def Writing.blocks (w : Writing) : List ContentBlock :=
  w.output.flatMap outputBlocks ++ w.textParts.filterMap parsePart

/-- What an item is read as. -/
def itemBlock : ContentBlock → Option ContentBlock
  | .text t | .cachedText t _ => some (.text t)
  | .toolUse id name input => some (.toolUse id name (parseArguments (some input.render)))
  | _ => none

theorem Writing.blocks_flush (w : Writing) : w.flush.blocks = w.blocks := by
  unfold flush
  split_ifs
  · rfl
  · simp [blocks, outputBlocks, parseContentParts]

theorem Writing.textParts_flush (w : Writing) : w.flush.textParts = [] := by
  unfold flush
  split_ifs with h
  · exact List.isEmpty_iff.mp h
  · rfl

theorem parsePart_outputText (t : Str) :
    parsePart (obj [("type", .string "output_text".toList), ("text", .string t)]) =
      some (.text t) := by
  have hKind : optStr (obj [("type", .string "output_text".toList), ("text", .string t)]) "type" =
      some "output_text".toList := by simp
  have hText : optStr (obj [("type", .string "output_text".toList), ("text", .string t)]) "text" =
      some t := by simp
  have hPlain : (obj [("type", .string "output_text".toList), ("text", .string t)]).get
      "prompt_cache_breakpoint" = none := by simp
  rw [parsePart, hKind]
  dsimp only
  rw [if_pos (.inr (.inl rfl)), hText, hPlain]
  rfl

theorem Writing.blocks_write (w : Writing) (b : ContentBlock) :
    (w.write b).blocks = w.blocks ++ (itemBlock b).toList := by
  cases b with
  | text t | cachedText t _ =>
      simp only [write, blocks, itemBlock, List.filterMap_append, List.append_assoc]
      rw [List.filterMap_cons_some (parsePart_outputText t)]
      rfl
  | toolUse id name input =>
      rw [← w.blocks_flush]
      simp [write, blocks, itemBlock, outputBlocks, w.textParts_flush]
  | _ => exact (List.append_nil _).symm

theorem Writing.blocks_foldl (w : Writing) (bs : List ContentBlock) :
    (bs.foldl write w).blocks = w.blocks ++ bs.filterMap itemBlock := by
  induction bs generalizing w with
  | nil => exact (List.append_nil _).symm
  | cons b bs ih =>
      rw [List.foldl_cons, ih, blocks_write, List.append_assoc]
      cases hBlock : itemBlock b with
      | none => rw [List.filterMap_cons_none hBlock]; rfl
      | some b' => rw [List.filterMap_cons_some hBlock]; rfl

/-- The items written so far fit a body, and so does the text that waits. -/
structure Writing.Fit (w : Writing) : Prop where
  output : ∀ item ∈ w.output, item.Fits 3
  textParts : ∀ part ∈ w.textParts, part.Fits 1

theorem Writing.Fit.flush {w : Writing} (h : w.Fit) : w.flush.Fit := by
  unfold Writing.flush
  split_ifs
  · exact h
  · refine ⟨List.forall_mem_append.mpr ⟨h.output, ?_⟩, fun _ hp => nomatch hp⟩
    have hParts := fits_array h.textParts
    rw [List.forall_mem_singleton]
    exact fits_obj (by simp [hParts])

theorem Writing.Fit.write {w : Writing} (h : w.Fit) (b : ContentBlock) : (w.write b).Fit := by
  cases b with
  | text t | cachedText t _ =>
      refine ⟨h.output, List.forall_mem_append.mpr ⟨h.textParts, ?_⟩⟩
      rw [List.forall_mem_singleton]
      exact fits_obj (by simp)
  | toolUse id name input =>
      refine ⟨List.forall_mem_append.mpr ⟨h.flush.output, ?_⟩, h.flush.textParts⟩
      rw [List.forall_mem_singleton]
      exact fits_obj (by simp)
  | _ => exact h

theorem Writing.Fit.foldl {w : Writing} (h : w.Fit) (bs : List ContentBlock) :
    (bs.foldl Writing.write w).Fit := by
  induction bs generalizing w with
  | nil => exact h
  | cons b bs ih => exact ih (h.write b)

theorem fits_emitResponse (held : r.Held) : (emitResponse r).Fits maxDepth := by
  have hStart : ({} : Writing).Fit := ⟨fun _ h => (nomatch h), fun _ h => (nomatch h)⟩
  have hOutput := fits_array (hStart.foldl r.content).flush.output
  have hUsage : (usageValue r.usage).Fits 4 := by
    refine fits_obj ?_
    simp [-Nat.reducePow, held.usage.fits, fits_obj]
  have hBody : (emitResponse r).Fits 5 := by
    refine fits_obj (List.forall_mem_append.mpr ⟨?_, ?_⟩)
    · simp only [List.forall_mem_cons]
      exact ⟨fits_string _ _, fits_string _ _, fits_string _ _, fits_string _ _, hOutput, hUsage,
        fun _ h => nomatch h⟩
    · unfold cacheFields
      cases r.promptCacheKey <;> simp
  exact hBody.mono (by decide)

/-! The calls among the items. -/

theorem Writing.calls_flush (w : Writing) :
    w.flush.output.any isFunctionCall = w.output.any isFunctionCall := by
  unfold flush
  split_ifs
  · rfl
  · simp [isFunctionCall]

theorem Writing.calls_write (w : Writing) (b : ContentBlock) :
    (w.write b).output.any isFunctionCall =
      (w.output.any isFunctionCall || b.named.isSome) := by
  cases b with
  | toolUse id name input =>
      rw [← w.calls_flush]
      simp [write, isFunctionCall, ContentBlock.named, ContentBlock.asCall]
  | _ => exact (Bool.or_false _).symm

theorem Writing.calls_foldl (w : Writing) (bs : List ContentBlock) :
    (bs.foldl write w).output.any isFunctionCall =
      (w.output.any isFunctionCall || !(namedCalls bs).isEmpty) := by
  induction bs generalizing w with
  | nil => exact (Bool.or_false _).symm
  | cons b bs ih =>
      rw [List.foldl_cons, ih, calls_write, Bool.or_assoc]
      cases hName : b.named with
      | none => rw [namedCalls, namedCalls, List.filterMap_cons_none hName]; rfl
      | some call => rw [namedCalls, namedCalls, List.filterMap_cons_some hName]; rfl

/-- The members before the prompt-cache fields. -/
theorem get_emitResponse {key : String}
    (h : key ∉ ["prompt_cache_key", "prompt_cache_retention"]) (r : ChatResponse) :
    (emitResponse r).get key = (obj [("id", .string r.id), ("object", .string "response".toList),
      ("model", .string r.model), ("status", .string "completed".toList),
      ("output", .array (r.content.foldl Writing.write {}).flush.output),
      ("usage", usageValue r.usage)]).get key := by
  refine get_obj_append fun hKey => ?_
  unfold cacheFields at hKey
  cases hCache : r.promptCacheKey <;> rw [hCache] at hKey
  · cases hKey
  · exact h hKey

theorem outputItems_emitResponse (r : ChatResponse) :
    outputItems (emitResponse r) = (r.content.foldl Writing.write {}).flush.output := by
  rw [outputItems, optArr, get_emitResponse (by decide)]
  simp only [get_obj, List.foldl_cons, List.foldl_nil, String.reduceEq, if_false, if_true]
  rfl

theorem stopReasonOf_emitResponse (r : ChatResponse) :
    stopReasonOf (emitResponse r) = if r.called then .toolUse else .endTurn := by
  have hStatus : optStr (emitResponse r) "status" = some "completed".toList := by
    rw [optStr, get_emitResponse (by decide)]
    simp only [get_obj, List.foldl_cons, List.foldl_nil, String.reduceEq, if_false, if_true]
    rfl
  have hCalled : (outputItems (emitResponse r)).any isFunctionCall = r.called := by
    rw [outputItems_emitResponse, Writing.calls_flush, Writing.calls_foldl]
    rfl
  rw [stopReasonOf, hStatus, if_neg (by decide), hCalled]

theorem content_emitResponse (r : ChatResponse) :
    (responseOf (emitResponse r)).content = r.content.filterMap itemBlock := by
  have hBlocks := Writing.blocks_foldl {} r.content
  rw [← Writing.blocks_flush, Writing.blocks, Writing.textParts_flush] at hBlocks
  have hContent : (responseOf (emitResponse r)).content =
      (outputItems (emitResponse r)).flatMap outputBlocks := rfl
  rw [hContent, outputItems_emitResponse]
  simpa [Writing.blocks] using hBlocks

theorem parseResponse_emitResponse (held : r.Held) :
    parseResponse (toUtf8 (emitResponse r).render) = .ok (responseOf (emitResponse r)) := by
  simp only [parseResponse, (fits_emitResponse held).fromSlice]

theorem readsBack_emitResponse (held : r.Held)
    (calling : r.stopReason = .toolUse → r.called = true)
    (h : ∀ call ∈ namedCalls r.content, call.2.depth + 0 ≤ maxDepth) :
    ReadsBack .openaiResponses r (responseOf (emitResponse r)) := by
  have hUsage : (responseOf (emitResponse r)).usage = parseUsage (some (usageValue r.usage)) := by
    rw [responseOf, get_emitResponse (by decide)]
    simp only [get_obj, List.foldl_cons, List.foldl_nil, String.reduceEq, if_false, if_true]
  have hContent := content_emitResponse r
  refine ⟨?_, ?_, fun reason hStop => ?_, ?_, ?_, fun hFormat => absurd hFormat (by decide)⟩
  · rw [hContent]
    exact joinText_filterMap (fun b => by cases b <;> rfl) _
  · rw [hContent, namedCalls, namedCalls, List.filterMap_filterMap]
    refine List.filterMap_congr fun b hb => ?_
    cases b with
    | toolUse id name input => simp [itemBlock, parseArguments_render (held.fits h hb)]
    | _ => rfl
  · have hReason : (responseOf (emitResponse r)).stopReason = stopReasonOf (emitResponse r) := rfl
    rw [hReason, stopReasonOf_emitResponse]
    cases hKind : r.stopReason <;> rw [hKind] at hStop
    case endTurn => exact Option.some.inj hStop
    case toolUse =>
      rw [calling hKind]
      exact Option.some.inj hStop
    all_goals cases hStop
  · rw [hUsage]
    exact optU32_nat held.usage.input (by simp [usageValue])
  · rw [hUsage]
    exact optU32_nat held.usage.output (by simp [usageValue])

theorem parsePart_ne_toolUse (p : Value) (id name : Str) (input : Value) :
    parsePart p ≠ some (.toolUse id name input) := by
  intro h
  unfold parsePart at h
  split at h
  · cases h
  · dsimp only at h
    split_ifs at h
    · cases h
    · cases h
    · split at h <;> cases h

theorem depth_of_outputBlocks {item input : Value} {id name : Str}
    (hb : .toolUse id name input ∈ outputBlocks item) : input.depth ≤ maxDepth := by
  by_cases hMessage : optStr item "type" = some "message".toList
  · rw [outputBlocks_message hMessage] at hb
    unfold parseContentParts at hb
    split at hb
    · cases List.mem_singleton.mp hb
    · obtain ⟨p, -, hp⟩ := List.mem_filterMap.mp hb
      exact absurd hp (parsePart_ne_toolUse p id name input)
    · cases hb
  · by_cases hCall : optStr item "type" = some "function_call".toList
    · rw [outputBlocks_functionCall hCall] at hb
      cases List.mem_singleton.mp hb
      exact OpenaiChat.depth_parseArguments _
    · obtain ⟨t, ht⟩ := outputBlocks_other hMessage hCall _ hb
      cases ht

theorem depth_of_parseResponse {bytes : List UInt8} {back : ChatResponse}
    (h : parseResponse bytes = .ok back) {id name : Str} {input : Value}
    (hb : .toolUse id name input ∈ back.content) : input.depth ≤ maxDepth := by
  unfold parseResponse at h
  split at h
  · cases h
  · cases h
    obtain ⟨item, -, hItem⟩ := List.mem_flatMap.mp hb
    exact depth_of_outputBlocks hItem

end OpenaiResponses

/-! ### All formats -/

theorem depth_of_readResponse {f : WireFormat} {bytes : List UInt8} {back : ChatResponse}
    (h : readResponse f bytes = .ok back) {call : Str × Value}
    (hCall : call ∈ namedCalls back.content) : call.2.depth + argumentsLevel f ≤ maxDepth := by
  obtain ⟨id, hb⟩ := mem_namedCalls.mp hCall
  cases f with
  | anthropic => exact Anthropic.depth_of_parseResponse h hb
  | openaiChat => exact OpenaiChat.depth_of_parseResponse h hb
  | openaiResponses => exact OpenaiResponses.depth_of_parseResponse h hb
  | gemini => exact Gemini.depth_of_parseResponse h hb

/-- A turn with one call that ends for a reason. -/
def callingAnswer (stop : StopReason) : ChatResponse where
  id := "r".toList
  model := "m".toList
  content := [.text "Hi".toList, .toolUse "c".toList "look".toList (obj [])]
  stopReason := stop
  usage := { inputTokens := 3, outputTokens := 5 }

theorem held_callingAnswer (stop : StopReason) : (callingAnswer stop).Held := by
  refine ⟨fun call hCall => ?_, ?_⟩
  · cases List.mem_singleton.mp hCall
    exact (fits_obj (fun f hf => nomatch hf) : (obj []).Fits 1).1
  · constructor <;> exact of_decide_eq_true rfl

theorem spoken_callingAnswer (stop : StopReason) :
    ∀ b ∈ (callingAnswer stop).content, b.isSpoken = true := by
  simp [callingAnswer, ContentBlock.isSpoken]

end Gateway.Wire
