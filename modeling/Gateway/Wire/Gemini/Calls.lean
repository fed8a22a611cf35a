import Gateway.Wire.Anthropic.Response
import Gateway.Wire.Gemini.Response
import Gateway.Wire.OpenaiChat.Response
import Gateway.Wire.OpenaiResponses.Response
import Gateway.Wire.Reconstruction

/-! The ids under which the calls of a Gemini answer reach the clients of the
other surfaces. -/
namespace Gateway.Wire

open Json

/-! ### The calls in a body -/

def OpenaiChat.bodyCallIds (body : Value) : List Str :=
  let message := ((firstChoice body).bind (·.get "message")).getD .null
  ((optArr message "tool_calls").getD []).map fun c => (optStr c "id").getD []

def OpenaiResponses.itemCallId (item : Value) : Option Str :=
  if isFunctionCall item then optStr item "call_id" else none

def OpenaiResponses.bodyCallIds (body : Value) : List Str :=
  (outputItems body).filterMap itemCallId

def Anthropic.isToolUse (b : Value) : Bool := optStr b "type" = some "tool_use".toList

def Anthropic.blockCallId (b : Value) : Option Str := if isToolUse b then optStr b "id" else none

def Anthropic.bodyCallIds (body : Value) : List Str :=
  ((optArr body "content").getD []).filterMap blockCallId

/-- The ids of the calls of a response. -/
def ChatResponse.callIds (resp : ChatResponse) : List Str := resp.calls.map Prod.fst

def blockId : ContentBlock → Option Str
  | .toolUse id _ _ => some id
  | _ => none

theorem ChatResponse.callIds_eq (resp : ChatResponse) :
    resp.callIds = resp.content.filterMap blockId := by
  rw [callIds, calls, List.map_filterMap]
  refine List.filterMap_congr fun b _ => ?_
  cases b <;> rfl

theorem OpenaiChat.callIds_toolCalls (blocks : List ContentBlock) :
    (toolCalls blocks).map (fun c => (optStr c "id").getD []) = blocks.filterMap blockId := by
  induction blocks with
  | nil => rfl
  | cons b rest ih =>
      cases b with
      | toolUse id name input =>
          have hId : (optStr (toolCall id name input) "id").getD [] = id := by
            rw [toolCall, optStr_obj]
            rfl
          exact congrArg₂ List.cons hId ih
      | _ => exact ih

theorem OpenaiChat.bodyCallIds_emitResponse (resp : ChatResponse) :
    bodyCallIds (emitResponse resp) = resp.callIds := by
  have hMessage : bodyCallIds (emitResponse resp) =
      (toolCalls resp.content).map fun c => (optStr c "id").getD [] := by
    unfold bodyCallIds emitResponse firstChoice
    simp only [optArr_obj, List.foldl_cons, List.foldl_nil, String.reduceEq, if_false, if_true,
      Value.asArray_array, Option.bind_some, List.head?_cons, get_obj, Option.getD_some]
    by_cases hCalls : (toolCalls resp.content).isEmpty
    · by_cases hReasoning : (thinkingText resp.content).isEmpty
      all_goals
        simp only [if_pos hCalls, hReasoning, if_true, Bool.false_eq_true, if_false, List.append_nil,
          List.foldl_cons, List.foldl_nil, List.foldl_append, String.reduceEq]
        rw [List.isEmpty_iff.mp hCalls]
        rfl
    · by_cases hReasoning : (thinkingText resp.content).isEmpty
      all_goals
        simp only [if_neg hCalls, hReasoning, if_true, Bool.false_eq_true, if_false, List.append_nil,
          List.foldl_cons, List.foldl_nil, List.foldl_append, String.reduceEq, Value.asArray_array,
          Option.getD_some]
  rw [hMessage, resp.callIds_eq]
  exact callIds_toolCalls resp.content

theorem OpenaiResponses.itemCallIds_flush (w : Writing) :
    w.flush.output.filterMap itemCallId = w.output.filterMap itemCallId := by
  unfold Writing.flush
  split_ifs
  · rfl
  · have hMessage : itemCallId (obj [("type", .string "message".toList),
        ("role", .string "assistant".toList), ("content", .array w.textParts)]) = none := by
      have hOther : isFunctionCall (obj [("type", .string "message".toList),
          ("role", .string "assistant".toList), ("content", .array w.textParts)]) = false := by
        simp only [isFunctionCall, optStr_obj, List.foldl_cons, List.foldl_nil, String.reduceEq,
          if_false, if_true, Value.asStr_string]
        decide
      rw [itemCallId, hOther]
      rfl
    rw [List.filterMap_append, List.filterMap_cons, hMessage]
    exact List.append_nil _

theorem OpenaiResponses.itemCallIds_write (w : Writing) (blocks : List ContentBlock) :
    (blocks.foldl Writing.write w).output.filterMap itemCallId =
      w.output.filterMap itemCallId ++ blocks.filterMap blockId := by
  induction blocks generalizing w with
  | nil => exact (List.append_nil _).symm
  | cons b rest ih =>
      rw [List.foldl_cons, ih]
      cases b with
      | toolUse id name input =>
          have hCall : (w.write (.toolUse id name input)).output.filterMap itemCallId =
              w.output.filterMap itemCallId ++ [id] := by
            have hId : itemCallId (obj [("type", .string "function_call".toList),
                ("call_id", .string id), ("name", .string name),
                ("arguments", .string input.render),
                ("status", .string "completed".toList)]) = some id := by
              simp only [itemCallId, isFunctionCall, optStr_obj, List.foldl_cons, List.foldl_nil,
                String.reduceEq, if_false, if_true, Value.asStr_string, decide_true]
            rw [Writing.write, List.filterMap_append, itemCallIds_flush, List.filterMap_cons, hId]
            rfl
          rw [hCall, List.append_assoc]
          rfl
      | _ => rfl

theorem OpenaiResponses.bodyCallIds_emitResponse (resp : ChatResponse) :
    bodyCallIds (emitResponse resp) = resp.callIds := by
  have hItems : outputItems (emitResponse resp) =
      (resp.content.foldl Writing.write {}).flush.output := by
    have hCache : "output" ∉ (cacheFields resp.promptCacheKey
        resp.promptCacheRetention).map Prod.fst := by
      cases resp.promptCacheKey <;> simp [cacheFields]
    rw [outputItems, optArr, emitResponse, get_obj_append hCache]
    simp only [get_obj, List.foldl_cons, List.foldl_nil, String.reduceEq, if_false, if_true,
      Option.bind_some, Value.asArray_array, Option.getD_some]
  rw [bodyCallIds, hItems, itemCallIds_flush, itemCallIds_write, resp.callIds_eq]
  rfl

theorem Anthropic.blockCallId_emitBlock {b : ContentBlock}
    (hPlain : ∀ format raw, b ≠ .native format raw) : blockCallId (emitBlock b) = blockId b := by
  cases b with
  | native format raw => exact absurd rfl (hPlain format raw)
  | toolUse id name input =>
      simp only [emitBlock, blockCallId, isToolUse, optStr_obj, List.foldl_cons, List.foldl_nil,
        String.reduceEq, if_false, if_true, Value.asStr_string, decide_true]
      rfl
  | thinking text signature =>
      have hNone : optStr (emitBlock (.thinking text signature)) "id" = none := by
        cases signature <;> simp only [emitBlock, optStr_obj, List.foldl_append, List.foldl_cons,
          List.foldl_nil, String.reduceEq, if_false]
      rw [blockCallId, hNone, ite_self]
      rfl
  | toolResult toolUseId content isError =>
      have hNone : optStr (emitBlock (.toolResult toolUseId content isError)) "id" = none := by
        cases isError <;> simp only [emitBlock, optStr_obj, List.foldl_append, List.foldl_cons,
          List.foldl_nil, String.reduceEq, if_false, if_true, Bool.false_eq_true]
      rw [blockCallId, hNone, ite_self]
      rfl
  | _ =>
      simp only [emitBlock, blockCallId, optStr_obj, List.foldl_cons, List.foldl_nil,
        String.reduceEq, if_false, ite_self]
      rfl

theorem Anthropic.bodyCallIds_emitResponse {resp : ChatResponse}
    (hPlain : ∀ b ∈ resp.content, ∀ format raw, b ≠ .native format raw) :
    bodyCallIds (emitResponse resp) = resp.callIds := by
  have hContent : optArr (emitResponse resp) "content" = some (resp.content.map emitBlock) := by
    simp only [emitResponse, optArr_obj, List.foldl_cons, List.foldl_nil, String.reduceEq,
      if_false, if_true, Value.asArray_array]
  rw [bodyCallIds, hContent, Option.getD_some, List.filterMap_map, resp.callIds_eq]
  exact List.filterMap_congr fun b hb => blockCallId_emitBlock (hPlain b hb)

namespace Gemini

/-! ### Buffered -/

/-- The parts of an answer's first candidate. -/
def answerParts (v : Value) : List Value :=
  ((((firstCandidate v).bind (·.get "content")).bind (·.get "parts")).bind Value.asArray).getD []

/-- The function that a part calls, if it is no text. -/
def calledName (p : Value) : Option Str :=
  if (optStr p "text").isSome then none
  else (functionCall p).map fun fc => (optStr fc "name").getD []

/-- A part that holds data as well is an image to the buffered parser. -/
def bufferedName (p : Value) : Option Str := if (inlineData p).isSome then none else calledName p

theorem content_responseOf (v : Value) :
    (responseOf v).content = (answerParts v).filterMap parsePart := by
  unfold responseOf answerParts parseParts
  dsimp only
  cases (firstCandidate v).bind (·.get "content") <;> rfl

theorem blockId_parsePart (p : Value) : (parsePart p).bind blockId = bufferedName p := by
  unfold parsePart bufferedName calledName
  cases optStr p "text" with
  | some text => exact (ite_self none).symm
  | none =>
      cases inlineData p with
      | some inline => rfl
      | none =>
          cases functionCall p with
          | some fc => rfl
          | none => cases functionResponse p <;> rfl

theorem callIds_responseOf (v : Value) :
    (responseOf v).callIds = (answerParts v).filterMap bufferedName := by
  rw [ChatResponse.callIds_eq, content_responseOf, List.filterMap_filterMap]
  exact List.filterMap_congr fun p _ => blockId_parsePart p

theorem plain_responseOf (v : Value) :
    ∀ b ∈ (responseOf v).content, ∀ format raw, b ≠ .native format raw := by
  intro b hb format raw hNative
  rw [content_responseOf, hNative] at hb
  obtain ⟨p, -, hp⟩ := List.mem_filterMap.mp hb
  unfold parsePart at hp
  split at hp <;> cases hp

/-! ### Streamed -/

def decodeLines (lines : List Str) : List StreamEvent :=
  (Transducer.run (fun s line => decodeSse line s) {} lines).1

/-- The functions that a stream calls, in order. -/
def calledNames (lines : List Str) : List Str :=
  ((lines.filterMap sseValue).flatMap answerParts).filterMap calledName

/-- Events whose calls are complete, and have these names as ids. -/
structure Calls (names : List Str) (es : List StreamEvent) : Prop where
  whole : ∀ inCall, Uninterrupted inCall es
  ids : ∀ tools, (es.foldl toolsAfter tools).map PartialTool.id = tools.map PartialTool.id ++ names

theorem uninterrupted_append {inCall : Bool} {es fs : List StreamEvent}
    (h : Uninterrupted inCall es) (hRest : ∀ inCall, Uninterrupted inCall fs) :
    Uninterrupted inCall (es ++ fs) := by
  induction es generalizing inCall with
  | nil => exact hRest inCall
  | cons e rest ih => exact ⟨h.1, ih h.2⟩

theorem Calls.append {names more : List Str} {es fs : List StreamEvent} (h : Calls names es)
    (h' : Calls more fs) : Calls (names ++ more) (es ++ fs) where
  whole inCall := uninterrupted_append (h.whole inCall) h'.whole
  ids tools := by rw [List.foldl_append, h'.ids, h.ids, List.append_assoc]

theorem Calls.nil : Calls [] [] := ⟨fun _ => trivial, fun _ => (List.append_nil _).symm⟩

theorem Calls.none {e : StreamEvent} (hStray : ∀ inCall, isStray inCall e = false)
    (hTools : ∀ tools, toolsAfter tools e = tools) : Calls [] [e] where
  whole inCall := ⟨hStray inCall, trivial⟩
  ids tools := by rw [List.foldl_cons, hTools, List.foldl_nil, List.append_nil]

theorem calls_decodePart (toolOpen : Bool) (p : Value) :
    Calls (calledName p).toList (decodePart toolOpen p).1 := by
  unfold decodePart calledName
  cases optStr p "text" with
  | some text => exact Calls.none (fun _ => rfl) fun _ => rfl
  | none =>
      rw [functionCall]
      cases (p.get "functionCall").or (p.get "function_call") with
      | none => exact Calls.nil
      | some fc =>
          refine ⟨fun inCall => ⟨rfl, rfl, trivial⟩, fun tools => ?_⟩
          rw [List.foldl_cons, List.foldl_cons, toolsAfter, toolsAfter, extendLast_concat]
          simp

theorem calls_parts (toolOpen : Bool) (parts : List Value) :
    Calls (parts.filterMap calledName) (Transducer.run decodePart toolOpen parts).1 := by
  induction parts generalizing toolOpen with
  | nil => exact Calls.nil
  | cons p rest ih =>
      have hPart := (calls_decodePart toolOpen p).append (ih (decodePart toolOpen p).2)
      rw [List.filterMap_cons, Transducer.run_cons]
      cases hName : calledName p <;> rwa [hName] at hPart

theorem calls_decodeValue (v : Value) (s : SseState) :
    Calls ((answerParts v).filterMap calledName) (decodeValue v s).1 := by
  have hStart : Calls []
      (if s.started then [] else [.messageStart ((optStr v "modelVersion").getD [])]) := by
    split_ifs
    · exact Calls.nil
    · exact Calls.none (fun _ => rfl) fun _ => rfl
  have hDone (reason : StopReason) : Calls [] [.done reason] :=
    Calls.none (fun _ => rfl) fun _ => rfl
  have hUsage (u : Usage) : Calls [] [.usageDelta u] := Calls.none (fun _ => rfl) fun _ => rfl
  unfold decodeValue answerParts
  rw [firstCandidate]
  cases (optArr v "candidates").bind List.head? with
  | none => exact hStart
  | some candidate =>
      dsimp only
      rw [Option.bind_some]
      have hParts := hStart.append (calls_parts s.toolOpen
        ((((candidate.get "content").bind (·.get "parts")).bind Value.asArray).getD []))
      refine (List.append_nil (List.filterMap calledName _)) ▸ hParts.append ?_
      cases optStr candidate "finishReason" with
      | none => exact Calls.nil
      | some reason =>
          dsimp only
          cases (v.get "usageMetadata").filter (fun u => !u.isNull) with
          | none => exact hDone _
          | some u => exact (hUsage _).append (hDone _)

theorem calls_decodeLines (lines : List Str) : Calls (calledNames lines) (decodeLines lines) := by
  suffices ∀ s, Calls (calledNames lines)
      (Transducer.run (fun s line => decodeSse line s) s lines).1 from this {}
  intro s
  induction lines generalizing s with
  | nil => exact Calls.nil
  | cons line rest ih =>
      rw [Transducer.run_cons, calledNames, List.filterMap_cons]
      cases hValue : sseValue line with
      | none =>
          have hLine : decodeSse line s = ([], s) := by rw [decodeSse, hValue]
          rw [hLine]
          exact ih s
      | some v =>
          have hLine : decodeSse line s = decodeValue v s := by rw [decodeSse, hValue]
          rw [hLine, List.flatMap_cons, List.filterMap_append]
          exact (calls_decodeValue v s).append (ih _)

/-- The calls of a Gemini answer reach the clients of the other surfaces under
their functions' names, in order, whether the answer is buffered or streamed. -/
theorem call_ids_are_names (bytes : List UInt8) (v : Value) (lines : List Str)
    (includeUsage : Bool) (key retention : Option Str) (hBody : fromSlice bytes = some v) :
    (∃ resp, parseResponse bytes = .ok resp ∧
      Anthropic.bodyCallIds (Anthropic.emitResponse resp) = (answerParts v).filterMap bufferedName ∧
      OpenaiChat.bodyCallIds (OpenaiChat.emitResponse resp) =
        (answerParts v).filterMap bufferedName ∧
      OpenaiResponses.bodyCallIds (OpenaiResponses.emitResponse resp) =
        (answerParts v).filterMap bufferedName) ∧
    (Anthropic.streamed (decodeLines lines)).calls.map PartialTool.id = calledNames lines ∧
    (OpenaiChat.streamed includeUsage (decodeLines lines)).calls.map PartialTool.id =
      calledNames lines ∧
    (OpenaiResponses.streamed key retention (decodeLines lines)).calls.map PartialTool.id =
      calledNames lines := by
  have hCalls := calls_decodeLines lines
  have hStreamed : (stepReadings false {} (decodeLines lines)).calls.map PartialTool.id =
      calledNames lines := by
    rw [stepReadings_of_uninterrupted (hCalls.whole false)]
    exact hCalls.ids []
  refine ⟨⟨responseOf v, by rw [parseResponse, hBody], ?_, ?_, ?_⟩, ?_, ?_, ?_⟩
  · rw [Anthropic.bodyCallIds_emitResponse (plain_responseOf v), callIds_responseOf]
  · rw [OpenaiChat.bodyCallIds_emitResponse, callIds_responseOf]
  · rw [OpenaiResponses.bodyCallIds_emitResponse, callIds_responseOf]
  · rw [Anthropic.streamed_eq, hStreamed]
  · rw [OpenaiChat.streamed_eq includeUsage (hCalls.whole false), hStreamed]
  · rw [OpenaiResponses.streamed_eq key retention (hCalls.whole false), hStreamed]

/-- An answer that calls one function twice. -/
def twiceCalled : Value :=
  let part := obj [("functionCall", obj [("name", .string "f".toList)])]
  obj [("candidates", .array [obj [("content", obj [("parts", .array [part, part])])]])]

def twiceCalledLines : List Str := ["data: ".toList ++ twiceCalled.render]

theorem twiceCalled_body : fromSlice (Text.toUtf8 twiceCalled.render) = some twiceCalled := by
  decide +kernel

theorem call_ids_twice :
    (∃ resp, parseResponse (Text.toUtf8 twiceCalled.render) = .ok resp ∧
      Anthropic.bodyCallIds (Anthropic.emitResponse resp) =
        (answerParts twiceCalled).filterMap bufferedName ∧
      OpenaiChat.bodyCallIds (OpenaiChat.emitResponse resp) =
        (answerParts twiceCalled).filterMap bufferedName ∧
      OpenaiResponses.bodyCallIds (OpenaiResponses.emitResponse resp) =
        (answerParts twiceCalled).filterMap bufferedName) ∧
    (Anthropic.streamed (decodeLines twiceCalledLines)).calls.map PartialTool.id =
      calledNames twiceCalledLines ∧
    (OpenaiChat.streamed false (decodeLines twiceCalledLines)).calls.map PartialTool.id =
      calledNames twiceCalledLines ∧
    (OpenaiResponses.streamed none none (decodeLines twiceCalledLines)).calls.map PartialTool.id =
      calledNames twiceCalledLines :=
  call_ids_are_names _ twiceCalled twiceCalledLines false none none twiceCalled_body

/-- Two calls of one function have one id. -/
theorem call_ids_not_distinct :
    ¬ ∀ (bytes : List UInt8) (resp : ChatResponse), parseResponse bytes = .ok resp →
      (OpenaiChat.bodyCallIds (OpenaiChat.emitResponse resp)).Nodup := by
  intro h
  have hParsed : parseResponse (Text.toUtf8 twiceCalled.render) = .ok (responseOf twiceCalled) := by
    rw [parseResponse, twiceCalled_body]
  have hDistinct := h _ _ hParsed
  rw [OpenaiChat.bodyCallIds_emitResponse, callIds_responseOf] at hDistinct
  revert hDistinct
  decide

end Gemini

end Gateway.Wire
