import Gateway.Wire.OpenaiResponses.Response
import Gateway.Wire.Said

/-! A final response object and the event stream that delivers it: what the
stream's decoder and the aggregator make of the one, and the buffered parser of
the other. -/
namespace Gateway.Wire.OpenaiResponses

open Json

/-! ### Answers -/

/-- An item of an output list. -/
inductive OutputItem where
  | message (text : Str)
  | functionCall (callId name arguments : Str)
  | other
  deriving DecidableEq

/-- The text of a part of a message. -/
def readPart (p : Value) : Option Str :=
  if optStr p "type" = some "output_text".toList then some ((optStr p "text").getD [])
  else if optStr p "type" = some "refusal".toList then some []
  else none

def readItem (item : Value) : Option OutputItem :=
  if optStr item "type" = some "message".toList then
    (optArr item "content").bind fun parts =>
      (parts.mapM readPart).map fun texts => .message texts.flatten
  else if isFunctionCall item then
    (optStr item "call_id").map fun callId =>
      .functionCall callId ((optStr item "name").getD []) ((optStr item "arguments").getD [])
  else some .other

/-- An item with the fragments it is sent in. -/
inductive Sent where
  | message (fragments : List Str)
  | functionCall (callId name : Str) (fragments : List Str)
  | other

namespace Sent

def item : Sent → OutputItem
  | .message fragments => .message fragments.flatten
  | .functionCall callId name fragments => .functionCall callId name fragments.flatten
  | .other => .other

/-- What the stream carries of an item. -/
def events : Sent → List StreamEvent
  | .message fragments => fragments.map .textDelta
  | .functionCall callId name fragments =>
      .toolUseStart callId name :: fragments.map .toolUseDelta
  | .other => []

def call : Sent → Option PartialTool
  | .functionCall callId name fragments => some ⟨callId, name, fragments.flatten⟩
  | _ => none

end Sent

/-- The text and the calls that a document of a stream carries. -/
def contentEvent (v : Value) : Option StreamEvent :=
  let delta := (optStr v "delta").getD []
  let item := (v.get "item").getD .null
  if optStr v "type" = some "response.output_text.delta".toList then some (.textDelta delta)
  else if optStr v "type" = some "response.output_item.added".toList then
    if isFunctionCall item then
      some (.toolUseStart ((optStr item "call_id").getD []) ((optStr item "name").getD []))
    else none
  else if optStr v "type" = some "response.function_call_arguments.delta".toList then
    some (.toolUseDelta delta)
  else none

def finalType (status : Str) : Str := "response.".toList ++ status

def isFinal (v : Value) : Bool :=
  optStr v "type" = some "response.completed".toList ∨
    optStr v "type" = some "response.incomplete".toList

/-- The documents of a stream deliver a response that is complete, or
incomplete: its items in order, and then the response itself. -/
structure Delivers (response : Value) (answer : List Sent) (values : List Value) : Prop where
  status : optStr response "status" = some "completed".toList ∨
    optStr response "status" = some "incomplete".toList
  output : (outputItems response).map readItem = answer.map fun b => some b.item
  content : values.filterMap contentEvent = answer.flatMap Sent.events
  ending : ∃ before last, values = before ++ [last] ∧ (∀ v ∈ before, isFinal v = false) ∧
    optStr last "type" = (optStr response "status").map finalType ∧
    last.get "response" = some response

/-! ### The object -/

theorem joinText_part {p : Value} {text : Str} (hRead : readPart p = some text) :
    joinText (parsePart p).toList = text := by
  unfold readPart at hRead
  unfold parsePart
  split_ifs at hRead with hOutput hRefusal
  · cases hRead
    have hKind : "output_text".toList = "input_text".toList ∨
        "output_text".toList = "output_text".toList ∨ "output_text".toList = "text".toList :=
      .inr (.inl rfl)
    rw [hOutput]
    dsimp only
    rw [if_pos hKind]
    split_ifs <;> exact List.append_nil _
  · cases hRead
    rw [hRefusal]
    rfl

theorem joinText_parts {parts : List Value} {texts : List Str}
    (hRead : parts.mapM readPart = some texts) :
    joinText (parts.filterMap parsePart) = texts.flatten := by
  induction parts generalizing texts with
  | nil =>
      cases hRead
      rfl
  | cons p rest ih =>
      rw [List.mapM_cons] at hRead
      obtain ⟨text, hText, hRest⟩ := Option.bind_eq_some_iff.mp hRead
      obtain ⟨more, hMore, hTexts⟩ := Option.bind_eq_some_iff.mp hRest
      cases hTexts
      rw [List.filterMap_cons, List.flatten_cons, ← ih hMore, ← joinText_part hText]
      cases parsePart p with
      | none => rfl
      | some b => exact joinText_append [b] _

theorem calls_parts (parts : List Value) :
    (parts.filterMap parsePart).filterMap ContentBlock.asCall = [] := by
  rw [List.filterMap_eq_nil_iff]
  intro b hb
  obtain ⟨p, -, hp⟩ := List.mem_filterMap.mp hb
  cases b with
  | toolUse id name input =>
      unfold parsePart at hp
      split at hp
      · cases hp
      · split_ifs at hp
        · cases hp
        · cases hp
        · simp only at hp
          split at hp <;> cases hp
  | _ => rfl

/-- The call of an item as the buffered parser reads it. -/
def parsedCall (t : PartialTool) : Str × Str × Value := (t.id, t.name, parseArguments (some t.json))

theorem content_of_parts {item : Value} {parts : List Value}
    (hParts : optArr item "content" = some parts) :
    parseContentParts (item.get "content") = parts.filterMap parsePart := by
  obtain ⟨v, hGet, hArr⟩ := Option.bind_eq_some_iff.mp hParts
  cases v with
  | array items =>
      cases hArr
      rw [hGet]
      rfl
  | _ => cases hArr

/-- The blocks of an item say what the item does. -/
theorem said_outputBlocks {item : Value} {b : Sent} (hRead : readItem item = some b.item) :
    joinText (outputBlocks item) = b.events.flatMap StreamEvent.textOf ∧
      (outputBlocks item).filterMap ContentBlock.asCall = b.call.toList.map parsedCall ∧
      isFunctionCall item = b.call.isSome := by
  unfold readItem at hRead
  split_ifs at hRead with hMessage hCall
  · obtain ⟨parts, hParts, hRead⟩ := Option.bind_eq_some_iff.mp hRead
    obtain ⟨texts, hTexts, hItem⟩ := Option.map_eq_some_iff.mp hRead
    cases b with
    | message fragments =>
        have hFragments : texts.flatten = fragments.flatten := by
          simpa [Sent.item] using hItem
        have hOther : isFunctionCall item = false := by
          rw [isFunctionCall, hMessage]
          decide
        rw [outputBlocks_message hMessage, content_of_parts hParts]
        refine ⟨?_, calls_parts parts, hOther⟩
        rw [joinText_parts hTexts, hFragments, Sent.events, List.flatMap_map]
        exact List.flatMap_id.symm
    | _ => cases hItem
  · obtain ⟨callId, hId, hItem⟩ := Option.map_eq_some_iff.mp hRead
    cases b with
    | functionCall id name fragments =>
        simp only [Sent.item, OutputItem.functionCall.injEq] at hItem
        obtain ⟨rfl, rfl, hJson⟩ := hItem
        rw [outputBlocks_functionCall (of_decide_eq_true hCall), hId]
        have hArguments : parseArguments (optStr item "arguments") =
            parseArguments (some fragments.flatten) := by
          rw [← hJson]
          cases optStr item "arguments" <;> rfl
        rw [hArguments]
        refine ⟨?_, rfl, hCall⟩
        rw [Sent.events, List.flatMap_cons, List.flatMap_map]
        exact (List.flatMap_eq_nil_iff.mpr fun _ _ => rfl).symm
    | _ => cases hItem
  · cases b with
    | other =>
        have hBlocks := outputBlocks_other hMessage (fun h => hCall (decide_eq_true h))
        have hText : (outputBlocks item).filterMap ContentBlock.asText = [] := by
          rw [List.filterMap_eq_nil_iff]
          intro b hb
          obtain ⟨text, rfl⟩ := hBlocks b hb
          rfl
        have hCalls : (outputBlocks item).filterMap ContentBlock.asCall = [] := by
          rw [List.filterMap_eq_nil_iff]
          intro b hb
          obtain ⟨text, rfl⟩ := hBlocks b hb
          rfl
        exact ⟨congrArg List.flatten hText, hCalls, Bool.eq_false_iff.mpr hCall⟩
    | _ => cases hRead

/-- A response says what its items do. -/
theorem said_items {items : List Value} {answer : List Sent}
    (hRead : items.map readItem = answer.map fun b => some b.item) :
    joinText (items.flatMap outputBlocks) =
        (answer.flatMap Sent.events).flatMap StreamEvent.textOf ∧
      (items.flatMap outputBlocks).filterMap ContentBlock.asCall =
        (answer.filterMap Sent.call).map parsedCall ∧
      items.any isFunctionCall = !(answer.filterMap Sent.call).isEmpty := by
  induction items generalizing answer with
  | nil =>
      cases List.map_eq_nil_iff.mp hRead.symm
      exact ⟨rfl, rfl, rfl⟩
  | cons item rest ih =>
      cases answer with
      | nil => cases hRead
      | cons b more =>
          rw [List.map_cons, List.map_cons, List.cons.injEq] at hRead
          obtain ⟨hText, hCalls, hAny⟩ := said_outputBlocks hRead.1
          obtain ⟨hTexts, hMore, hAnys⟩ := ih hRead.2
          refine ⟨?_, ?_, ?_⟩
          · rw [List.flatMap_cons, joinText_append, hText, hTexts, List.flatMap_cons,
              List.flatMap_append]
          · rw [List.flatMap_cons, List.filterMap_append, hCalls, hMore]
            cases hCall : b.call <;> simp [hCall]
          · rw [List.any_cons, hAny, hAnys]
            cases hCall : b.call <;> simp [hCall]

/-! ### The stream -/

/-- The events of a stream of documents, with what the decoder keeps. -/
def decodeValues (s : SseState) (values : List Value) : List StreamEvent × SseState :=
  Transducer.run (fun s v => decodeValue v s) s values

def decodeLines (lines : List Str) : List StreamEvent :=
  (Transducer.run (fun s line => decodeSse line s) {} lines).1

theorem decodeLines_eq (lines : List Str) :
    decodeLines lines = (decodeValues {} (lines.filterMap sseValue)).1 := by
  suffices ∀ s, (Transducer.run (fun s line => decodeSse line s) s lines).1 =
      (decodeValues s (lines.filterMap sseValue)).1 from this {}
  intro s
  induction lines generalizing s with
  | nil => rfl
  | cons line rest ih =>
      rw [Transducer.run_cons, ih, List.filterMap_cons, decodeSse]
      cases sseValue line <;> rfl

def startsCall : StreamEvent → Bool
  | .toolUseStart .. => true
  | _ => false

/-- A document before the last adds the text or the call it carries. -/
theorem decodeValue_alike {v : Value} (hMore : isFinal v = false) (s : SseState) :
    Alike (decodeValue v s).1 (contentEvent v).toList ∧
      (decodeValue v s).2.stopReason =
        if (contentEvent v).toList.any startsCall then some .toolUse else s.stopReason := by
  rw [isFinal, decide_eq_false_iff_not] at hMore
  unfold decodeValue contentEvent
  cases hType : optStr v "type" with
  | none => exact ⟨Alike.refl [], rfl⟩
  | some kind =>
      rw [hType] at hMore
      simp only [Option.some.injEq] at hMore ⊢
      by_cases hCreated : kind = "response.created".toList
      · subst hCreated
        exact ⟨Alike.messageStart _, rfl⟩
      by_cases hText : kind = "response.output_text.delta".toList
      · subst hText
        exact ⟨Alike.refl _, rfl⟩
      by_cases hThinking : kind = "response.reasoning_text.delta".toList
      · subst hThinking
        exact ⟨Alike.thinkingDelta _, rfl⟩
      by_cases hSummary : kind = "response.reasoning_summary_text.delta".toList
      · subst hSummary
        exact ⟨Alike.thinkingDelta _, rfl⟩
      by_cases hItem : kind = "response.output_item.added".toList
      · subst hItem
        by_cases hCall : optStr ((v.get "item").getD .null) "type" = some "function_call".toList
        · simp only [hCreated, hText, hThinking, hSummary, hCall, or_self, if_false, if_true,
            isFunctionCall, decide_true]
          exact ⟨Alike.refl _, rfl⟩
        · simp only [hCreated, hText, hThinking, hSummary, hCall, or_self, if_false, if_true,
            isFunctionCall, decide_false, Bool.false_eq_true]
          exact ⟨Alike.refl [], rfl⟩
      by_cases hArguments : kind = "response.function_call_arguments.delta".toList
      · subst hArguments
        exact ⟨Alike.refl _, rfl⟩
      simp only [hCreated, hText, hThinking, hSummary, hItem, hArguments, hMore, or_self, if_false]
      exact ⟨Alike.refl [], rfl⟩

theorem decodeValues_alike {values : List Value} (hMore : ∀ v ∈ values, isFinal v = false)
    (s : SseState) :
    Alike (decodeValues s values).1 (values.filterMap contentEvent) ∧
      (decodeValues s values).2.stopReason =
        if (values.filterMap contentEvent).any startsCall then some .toolUse else s.stopReason := by
  induction values generalizing s with
  | nil => exact ⟨Alike.refl [], rfl⟩
  | cons v rest ih =>
      obtain ⟨hAlike, hStop⟩ := decodeValue_alike (hMore v (by simp)) s
      obtain ⟨hRest, hStops⟩ := ih (fun w hw => hMore w (by simp [hw])) (decodeValue v s).2
      have hContent : (v :: rest).filterMap contentEvent =
          (contentEvent v).toList ++ rest.filterMap contentEvent := by
        rw [List.filterMap_cons]
        cases contentEvent v <;> rfl
      rw [hContent]
      refine ⟨hAlike.append hRest, ?_⟩
      rw [List.any_append]
      refine hStops.trans ?_
      rw [hStop]
      cases (contentEvent v).toList.any startsCall <;>
        cases (rest.filterMap contentEvent).any startsCall <;> rfl

theorem startsCall_events (answer : List Sent) :
    (answer.flatMap Sent.events).any startsCall = !(answer.filterMap Sent.call).isEmpty := by
  induction answer with
  | nil => rfl
  | cons b rest ih =>
      rw [List.flatMap_cons, List.any_append, ih]
      cases b with
      | message fragments =>
          have hNone : (fragments.map StreamEvent.textDelta).any startsCall = false := by
            rw [List.any_map, List.any_eq_false]
            exact fun _ _ => Bool.false_ne_true
          rw [Sent.events, hNone]
          rfl
      | functionCall callId name fragments => simp [Sent.events, Sent.call, startsCall]
      | other => rfl

/-- The fragments of a call extend it. -/
theorem toolsAfter_fragments (tools : List PartialTool) (t : PartialTool) (fragments : List Str) :
    (fragments.map StreamEvent.toolUseDelta).foldl toolsAfter (tools ++ [t]) =
      tools ++ [{ t with json := t.json ++ fragments.flatten }] := by
  induction fragments generalizing t with
  | nil => simp
  | cons fragment rest ih =>
      rw [List.map_cons, List.foldl_cons, toolsAfter, extendLast_concat, ih]
      simp

theorem toolsAfter_events (tools : List PartialTool) (answer : List Sent) :
    (answer.flatMap Sent.events).foldl toolsAfter tools = tools ++ answer.filterMap Sent.call := by
  induction answer generalizing tools with
  | nil => simp
  | cons b rest ih =>
      rw [List.flatMap_cons, List.foldl_append, ih, List.filterMap_cons]
      cases b with
      | message fragments =>
          have hText : (fragments.map StreamEvent.textDelta).foldl toolsAfter tools = tools := by
            induction fragments with
            | nil => rfl
            | cons fragment more ih => exact ih
          rw [Sent.events, hText]
          rfl
      | functionCall callId name fragments =>
          rw [Sent.events, List.foldl_cons, toolsAfter, toolsAfter_fragments]
          simp [Sent.call]
      | other => rfl

theorem usageOf_events (answer : List Sent) : usageOf (answer.flatMap Sent.events) = ⊥ := by
  refine usageOf_eq_bot fun e he => ?_
  obtain ⟨b, -, hb⟩ := List.mem_flatMap.mp he
  cases b with
  | message fragments =>
      obtain ⟨fragment, -, rfl⟩ := List.mem_map.mp hb
      rfl
  | functionCall callId name fragments =>
      rcases List.mem_cons.mp hb with rfl | hFragment
      · rfl
      · obtain ⟨fragment, -, rfl⟩ := List.mem_map.mp hFragment
        rfl
  | other => cases hb

/-- The last document reports the usage and ends the stream. -/
theorem decodeValue_final {response last : Value} {s : SseState}
    (hStatus : optStr response "status" = some "completed".toList ∨
      optStr response "status" = some "incomplete".toList)
    (hType : optStr last "type" = (optStr response "status").map finalType)
    (hResponse : last.get "response" = some response) :
    ∃ reports, (decodeValue last s).1 = reports ++ [.done (s.stopReason.getD .endTurn)] ∧
      contentEvent last = none ∧
      Alike reports [.usageDelta (parseUsage (response.get "usage"))] := by
  have hKind : optStr last "type" = some "response.completed".toList ∨
      optStr last "type" = some "response.incomplete".toList := by
    rw [hType]
    rcases hStatus with h | h <;> rw [h]
    · exact .inl rfl
    · exact .inr rfl
  have hNone : contentEvent last = none := by
    unfold contentEvent
    rcases hKind with h | h <;> rw [h] <;> rfl
  have hEmpty : Alike [] [.usageDelta {}] := ⟨rfl, fun _ => rfl, (sup_idem _).symm⟩
  have hRead : (last.get "response").bind (·.get "usage") = response.get "usage" := by
    rw [hResponse, Option.bind_some]
  cases hUsage : response.get "usage" with
  | none =>
      refine ⟨[], ?_, hNone, hEmpty⟩
      unfold decodeValue
      rcases hKind with h | h <;> rw [h, hRead, hUsage] <;> rfl
  | some u =>
      cases hNull : u.isNull with
      | true =>
          cases u with
          | null =>
              refine ⟨[], ?_, hNone, hEmpty⟩
              unfold decodeValue
              rcases hKind with h | h <;> rw [h, hRead, hUsage] <;> rfl
          | _ => cases hNull
      | false =>
          refine ⟨_, ?_, hNone, Alike.refl _⟩
          unfold decodeValue
          rcases hKind with h | h <;> rw [h, hRead, hUsage, Option.filter_some, hNull] <;> rfl

/-! ### Both ways -/

/-- The response that the aggregator makes of a stream. -/
def aggregated (id : Str) (lines : List Str) : ChatResponse :=
  (Aggregator.pushAll {} (decodeLines lines)).intoResponse id

theorem said_aggregated {response : Value} {answer : List Sent} {lines : List Str}
    (hDelivers : Delivers response answer (lines.filterMap sseValue)) (id : Str) :
    (aggregated id lines).said =
      { text := (answer.flatMap Sent.events).flatMap StreamEvent.textOf
        calls := (answer.filterMap Sent.call).map fun t => (t.id, t.name, t.input)
        stopReason := if (answer.filterMap Sent.call).isEmpty then .endTurn else .toolUse
        usage := parseUsage (response.get "usage") } := by
  obtain ⟨before, last, hValues, hMore, hType, hResponse⟩ := hDelivers.ending
  obtain ⟨hBefore, hStop⟩ := decodeValues_alike hMore {}
  obtain ⟨reports, hLast, hNone, hReports⟩ :=
    decodeValue_final (s := (decodeValues {} before).2) hDelivers.status hType hResponse
  have hContent : before.filterMap contentEvent = answer.flatMap Sent.events := by
    rw [← hDelivers.content, hValues, List.filterMap_append, List.filterMap_cons, hNone]
    exact (List.append_nil _).symm
  have hEvents : decodeLines lines = ((decodeValues {} before).1 ++ reports) ++
      [.done ((decodeValues {} before).2.stopReason.getD .endTurn)] := by
    rw [decodeLines_eq, hValues, decodeValues, Transducer.run_append, Transducer.run_cons,
      Transducer.run_nil, List.append_nil, List.append_assoc]
    exact congrArg _ hLast
  have hAlike := hBefore.append hReports
  rw [hContent] at hAlike hStop
  rw [startsCall_events] at hStop
  let reason := (decodeValues {} before).2.stopReason.getD .endTurn
  let agg := Aggregator.pushAll {} (decodeLines lines)
  have hAgg : agg = { Aggregator.pushAll {} ((decodeValues {} before).1 ++ reports) with
      stopReason := some reason } := by
    simp only [agg, hEvents, Aggregator.pushAll_append]
    rfl
  have hText : agg.text = (answer.flatMap Sent.events).flatMap StreamEvent.textOf := by
    rw [hAgg, Aggregator.pushAll_text, hAlike.text, List.flatMap_append]
    exact List.append_nil _
  have hTools : agg.tools = answer.filterMap Sent.call := by
    rw [hAgg, Aggregator.pushAll_tools, hAlike.tools, List.foldl_append, toolsAfter_events]
    rfl
  have hUsage : agg.usage = parseUsage (response.get "usage") := by
    rw [hAgg, Aggregator.pushAll_usage]
    refine Eq.trans hAlike.usage ?_
    rw [usageOf_append, usageOf_events]
    exact bot_sup_eq _
  have hReason : (agg.intoResponse id).stopReason =
      if (answer.filterMap Sent.call).isEmpty then .endTurn else .toolUse := by
    have hStopped : agg.stopReason = some reason := by rw [hAgg]
    simp only [Aggregator.intoResponse, hStopped, hTools, reason, hStop]
    cases (answer.filterMap Sent.call).isEmpty <;> rfl
  have hSaid := Aggregator.said_intoResponse agg id
  rw [hText, hTools, hUsage, hReason] at hSaid
  exact hSaid

theorem said_responseOf {response : Value} {answer : List Sent} {values : List Value}
    (hDelivers : Delivers response answer values) :
    (responseOf response).said =
      { text := (answer.flatMap Sent.events).flatMap StreamEvent.textOf
        calls := (answer.filterMap Sent.call).map parsedCall
        stopReason := stopReasonOf response
        usage := parseUsage (response.get "usage") } := by
  obtain ⟨hText, hCalls, -⟩ := said_items hDelivers.output
  rw [ChatResponse.said, responseOf, hText, hCalls]

/-- Arguments that are empty or a document are read alike. -/
theorem parsedCall_eq_iff (t : PartialTool) :
    (t.id, t.name, t.input) = parsedCall t ↔ t.json = [] ∨ (fromStr t.json).isSome := by
  have hRead : (t.id, t.name, t.input) = parsedCall t ↔
      t.input = parseArguments (some t.json) := by simp [parsedCall]
  rw [hRead, PartialTool.input, parseArguments]
  cases hJson : t.json with
  | nil => exact iff_of_true rfl (.inl rfl)
  | cons c rest =>
      simp only [List.isEmpty_cons, Bool.false_eq_true, if_false, reduceCtorEq, false_or]
      cases hValue : fromStr (c :: rest) with
      | none =>
          refine iff_of_false ?_ Bool.false_ne_true
          split_ifs <;> exact Value.noConfusion
      | some v =>
          refine iff_of_true ?_ rfl
          have hBlank : isBlank (c :: rest) ≠ true := by
            intro hBlank
            rw [fromStr_of_isBlank hBlank] at hValue
            cases hValue
          rw [if_neg hBlank]
          rfl

/-- The stop reason is the same exactly when the response is complete. -/
theorem stopReasonOf_eq_iff {response : Value} {answer : List Sent} {values : List Value}
    (hDelivers : Delivers response answer values) :
    (if (answer.filterMap Sent.call).isEmpty then StopReason.endTurn else .toolUse) =
        stopReasonOf response ↔ optStr response "status" = some "completed".toList := by
  obtain ⟨-, -, hAny⟩ := said_items hDelivers.output
  rcases hDelivers.status with hStatus | hStatus
  · have hComplete : optStr response "status" ≠ some "incomplete".toList := by
      rw [hStatus]
      decide
    refine iff_of_true ?_ hStatus
    rw [stopReasonOf, if_neg hComplete, hAny]
    cases (answer.filterMap Sent.call).isEmpty <;> rfl
  · refine iff_of_false ?_ ?_
    · rw [stopReasonOf, if_pos hStatus]
      dsimp only
      split_ifs <;> exact not_false
    · rw [hStatus]
      decide

/-- The aggregated stream says what the object does exactly when the response
is complete and the arguments of its calls, when there are any, are documents. -/
theorem aggregated_as_parsed_iff (response : Value) (answer : List Sent) (lines : List Str)
    (bytes : List UInt8) (id : Str) (hBody : fromSlice bytes = some response)
    (hDelivers : Delivers response answer (lines.filterMap sseValue)) :
    ∃ parsed, parseResponse bytes = .ok parsed ∧
      ((aggregated id lines).said = parsed.said ↔
        optStr response "status" = some "completed".toList ∧
          ∀ t ∈ answer.filterMap Sent.call, t.json = [] ∨ (fromStr t.json).isSome) := by
  refine ⟨responseOf response, by rw [parseResponse, hBody], ?_⟩
  rw [said_aggregated hDelivers, said_responseOf hDelivers]
  simp only [Said.mk.injEq, true_and, and_true]
  rw [stopReasonOf_eq_iff hDelivers, List.map_inj_left, and_comm]
  simp only [parsedCall_eq_iff]

def message (text : Str) : Value :=
  obj [("type", .string "message".toList), ("content", .array [obj [
    ("type", .string "output_text".toList), ("text", .string text)]])]

/-- A response of one message. -/
def shortResponse (status : String) : Value :=
  obj [("status", .string status.toList), ("output", .array [message "Hi".toList]),
    ("incomplete_details", obj [("reason", .string "max_output_tokens".toList)])]

/-- The documents of its stream. -/
def shortValues (status : String) : List Value := [
  obj [("type", .string "response.output_text.delta".toList), ("delta", .string "Hi".toList)],
  obj [("type", .string (finalType status.toList)), ("response", shortResponse status)]]

def shortLines (status : String) : List Str :=
  (shortValues status).map fun v => "data: ".toList ++ v.render

theorem shortLines_values :
    (shortLines "completed").filterMap sseValue = shortValues "completed" ∧
      (shortLines "incomplete").filterMap sseValue = shortValues "incomplete" := by
  decide +kernel

theorem shortValues_deliver {status : String} (h : status = "completed" ∨ status = "incomplete") :
    Delivers (shortResponse status) [.message ["Hi".toList]] (shortValues status) := by
  rcases h with rfl | rfl
  · exact ⟨by decide, by decide, by decide, [_], _, rfl, by decide, by decide, by decide⟩
  · exact ⟨by decide, by decide, by decide, [_], _, rfl, by decide, by decide, by decide⟩

/-- A response of one message, complete. -/
theorem aggregated_as_parsed_short :
    ∃ parsed, parseResponse (Text.toUtf8 (shortResponse "completed").render) = .ok parsed ∧
      ((aggregated [] (shortLines "completed")).said = parsed.said ↔
        optStr (shortResponse "completed") "status" = some "completed".toList ∧
          ∀ t ∈ [Sent.message ["Hi".toList]].filterMap Sent.call,
            t.json = [] ∨ (fromStr t.json).isSome) :=
  aggregated_as_parsed_iff _ _ _ _ [] (by decide +kernel)
    (shortLines_values.1 ▸ shortValues_deliver (.inl rfl))

/-- A response cut short by its token limit streams as a whole one. -/
theorem cut_response_aggregated_whole :
    (aggregated [] (shortLines "incomplete")).said.stopReason = .endTurn ∧
      (responseOf (shortResponse "incomplete")).said.stopReason = .maxTokens ∧
      ¬ ∀ response answer lines bytes id, fromSlice bytes = some response →
        Delivers response answer (lines.filterMap sseValue) →
          ∃ parsed, parseResponse bytes = .ok parsed ∧
            (aggregated id lines).said = parsed.said := by
  have hDelivers : Delivers (shortResponse "incomplete") [.message ["Hi".toList]]
      ((shortLines "incomplete").filterMap sseValue) :=
    shortLines_values.2 ▸ shortValues_deliver (.inr rfl)
  have hBody : fromSlice (Text.toUtf8 (shortResponse "incomplete").render) =
      some (shortResponse "incomplete") := by decide +kernel
  have hStreamed : (aggregated [] (shortLines "incomplete")).said.stopReason = .endTurn := by
    rw [said_aggregated hDelivers]
    rfl
  have hParsed : (responseOf (shortResponse "incomplete")).said.stopReason = .maxTokens := by
    decide
  refine ⟨hStreamed, hParsed, fun h => ?_⟩
  obtain ⟨parsed, hParse, hSame⟩ := h _ _ _ _ [] hBody hDelivers
  rw [parseResponse, hBody] at hParse
  cases hParse
  rw [hSame, hParsed] at hStreamed
  cases hStreamed

end Gateway.Wire.OpenaiResponses
