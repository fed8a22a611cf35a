import Gateway.Wire.OpenaiChat.Request
import Gateway.Wire.OpenaiResponses.Request

/-! Tool exchanges across the translation of a Responses history into Chat
Completions messages. Each item becomes messages of its own, so calls made in
parallel reach the upstream as separate turns. -/
namespace Gateway.Wire

open Json

/-! ### Messages an upstream accepts -/

/-- The ids an assistant message calls. -/
def callIds (m : Value) : List Str :=
  ((optArr m "tool_calls").getD []).map fun c => (optStr c "id").getD []

/-- The call a `tool` message answers. -/
def answered (m : Value) : Option Str :=
  if optStr m "role" = some "tool".toList then some ((optStr m "tool_call_id").getD []) else none

/-- A message that calls tools is followed at once by the messages that answer
each of its ids once, and no other message is a `tool` message. -/
inductive WellPaired : List Value → Prop where
  | nil : WellPaired []
  | plain {m : Value} {rest : List Value} (silent : callIds m = []) (speaks : answered m = none)
      (next : WellPaired rest) : WellPaired (m :: rest)
  | exchange {m : Value} {results rest : List Value} (calls : callIds m ≠ [])
      (speaks : answered m = none) (complete : (results.map answered).Perm ((callIds m).map some))
      (next : WellPaired rest) : WellPaired (m :: (results ++ rest))

/-! ### Histories -/

/-- What a message or an item does in a history: one half of an exchange, or
neither. -/
inductive Step where
  | call (id : Str)
  | result (id : Str)
  | other
  deriving DecidableEq

/-- Every call is directly followed by its own result. -/
def Paired : List Step → Prop
  | [] => True
  | .other :: rest => Paired rest
  | .call id :: .result id' :: rest => id = id' ∧ Paired rest
  | _ => False

def Paired.decide : (steps : List Step) → Decidable (Paired steps)
  | [] => isTrue trivial
  | .other :: rest => Paired.decide rest
  | .call id :: .result id' :: rest =>
      have : Decidable (Paired rest) := Paired.decide rest
      inferInstanceAs (Decidable (id = id' ∧ Paired rest))
  | .result _ :: _ | [.call _] | .call _ :: .call _ :: _ | .call _ :: .other :: _ =>
      isFalse id

instance (steps : List Step) : Decidable (Paired steps) := Paired.decide steps

/-- Every call is answered by an output with its id before the next message,
in any order, and every output answers a call. `pending` lists the calls still
open. -/
def Answered : List Str → List Step → Prop
  | pending, [] => pending = []
  | pending, .call id :: rest => id ∉ pending ∧ Answered (id :: pending) rest
  | pending, .result id :: rest => id ∈ pending ∧ Answered (pending.erase id) rest
  | pending, .other :: rest => pending = [] ∧ Answered [] rest

/-- A message is neither half of an exchange, unless it is the result of a
tool. A user message with no content is no message. -/
def messageSteps (item : Value) : List Step :=
  if optStr item "role" = some "tool".toList then [.result (OpenaiResponses.callIdOf item)]
  else if OpenaiResponses.messageRole (optStr item "role") = .user ∧
      (OpenaiResponses.parseContentParts (item.get "content")).isEmpty then []
  else [.other]

/-- The halves an item contributes. An item with no tool linkage contributes
nothing. -/
def itemSteps (item : Value) : List Step :=
  let id := OpenaiResponses.callIdOf item
  match optStr item "type" with
  | none => messageSteps item
  | some t =>
      if t = "message".toList then messageSteps item
      else if OpenaiResponses.isToolCall t then [.call id]
      else if t = "mcp_call".toList then
        .call id :: (if (item.get "output").isSome then [.result id] else [])
      else if OpenaiResponses.isToolOutput t then [.result id]
      else if OpenaiResponses.hasCallId item && (item.get "output").isSome then [.result id]
      else if OpenaiResponses.hasCallId item && (optStr item "name").isSome then [.call id]
      else []

/-- The steps of a request's `input`. -/
def inputSteps (body : Value) : List Step :=
  match body.get "input" with
  | some (.string _) => [.other]
  | some (.array items) => items.flatMap itemSteps
  | _ => []

/-! ### The messages of an item -/

/-- The step an emitted message takes, when it calls at most one tool. -/
inductive Takes : Value → Step → Prop where
  | call {m : Value} {id : Str} (calls : callIds m = [id]) (speaks : answered m = none) :
      Takes m (.call id)
  | result {m : Value} {id : Str} (silent : callIds m = []) (answers : answered m = some id) :
      Takes m (.result id)
  | other {m : Value} (silent : callIds m = []) (speaks : answered m = none) : Takes m .other

private theorem paired_of_wellPaired {messages : List Value} (h : WellPaired messages)
    {steps : List Step} (hTakes : List.Forall₂ Takes messages steps) : Paired steps := by
  induction h generalizing steps with
  | nil =>
      cases hTakes
      trivial
  | plain silent speaks _ ih =>
      cases hTakes with
      | cons hHead hRest =>
          cases hHead with
          | call calls => simp [silent] at calls
          | result _ answers => simp [speaks] at answers
          | other =>
              have hNext := ih hRest
              exact hNext
  | @exchange m results rest calls speaks complete _ ih =>
      cases hTakes with
      | cons hHead hRest =>
          cases hHead with
          | result silent => exact absurd silent calls
          | other silent => exact absurd silent calls
          | call hCalls _ =>
              rw [hCalls, List.map_singleton, List.perm_singleton] at complete
              obtain ⟨r, rfl, hAnswer⟩ := List.map_eq_singleton_iff.mp complete
              cases hRest with
              | cons hResult hNext =>
                  cases hResult with
                  | call _ silent => simp [silent] at hAnswer
                  | other _ silent => simp [silent] at hAnswer
                  | result _ answers =>
                      rw [answers, Option.some.injEq] at hAnswer
                      exact ⟨hAnswer.symm, ih hNext⟩

private theorem wellPaired_of_paired {steps : List Step} (h : Paired steps)
    {messages : List Value} (hTakes : List.Forall₂ Takes messages steps) :
    WellPaired messages := by
  induction steps using Paired.induct generalizing messages with
  | case1 =>
      cases hTakes
      exact .nil
  | case2 rest ih =>
      cases hTakes with
      | cons hHead hRest =>
          cases hHead with
          | other silent speaks => exact .plain silent speaks (ih h hRest)
  | case3 id id' rest ih =>
      obtain ⟨rfl, hPaired⟩ := h
      obtain ⟨m, more, hHead, hRest, rfl⟩ := List.forall₂_cons_right_iff.mp hTakes
      obtain ⟨r, others, hResult, hNext, rfl⟩ := List.forall₂_cons_right_iff.mp hRest
      cases hHead with
      | call calls speaks =>
          cases hResult with
          | result _ answers =>
              have hComplete : ([r].map answered).Perm ((callIds m).map some) := by
                simp [calls, answers]
              exact .exchange (by simp [calls]) speaks hComplete (ih hPaired hNext)
  | case4 steps hNil hOther hExchange =>
      exfalso
      cases steps with
      | nil => exact hNil rfl
      | cons step rest =>
          cases step with
          | other => exact hOther rest rfl
          | result => exact h
          | call id =>
              cases rest with
              | nil => exact h
              | cons next rest =>
                  cases next with
                  | result id' => exact hExchange id id' rest rfl
                  | call => exact h
                  | other => exact h

/-- Messages that call one tool at a time pair up exactly when their steps
do. -/
theorem wellPaired_iff {messages : List Value} {steps : List Step}
    (h : List.Forall₂ Takes messages steps) : WellPaired messages ↔ Paired steps :=
  ⟨fun hPaired => paired_of_wellPaired hPaired h, fun hSteps => wellPaired_of_paired hSteps h⟩

private theorem takes_one {m : Value} {step : Step} (h : Takes m step) :
    List.Forall₂ Takes [m] [step] := .cons h .nil

theorem emitMessage_toolCallMessage (item : Value) :
    List.Forall₂ Takes (OpenaiChat.emitMessage (OpenaiResponses.toolCallMessage item))
      [.call (OpenaiResponses.callIdOf item)] := by
  refine takes_one (.call ?_ ?_)
  · simp [OpenaiResponses.toolCallMessage, OpenaiChat.emitAssistant, OpenaiChat.toolCalls,
      OpenaiChat.toolCall, OpenaiChat.thinkingText, callIds]
  · simp [OpenaiResponses.toolCallMessage, OpenaiChat.emitAssistant, OpenaiChat.toolCalls,
      OpenaiChat.toolCall, OpenaiChat.thinkingText, answered]

theorem emitMessage_toolResultMessage (item : Value) (text : Str) :
    List.Forall₂ Takes (OpenaiChat.emitMessage (OpenaiResponses.toolResultMessage item text))
      [.result (OpenaiResponses.callIdOf item)] := by
  refine takes_one (.result ?_ ?_)
  · simp [OpenaiChat.toolMessage, callIds]
  · simp [OpenaiChat.toolMessage, answered]

/-- The content of a message item is text and images. -/
private theorem parsePart_plain {p : Value} {b : ContentBlock}
    (h : OpenaiResponses.parsePart p = some b) :
    b.isToolResult = false ∧ OpenaiChat.toolCalls [b] = [] := by
  unfold OpenaiResponses.parsePart at h
  split at h
  · cases h
  · split_ifs at h
    · cases h
      exact ⟨rfl, rfl⟩
    · cases h
      exact ⟨rfl, rfl⟩
    · simp only at h
      split at h <;> (cases h; exact ⟨rfl, rfl⟩)

private theorem parseContentParts_plain (content : Option Value) :
    ∀ b ∈ OpenaiResponses.parseContentParts content,
      b.isToolResult = false ∧ OpenaiChat.toolCalls [b] = [] := by
  unfold OpenaiResponses.parseContentParts
  split
  · intro b hb
    rw [List.mem_singleton.mp hb]
    exact ⟨rfl, rfl⟩
  · intro b hb
    obtain ⟨p, -, hp⟩ := List.mem_filterMap.mp hb
    exact parsePart_plain hp
  · simp

private theorem toolCalls_plain {blocks : List ContentBlock}
    (h : ∀ b ∈ blocks, b.isToolResult = false ∧ OpenaiChat.toolCalls [b] = []) :
    OpenaiChat.toolCalls blocks = [] := by
  induction blocks with
  | nil => rfl
  | cons b rest ih =>
      have hSplit : OpenaiChat.toolCalls (b :: rest) =
          OpenaiChat.toolCalls [b] ++ OpenaiChat.toolCalls rest :=
        List.filterMap_append (l := [b])
      rw [hSplit, (h b (by simp)).2, ih (fun c hc => h c (by simp [hc]))]
      rfl

private theorem toolMessages_plain {blocks : List ContentBlock}
    (h : ∀ b ∈ blocks, b.isToolResult = false) : OpenaiChat.toolMessages blocks = [] := by
  refine List.filterMap_eq_nil_iff.mpr fun b hb => ?_
  have := h b hb
  cases b <;> simp_all [ContentBlock.isToolResult]

/-- An assistant message without calls only speaks. -/
private theorem emitAssistant_plain {m : Message} (h : OpenaiChat.toolCalls m.content = []) :
    Takes (OpenaiChat.emitAssistant m) .other := by
  have hObj : ∃ more, OpenaiChat.emitAssistant m = obj ([("role", .string "assistant".toList)] ++
      more) ∧ "tool_calls" ∉ more.map Prod.fst ∧ "role" ∉ more.map Prod.fst := by
    refine ⟨(if (OpenaiChat.thinkingText m.content).isEmpty then [] else
      [("reasoning_content", .string (OpenaiChat.thinkingText m.content))]) ++
      [("content", .string m.text)], ?_, ?_, ?_⟩
    · simp [OpenaiChat.emitAssistant, h]
    · split_ifs <;> simp
    · split_ifs <;> simp
  obtain ⟨more, hEmit, hCalls, hRole⟩ := hObj
  refine .other ?_ ?_
  · simp only [callIds, optArr, hEmit, get_obj_append hCalls, bind_get_obj]
    simp
  · simp only [answered, optStr, hEmit, get_obj_append hRole, bind_get_obj]
    simp

private theorem emitMessage_messageItem (item : Value) :
    List.Forall₂ Takes (OpenaiChat.emitMessage (OpenaiResponses.parseMessageItem item))
      (messageSteps item) := by
  unfold OpenaiResponses.parseMessageItem messageSteps
  split_ifs with hTool hEmpty
  · exact emitMessage_toolResultMessage item _
  · have hNone : OpenaiResponses.parseContentParts (item.get "content") = [] := by
      simpa using hEmpty.2
    simp [hEmpty.1, hNone, OpenaiChat.emitMessage, OpenaiChat.toolMessages]
  · have hPlain := parseContentParts_plain (item.get "content")
    cases hRole : OpenaiResponses.messageRole (optStr item "role") with
    | system => exact takes_one (.other (by simp [OpenaiChat.systemMessage, callIds])
        (by simp [OpenaiChat.systemMessage, answered]))
    | developer => exact takes_one (.other (by simp [OpenaiChat.systemMessage, callIds])
        (by simp [OpenaiChat.systemMessage, answered]))
    | assistant => exact takes_one (emitAssistant_plain (toolCalls_plain hPlain))
    | user =>
        have hSome : OpenaiResponses.parseContentParts (item.get "content") ≠ [] := by
          intro h
          exact hEmpty ⟨hRole, by simp [h]⟩
        have hKeep : (OpenaiResponses.parseContentParts (item.get "content")).filter
            (fun b => !b.isToolResult) = OpenaiResponses.parseContentParts (item.get "content") :=
          List.filter_eq_self.mpr fun b hb => by simp [(hPlain b hb).1]
        simp only [OpenaiChat.emitMessage, toolMessages_plain (fun b hb => (hPlain b hb).1), hKeep,
          List.isEmpty_iff, hSome, if_false, List.nil_append]
        exact takes_one (.other (by simp [callIds]) (by simp [answered]))
    | tool =>
        unfold OpenaiResponses.messageRole at hRole
        split at hRole
        · cases hRole
        · split_ifs at hRole

/-- The messages an item becomes take the item's steps. -/
theorem emitMessages_item (item : Value) :
    List.Forall₂ Takes ((OpenaiResponses.parseInputItem item).flatMap OpenaiChat.emitMessage)
      (itemSteps item) := by
  have hCall := emitMessage_toolCallMessage item
  have hResult := emitMessage_toolResultMessage item
    (OpenaiResponses.outputText (item.get "output"))
  have hMessage := emitMessage_messageItem item
  unfold OpenaiResponses.parseInputItem itemSteps
  cases optStr item "type" with
  | none => simpa using hMessage
  | some t =>
      simp only
      split_ifs
      · simpa using hMessage
      · simpa using hCall
      · exact List.rel_append hCall (by simpa using hResult)
      · simpa using hCall
      · simpa using hResult
      · simpa using hResult
      · simpa using hCall
      · exact .nil

/-! ### The whole request -/

/-- The messages of an emitted body. -/
def messagesOf (body : Value) : List Value := (optArr body "messages").getD []

theorem messagesOf_emitBody {req : ChatRequest} (opts : EmitOptions)
    (translated : req.nativeRequest = none) :
    messagesOf (OpenaiChat.emitBody req opts) = OpenaiChat.emitMessages req := by
  have hCache : "messages" ∉ (OpenaiChat.cacheFields req).map Prod.fst := by
    unfold OpenaiChat.cacheFields
    split <;> simp
  simp only [OpenaiChat.emitBody, translated, messagesOf, optArr, List.append_assoc]
  rw [get_obj_append]
  · simp
  · simp only [List.map_append, List.mem_append, not_or]
    refine ⟨?_, OpenaiChat.notMem_optField (by decide) _,
      OpenaiChat.notMem_optField (by decide) _, OpenaiChat.notMem_optField (by decide) _, OpenaiChat.notMem_optField (by decide) _, ?_, ?_,
      OpenaiChat.notMem_optField (by decide) _, hCache⟩
    all_goals split_ifs <;> simp

theorem emitMessages_input (v : Value) :
    List.Forall₂ Takes
      ((OpenaiResponses.inputMessages (v.get "input")).flatMap OpenaiChat.emitMessage)
      (inputSteps v) := by
  unfold OpenaiResponses.inputMessages inputSteps
  cases v.get "input" with
  | none => exact .nil
  | some input =>
      cases input with
      | string s => exact takes_one (.other (by simp [callIds]) (by simp [answered]))
      | array items =>
          simp only
          induction items with
          | nil => exact .nil
          | cons item rest ih =>
              rw [List.flatMap_cons, List.flatMap_append, List.flatMap_cons]
              exact List.rel_append (emitMessages_item item) ih
      | _ => exact .nil

/-- The messages of a translated request pair up exactly when the steps of its
input do. -/
theorem requestOf_wellPaired_iff (v : Value) (tools : List Tool) (toolChoice : Option ToolChoice)
    (opts : EmitOptions) :
    WellPaired (messagesOf (OpenaiChat.emitBody (OpenaiResponses.requestOf v tools toolChoice)
      opts)) ↔ Paired (inputSteps v) := by
  have hInput := emitMessages_input v
  rw [messagesOf_emitBody opts rfl]
  simp only [OpenaiChat.emitMessages, OpenaiResponses.requestOf]
  cases optStr v "instructions" with
  | none => exact wellPaired_iff hInput
  | some instr =>
      rw [show Paired (inputSteps v) = Paired (.other :: inputSteps v) from rfl]
      have hOther : Takes (OpenaiChat.systemMessage (joinText [.text instr])) .other :=
        .other (by simp [OpenaiChat.systemMessage, callIds])
          (by simp [OpenaiChat.systemMessage, answered])
      exact wellPaired_iff (.cons hOther hInput)

/-- A Responses history reaches a Chat Completions upstream well paired exactly
when each of its calls is directly followed by its own output. -/
theorem responses_to_chat_wellPaired_iff {bytes : List UInt8} {v : Value} {req : ChatRequest}
    (body : fromSlice bytes = some v) (parsed : OpenaiResponses.parseRequest bytes = .ok req)
    (opts : EmitOptions) :
    WellPaired (messagesOf (OpenaiChat.emitBody req opts)) ↔ Paired (inputSteps v) := by
  simp only [OpenaiResponses.parseRequest, body] at parsed
  obtain ⟨held, choice, -, -, rfl⟩ := OpenaiResponses.parseBody_eq_ok parsed
  exact requestOf_wellPaired_iff v (held.filterMap id) choice opts

def callItem (id : String) : Value :=
  obj [("type", .string "function_call".toList), ("call_id", .string id.toList),
    ("name", .string "f".toList), ("arguments", .string "{}".toList)]

def outputItem (id : String) : Value :=
  obj [("type", .string "function_call_output".toList), ("call_id", .string id.toList),
    ("output", .string "hi".toList)]

/-- One call after the other, each with its output. -/
def sequentialBody : Value :=
  obj [("input", .array [callItem "a", outputItem "a", callItem "b", outputItem "b"])]

theorem sequential_calls_wellPaired :
    WellPaired (messagesOf (OpenaiChat.emitBody (OpenaiResponses.requestOf sequentialBody [] none)
      { targetModel := [] })) := by
  have hBody : fromSlice (Text.toUtf8 sequentialBody.render) = some sequentialBody := by
    decide +kernel
  have hParsed : OpenaiResponses.parseRequest (Text.toUtf8 sequentialBody.render) =
      .ok (OpenaiResponses.requestOf sequentialBody [] none) := by
    rw [OpenaiResponses.parseRequest, hBody]
    rfl
  exact (responses_to_chat_wellPaired_iff hBody hParsed _).mpr (by decide +kernel)

/-- Two calls made in parallel, then their outputs. -/
def parallelBody : Value :=
  obj [("input", .array [callItem "a", callItem "b", outputItem "a", outputItem "b"])]

/-- Every call of the parallel history is answered, but not in the messages the
upstream gets. -/
theorem parallel_calls_not_wellPaired :
    ¬ ∀ (bytes : List UInt8) (v : Value) (req : ChatRequest) (opts : EmitOptions),
      fromSlice bytes = some v → OpenaiResponses.parseRequest bytes = .ok req →
        Answered [] (inputSteps v) → WellPaired (messagesOf (OpenaiChat.emitBody req opts)) := by
  intro h
  have hBody : fromSlice (Text.toUtf8 parallelBody.render) = some parallelBody := by
    decide +kernel
  have hParsed : OpenaiResponses.parseRequest (Text.toUtf8 parallelBody.render) =
      .ok (OpenaiResponses.requestOf parallelBody [] none) := by
    rw [OpenaiResponses.parseRequest, hBody]
    rfl
  have hSteps : inputSteps parallelBody =
      [.call "a".toList, .call "b".toList, .result "a".toList, .result "b".toList] := by
    decide +kernel
  have hAnswered : Answered [] (inputSteps parallelBody) := by
    rw [hSteps]
    simp [Answered]
  have hPaired := (requestOf_wellPaired_iff _ _ _ _).mp
    (h _ _ _ { targetModel := [] } hBody hParsed hAnswered)
  rw [hSteps] at hPaired
  exact hPaired

end Gateway.Wire
