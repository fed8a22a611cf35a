import Gateway.Wire.Anthropic.Relayed
import Gateway.Wire.Gemini.Names
import Gateway.Wire.OpenaiResponses.Emit
import Gateway.Wire.ToolPairing

/-! Calls and results of a Responses history, as the client wrote them, as the parser
reads them and as each upstream gets them. -/
namespace Gateway.Wire

open Json
open OpenaiResponses (callIdOf hasCallId isToolCall isToolOutput)

/-! ### What the client wrote -/

/-- The halves of an exchange that an item is by its type. A result's type is that of
its call with an ending of its own. -/
def writtenSteps (item : Value) : List Step :=
  let id := callIdOf item
  let ofMessage : List Step :=
    if optStr item "role" = some "tool".toList then [.result id] else []
  match optStr item "type" with
  | none => ofMessage
  | some t =>
      if t = "message".toList then ofMessage
      else if "_output".toList <:+ t then
        if isToolOutput t || hasCallId item then [.result id] else []
      else if t = "mcp_call".toList then
        .call id :: (if (item.get "output").isSome then [.result id] else [])
      else if isToolCall t || hasCallId item then [.call id] else []

/-! ### What an upstream gets -/

def upstreamBody (upstream : WireFormat) (req : ChatRequest) (opts : EmitOptions) : Value :=
  match upstream with
  | .anthropic => Anthropic.emitBody req opts
  | .openaiChat => OpenaiChat.emitBody req opts
  | .openaiResponses => OpenaiResponses.emitBody req opts
  | .gemini => Gemini.emitBody req opts

def chatSteps (m : Value) : List Step :=
  (callIds m).map .call ++ (answered m).toList.map .result

def blockSteps (b : Value) : List Step :=
  if optStr b "type" = some "tool_use".toList then [.call ((optStr b "id").getD [])]
  else if optStr b "type" = some "tool_result".toList then
    [.result ((optStr b "tool_use_id").getD [])]
  else []

/-- A Gemini upstream matches by name. -/
def partSteps (part : Value) : List Step :=
  (Gemini.callName part).toList.map .call ++ (Gemini.responseName part).toList.map .result

def upstreamSteps (upstream : WireFormat) (body : Value) : List Step :=
  match upstream with
  | .anthropic => ((optArr body "messages").getD []).flatMap fun m =>
      ((optArr m "content").getD []).flatMap blockSteps
  | .openaiChat => (messagesOf body).flatMap chatSteps
  | .openaiResponses => ((optArr body "input").getD []).flatMap writtenSteps
  | .gemini => (Gemini.partsOf body).flatMap partSteps

/-! ### What the parser reads -/

def toolName (item : Value) : Str := ((optStr item "name").or (optStr item "type")).getD []

/-- What an item's call goes by. -/
def keyOf (upstream : WireFormat) (item : Value) : Str :=
  match upstream with
  | .gemini => toolName item
  | _ => callIdOf item

/-- A half under the key that its call goes by. -/
def Step.sent (key : Str) : Step → Option Step
  | .call _ => some (.call key)
  | .result id => some (.result id)
  | .other => none

/-- The halves an item is read as, each under the key it is sent with. A Responses
upstream reads the items itself. -/
def readSteps (upstream : WireFormat) (item : Value) : List Step :=
  match upstream with
  | .openaiResponses => writtenSteps item
  | upstream => (itemSteps item).filterMap (Step.sent (keyOf upstream item))

/-- A result is sent with its call, and a call with its result. -/
def Together (upstream : WireFormat) (items : List Value) (sent : List Step) : Prop :=
  ∀ item ∈ items, ∀ id, .call id ∈ writtenSteps item →
    (.result id ∈ sent → .call id ∈ sent) ∧
      ((∃ other ∈ items, .result id ∈ writtenSteps other) → .call (keyOf upstream item) ∈ sent →
        .result id ∈ sent)

/-! ### The parsed messages -/

/-- The half a block is, under the key it is sent with. -/
def halfOf (upstream : WireFormat) : ContentBlock → List Step
  | .toolUse id name _ => [.call (if upstream = .gemini then name else id)]
  | .toolResult id _ _ => [.result id]
  | _ => []

/-- Text and images. -/
def isPart : ContentBlock → Bool
  | .text _ | .cachedText .. | .image .. => true
  | _ => false

theorem isPart_parsePart {p : Value} {b : ContentBlock} (h : OpenaiResponses.parsePart p = some b) :
    isPart b = true := by
  unfold OpenaiResponses.parsePart at h
  split at h
  · cases h
  · split_ifs at h
    · cases h
      rfl
    · cases h
      rfl
    · dsimp only at h
      split at h <;>
        · cases h
          rfl

theorem isPart_parseContentParts {content : Option Value} {b : ContentBlock}
    (h : b ∈ OpenaiResponses.parseContentParts content) : isPart b = true := by
  unfold OpenaiResponses.parseContentParts at h
  split at h
  · rw [List.mem_singleton.mp h]
    rfl
  · obtain ⟨p, -, hp⟩ := List.mem_filterMap.mp h
    exact isPart_parsePart hp
  · cases h

theorem halfOf_part (upstream : WireFormat) {b : ContentBlock} (h : isPart b = true) :
    halfOf upstream b = [] := by
  cases b <;> first | rfl | cases h

theorem halves_parts (upstream : WireFormat) (content : Option Value) :
    (OpenaiResponses.parseContentParts content).flatMap (halfOf upstream) = [] :=
  List.flatMap_eq_nil_iff.mpr fun _ hb => halfOf_part upstream (isPart_parseContentParts hb)

theorem halves_toolCallMessage (upstream : WireFormat) (item : Value) :
    (OpenaiResponses.toolCallMessage item).content.flatMap (halfOf upstream) =
      [.call (keyOf upstream item)] := by
  cases upstream <;> rfl

/-- The halves of an item's messages are those that the item is read as. -/
theorem halves_parseInputItem {upstream : WireFormat} (h : upstream ≠ .openaiResponses)
    (item : Value) :
    (OpenaiResponses.parseInputItem item).flatMap (fun m => m.content.flatMap (halfOf upstream)) =
      readSteps upstream item := by
  have hCall := halves_toolCallMessage upstream item
  have hResult (text : Str) :
      (OpenaiResponses.toolResultMessage item text).content.flatMap (halfOf upstream) =
        [.result (callIdOf item)] := rfl
  have hRead : readSteps upstream item =
      (itemSteps item).filterMap (Step.sent (keyOf upstream item)) := by
    cases upstream <;> first | rfl | exact absurd rfl h
  have hMessage : [OpenaiResponses.parseMessageItem item].flatMap
        (fun m => m.content.flatMap (halfOf upstream)) =
      (messageSteps item).filterMap (Step.sent (keyOf upstream item)) := by
    unfold OpenaiResponses.parseMessageItem messageSteps
    split_ifs
    · rfl
    · exact (List.flatMap_singleton _ _).trans (halves_parts upstream _)
    · exact (List.flatMap_singleton _ _).trans (halves_parts upstream _)
  rw [hRead]
  unfold OpenaiResponses.parseInputItem itemSteps
  cases optStr item "type" with
  | none => exact hMessage
  | some t =>
      simp only
      split_ifs
      · exact hMessage
      · simp [hCall, Step.sent]
      · simp [hCall, hResult, Step.sent]
      · simp [hCall, Step.sent]
      · simp [hResult, Step.sent]
      · simp [hResult, Step.sent]
      · simp [hCall, Step.sent]
      · rfl

/-! ### Each upstream -/

theorem itemSteps_chat (item : Value) :
    (itemSteps item).filterMap (Step.sent (callIdOf item)) =
      (itemSteps item).filter (· ≠ .other) := by
  have hMessage : (messageSteps item).filterMap (Step.sent (callIdOf item)) =
      (messageSteps item).filter (· ≠ .other) := by
    unfold messageSteps
    split_ifs <;> rfl
  unfold itemSteps
  cases optStr item "type" with
  | none => exact hMessage
  | some t =>
      simp only
      split_ifs
      · exact hMessage
      all_goals rfl

theorem chatSteps_of_takes {messages : List Value} {steps : List Step}
    (h : List.Forall₂ Takes messages steps) :
    messages.flatMap chatSteps = steps.filter (· ≠ .other) := by
  induction h with
  | nil => rfl
  | cons hHead _ ih =>
      rw [List.flatMap_cons, ih]
      cases hHead with
      | call calls speaks => simp [chatSteps, calls, speaks]
      | result silent answers => simp [chatSteps, silent, answers]
      | other silent speaks => simp [chatSteps, silent, speaks]

theorem partSteps_emitPart (b : ContentBlock) :
    (Gemini.emitPart b).toList.flatMap partSteps = halfOf .gemini b := by
  cases b with
  | image mediaType data url =>
      cases data <;> cases url <;>
        simp [Gemini.emitPart, partSteps, Gemini.callName, Gemini.responseName, halfOf]
  | _ => simp [Gemini.emitPart, partSteps, Gemini.callName, Gemini.responseName, halfOf]

theorem blockSteps_emitBlock {b : ContentBlock} (h : isPart b = true ∨ b.isToolResult = true ∨
    ∃ id name input, b = .toolUse id name input) :
    blockSteps (Anthropic.emitBlock b) = halfOf .anthropic b := by
  cases b with
  | cachedText t ttl => cases ttl <;> simp [Anthropic.emitBlock, blockSteps, halfOf]
  | image mediaType data url => simp [Anthropic.emitBlock, blockSteps, halfOf]
  | toolResult id content isError =>
      have hId : optStr (Anthropic.resultBlock id (Anthropic.emitSystem content) isError)
          "tool_use_id" = some id := by
        cases isError <;> simp [Anthropic.resultBlock]
      rw [Anthropic.emitBlock_result, blockSteps, Anthropic.type_resultBlock, hId]
      rfl
  | text t => simp [Anthropic.emitBlock, blockSteps, halfOf]
  | toolUse id name input =>
      have hType : optStr (Anthropic.emitBlock (.toolUse id name input)) "type" =
          some "tool_use".toList := by
        rw [Anthropic.emitBlock, optStr_obj]
        rfl
      have hId : optStr (Anthropic.emitBlock (.toolUse id name input)) "id" = some id := by
        rw [Anthropic.emitBlock, optStr_obj]
        rfl
      rw [blockSteps, if_pos hType, hId]
      rfl
  | native format raw => simp [isPart, ContentBlock.isToolResult] at h
  | thinking t signature => simp [isPart, ContentBlock.isToolResult] at h

/-- An Anthropic message has its halves in its blocks. -/
theorem blockSteps_emitContent {content : List ContentBlock}
    (h : ∀ b ∈ content, isPart b = true ∨ b.isToolResult = true ∨
      ∃ id name input, b = .toolUse id name input) :
    (((Anthropic.emitContent content).asArray.getD []).flatMap blockSteps) =
      content.flatMap (halfOf .anthropic) := by
  unfold Anthropic.emitContent
  split
  · rfl
  · rw [Value.asArray_array, Option.getD_some, List.flatMap_map]
    exact List.flatMap_congr fun b hb => blockSteps_emitBlock (h b hb)

/-- Instructions are no half of an exchange. -/
theorem chatSteps_emitMessages (req : ChatRequest) :
    (OpenaiChat.emitMessages req).flatMap chatSteps =
      (req.messages.flatMap OpenaiChat.emitMessage).flatMap chatSteps := by
  have hSystem (text : Str) : chatSteps (OpenaiChat.systemMessage text) = [] := by
    simp [chatSteps, callIds, answered, OpenaiChat.systemMessage]
  unfold OpenaiChat.emitMessages
  cases req.system with
  | none => rfl
  | some blocks => rw [List.singleton_append, List.flatMap_cons, hSystem, List.nil_append]

/-! ### The whole body -/

/-- What the parser makes of items: turns of parts, calls and results, and instructions
of parts only. -/
structure Plain (m : Message) : Prop where
  blocks : ∀ b ∈ m.content, isPart b = true ∨ b.isToolResult = true ∨
    ∃ id name input, b = .toolUse id name input
  instructions : m.role = .system ∨ m.role = .developer → ∀ b ∈ m.content, isPart b = true

theorem plain_parseInputItem {item : Value} {m : Message}
    (h : m ∈ OpenaiResponses.parseInputItem item) : Plain m := by
  have hCall : Plain (OpenaiResponses.toolCallMessage item) :=
    ⟨fun b hb => .inr (.inr ⟨_, _, _, List.mem_singleton.mp hb⟩),
      fun hRole => by rcases hRole with hRole | hRole <;> cases hRole⟩
  have hResult (text : Str) : Plain (OpenaiResponses.toolResultMessage item text) :=
    ⟨fun b hb => .inr (.inl (by rw [List.mem_singleton.mp hb]; rfl)),
      fun hRole => by rcases hRole with hRole | hRole <;> cases hRole⟩
  have hMessage : Plain (OpenaiResponses.parseMessageItem item) := by
    unfold OpenaiResponses.parseMessageItem
    split_ifs
    · exact hResult _
    · exact ⟨fun b hb => .inl (isPart_parseContentParts hb),
        fun _ b hb => isPart_parseContentParts hb⟩
  unfold OpenaiResponses.parseInputItem at h
  cases hType : optStr item "type" with
  | none =>
      rw [hType] at h
      exact List.mem_singleton.mp h ▸ hMessage
  | some t =>
      rw [hType] at h
      simp only at h
      split_ifs at h
      · exact List.mem_singleton.mp h ▸ hMessage
      · exact List.mem_singleton.mp h ▸ hCall
      · rcases List.mem_cons.mp h with rfl | h
        · exact hCall
        · exact List.mem_singleton.mp h ▸ hResult _
      · exact List.mem_singleton.mp h ▸ hCall
      · exact List.mem_singleton.mp h ▸ hResult _
      · exact List.mem_singleton.mp h ▸ hResult _
      · exact List.mem_singleton.mp h ▸ hCall
      · exact (List.not_mem_nil h).elim

theorem halves_instructions {m : Message} (h : Plain m) (hRole : m.role = .system ∨ m.role = .developer)
    (upstream : WireFormat) : m.content.flatMap (halfOf upstream) = [] :=
  List.flatMap_eq_nil_iff.mpr fun b hb => halfOf_part upstream (h.instructions hRole b hb)

theorem optArr_content (role : String) (c : Value) :
    optArr (obj [("role", .string role.toList), ("content", c)]) "content" = c.asArray := by
  rw [optArr_obj]
  rfl

theorem steps_anthropic {messages : List Message} (h : ∀ m ∈ messages, Plain m) :
    ((messages.filterMap Anthropic.emitMessage).flatMap fun m =>
        ((optArr m "content").getD []).flatMap blockSteps) =
      messages.flatMap fun m => m.content.flatMap (halfOf .anthropic) := by
  induction messages with
  | nil => rfl
  | cons m rest ih =>
      obtain ⟨hFirst, hRest⟩ := List.forall_mem_cons.mp h
      have hContent := blockSteps_emitContent hFirst.blocks
      rw [List.flatMap_cons, ← ih hRest, List.filterMap_cons]
      obtain ⟨role, content⟩ := m
      cases role with
      | system => rw [halves_instructions hFirst (.inl rfl)]; rfl
      | developer => rw [halves_instructions hFirst (.inr rfl)]; rfl
      | _ => simp only [Anthropic.emitMessage, List.flatMap_cons, optArr_content, hContent]

theorem steps_gemini {messages : List Message} (h : ∀ m ∈ messages, Plain m) :
    ((Gemini.turnBlocks messages).filterMap Gemini.emitPart).flatMap partSteps =
      messages.flatMap fun m => m.content.flatMap (halfOf .gemini) := by
  have hBlocks (blocks : List ContentBlock) :
      (blocks.filterMap Gemini.emitPart).flatMap partSteps = blocks.flatMap (halfOf .gemini) := by
    induction blocks with
    | nil => rfl
    | cons b rest ih =>
        rw [List.flatMap_cons, ← ih, ← partSteps_emitPart, List.filterMap_cons]
        cases Gemini.emitPart b <;> simp
  induction messages with
  | nil => rfl
  | cons m rest ih =>
      obtain ⟨hFirst, hRest⟩ := List.forall_mem_cons.mp h
      have hMore := ih hRest
      rw [Gemini.turnBlocks] at hMore ⊢
      rw [List.flatMap_cons, List.flatMap_cons, List.filterMap_append, List.flatMap_append, hMore]
      split_ifs with hRole
      · rw [halves_instructions hFirst hRole]
        rfl
      · rw [hBlocks]

theorem halves_inputItems {upstream : WireFormat} (h : upstream ≠ .openaiResponses)
    (items : List Value) :
    ((items.flatMap OpenaiResponses.parseInputItem).flatMap fun m =>
        m.content.flatMap (halfOf upstream)) = items.flatMap (readSteps upstream) := by
  rw [List.flatMap_assoc]
  exact List.flatMap_congr fun item _ => halves_parseInputItem h item

/-- An upstream gets the halves that the items are read as, in their order. -/
theorem upstreamSteps_emitBody {v : Value} {items : List Value}
    (hInput : v.get "input" = some (.array items)) (tools : List Tool) (choice : Option ToolChoice)
    (upstream : WireFormat) (opts : EmitOptions) :
    upstreamSteps upstream
        (upstreamBody upstream (OpenaiResponses.requestOf v tools choice) opts) =
      items.flatMap (readSteps upstream) := by
  have hMessages : (OpenaiResponses.requestOf v tools choice).messages =
      items.flatMap OpenaiResponses.parseInputItem := by
    rw [OpenaiResponses.requestOf, hInput]
    rfl
  have hPlain : ∀ m ∈ (OpenaiResponses.requestOf v tools choice).messages, Plain m := by
    intro m hm
    rw [hMessages] at hm
    obtain ⟨item, -, hItem⟩ := List.mem_flatMap.mp hm
    exact plain_parseInputItem hItem
  cases upstream with
  | anthropic =>
      have hBody : (optArr (Anthropic.emitBody (OpenaiResponses.requestOf v tools choice) opts)
          "messages").getD [] =
            (OpenaiResponses.requestOf v tools choice).messages.filterMap Anthropic.emitMessage := by
        rw [optArr, Anthropic.get_messages_emitBody]
        rfl
      rw [upstreamBody, upstreamSteps, hBody, steps_anthropic hPlain, hMessages,
        halves_inputItems (by decide)]
  | gemini =>
      rw [upstreamBody, upstreamSteps, Gemini.partsOf_emitBody, steps_gemini hPlain, hMessages,
        halves_inputItems (by decide)]
  | openaiResponses =>
      have hItems : (optArr (OpenaiResponses.emitBody (OpenaiResponses.requestOf v tools choice) opts)
          "input").getD [] = items := by
        rw [optArr, OpenaiResponses.get_input_emitBody, OpenaiResponses.inputItems,
          OpenaiResponses.requestOf, optArr, hInput]
        rfl
      rw [upstreamBody, upstreamSteps, hItems]
      rfl
  | openaiChat =>
      have hInputs : (OpenaiResponses.requestOf v tools choice).messages =
          OpenaiResponses.inputMessages (v.get "input") := rfl
      have hSteps : inputSteps v = items.flatMap itemSteps := by
        rw [inputSteps, hInput]
      rw [upstreamBody, upstreamSteps, messagesOf_emitBody opts rfl, chatSteps_emitMessages, hInputs,
        chatSteps_of_takes (emitMessages_input v), hSteps, List.filter_flatMap]
      exact List.flatMap_congr fun item _ => (itemSteps_chat item).symm

/-! ### Exchanges -/

/-- Where the parser reads one half of an exchange, it reads the other one. A Gemini
upstream knows a call by its name. -/
structure Understood (upstream : WireFormat) (items : List Value) : Prop where
  results : ∀ item ∈ items, ∀ id, .call id ∈ writtenSteps item →
    (∃ other ∈ items, .result id ∈ readSteps upstream other) →
      ∃ other ∈ items, .call id ∈ readSteps upstream other
  calls : ∀ item ∈ items, ∀ id, .call id ∈ writtenSteps item →
    (∃ other ∈ items, .result id ∈ writtenSteps other) →
      (∃ other ∈ items, .call (keyOf upstream item) ∈ readSteps upstream other) →
        ∃ other ∈ items, .result id ∈ readSteps upstream other

theorem together_iff (upstream : WireFormat) (items : List Value) :
    Together upstream items (items.flatMap (readSteps upstream)) ↔ Understood upstream items := by
  unfold Together
  simp only [List.mem_flatMap]
  exact ⟨fun h => ⟨fun item hItem id hCall => (h item hItem id hCall).1,
      fun item hItem id hCall => (h item hItem id hCall).2⟩,
    fun h item hItem id hCall => ⟨h.results item hItem id hCall, h.calls item hItem id hCall⟩⟩

theorem understood_of_faithful {upstream : WireFormat} {items : List Value}
    (h : ∀ item ∈ items, readSteps upstream item = writtenSteps item) : Understood upstream items where
  results item hItem id hCall _ := ⟨item, hItem, by rwa [h item hItem]⟩
  calls item hItem id hCall hResult _ := by
    obtain ⟨other, hOther, hWritten⟩ := hResult
    exact ⟨other, hOther, by rwa [h other hOther]⟩

/-- The parts of an exchange reach an upstream together exactly when the parser reads
both or neither. -/
theorem exchanges_together_iff {bytes : List UInt8} {v : Value} {items : List Value}
    {req : ChatRequest} (hRead : fromSlice bytes = some v)
    (hInput : v.get "input" = some (.array items))
    (hParse : OpenaiResponses.parseRequest bytes = .ok req) (upstream : WireFormat)
    (opts : EmitOptions) :
    Together upstream items (upstreamSteps upstream (upstreamBody upstream req opts)) ↔
      Understood upstream items := by
  rw [OpenaiResponses.parseRequest, hRead] at hParse
  obtain ⟨held, choice, -, -, rfl⟩ := OpenaiResponses.parseBody_eq_ok hParse
  rw [upstreamSteps_emitBody hInput, together_iff]

/-- A call that is known by its type only, and its output. -/
def shellItems (kind : String) : List Value :=
  [obj [("type", .string kind.toList), ("call_id", .string "c1".toList), ("action", obj [])],
    obj [("type", .string (kind ++ "_output").toList), ("call_id", .string "c1".toList),
      ("output", .string "ok".toList)]]

theorem read_shellBody (kind : String) :
    fromSlice (Text.toUtf8 (obj [("input", .array (shellItems kind))]).render) =
      some (obj [("input", .array (shellItems kind))]) := by
  have hAction : (obj []).Fits 1 := fits_obj (fun f hf => (List.not_mem_nil hf).elim)
  suffices (obj [("input", .array (shellItems kind))]).Fits 4 from (this.mono (by decide)).fromSlice
  refine fits_obj (List.forall_mem_singleton.mpr (fits_array (List.forall_mem_cons.mpr
    ⟨fits_obj ?_, List.forall_mem_singleton.mpr (fits_obj ?_)⟩)))
  · simp [hAction]
  · simp

theorem parse_shellBody (kind : String) :
    OpenaiResponses.parseRequest
        (Text.toUtf8 (obj [("input", .array (shellItems kind))]).render) =
      .ok (OpenaiResponses.requestOf (obj [("input", .array (shellItems kind))]) [] none) := by
  have hTools : optArr (obj [("input", .array (shellItems kind))]) "tools" = none := by simp
  have hChoice : (obj [("input", .array (shellItems kind))]).get "tool_choice" = none := by simp
  have hObject : OpenaiResponses.isObject (obj [("input", .array (shellItems kind))]) = true := rfl
  rw [OpenaiResponses.parseRequest, read_shellBody]
  simp only [OpenaiResponses.parseBody, hObject, hTools, hChoice, if_true]
  rfl

theorem get_shellBody (kind : String) :
    (obj [("input", .array (shellItems kind))]).get "input" = some (.array (shellItems kind)) := by
  simp

theorem local_shell_together :
    Together .openaiChat (shellItems "local_shell_call") (upstreamSteps .openaiChat
      (upstreamBody .openaiChat (OpenaiResponses.requestOf
        (obj [("input", .array (shellItems "local_shell_call"))]) [] none) { targetModel := [] })) := by
  refine (exchanges_together_iff (read_shellBody _) (get_shellBody _) (parse_shellBody _) _ _).mpr
    (understood_of_faithful (List.forall_mem_cons.mpr ⟨?_, List.forall_mem_singleton.mpr ?_⟩))
  · decide +kernel
  · decide +kernel

theorem shell_call_dropped :
    ¬ ∀ (bytes : List UInt8) (v : Value) (items : List Value) (req : ChatRequest)
      (upstream : WireFormat) (opts : EmitOptions), fromSlice bytes = some v →
      v.get "input" = some (.array items) → OpenaiResponses.parseRequest bytes = .ok req →
        Together upstream items (upstreamSteps upstream (upstreamBody upstream req opts)) := by
  intro h
  have hTogether := h _ _ (shellItems "shell_call") _ .openaiChat { targetModel := [] }
    (read_shellBody _) (get_shellBody _) (parse_shellBody _)
  have hSent : (shellItems "shell_call").flatMap (readSteps .openaiChat) =
      [.result "c1".toList] := by decide +kernel
  have hCall : .call "c1".toList ∈ (shellItems "shell_call").flatMap writtenSteps := by
    decide +kernel
  obtain ⟨item, hItem, hWritten⟩ := List.mem_flatMap.mp hCall
  rw [upstreamSteps_emitBody (get_shellBody _), hSent] at hTogether
  exact absurd ((hTogether item hItem _ hWritten).1 List.mem_cons_self) (by decide)

end Gateway.Wire
