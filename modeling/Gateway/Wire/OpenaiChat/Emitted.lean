import Gateway.Wire.OpenaiChat.Chained
import Gateway.Wire.ReadBack

/-! A request of another surface on its way to Chat Completions upstreams. What the first
of them reads is the request in the form that the dialect has for it, and gateways that
stand further behind are told the same. -/
namespace Gateway.Wire.OpenaiChat

open Json Text

/-! ### The form a request takes -/

def callForm : ContentBlock → Option ContentBlock
  | .toolUse id name input => some (.toolUse id name input.reread)
  | _ => none

/-- What the model said, with its thinking first and its calls last. -/
def assistantForm (blocks : List ContentBlock) : List ContentBlock :=
  (nonEmpty (some (thinkingText blocks))).map (.thinking · none) ++
    ((nonEmpty (some (joinText blocks))).map .text ++ blocks.filterMap callForm)

def partForm : ContentBlock → Option ContentBlock
  | .text t | .cachedText t _ => some (.text t)
  | .image mediaType data url => (url.or (data.map (buildDataUrl mediaType))).map imageFromUrl
  | _ => none

def userForm (blocks : List ContentBlock) : List ContentBlock :=
  if blocks.all ContentBlock.isText then [.text (joinText blocks)] else blocks.filterMap partForm

/-- The instructions that stand in a turn. -/
def systemOf (m : Message) : List ContentBlock :=
  match m.role with
  | .system | .developer => [.text m.text]
  | _ => []

def resultForm : ContentBlock → Option Message
  | .toolResult id content _ => some ⟨.tool, [.toolResult id [.text (joinText content)] false]⟩
  | _ => none

/-- The turns that come of one: results are turns of their own, before the rest. -/
def turnForm (m : Message) : List Message :=
  match m.role with
  | .system | .developer => []
  | .assistant => [⟨.assistant, assistantForm m.content⟩]
  | .user | .tool =>
      let others := m.content.filter (fun b => !b.isToolResult)
      m.content.filterMap resultForm ++ (if others.isEmpty then [] else [⟨.user, userForm others⟩])

def systemForm (req : ChatRequest) : List ContentBlock :=
  (req.system.map fun system => ContentBlock.text (joinText system)).toList ++
    req.messages.flatMap systemOf

def chatForm (req : ChatRequest) : ChatRequest where
  model := req.model
  messages := req.messages.flatMap turnForm
  system := if (systemForm req).isEmpty then none else some (systemForm req)
  tools := req.tools.map fun t => { t with anthropicCacheControl := none }
  toolChoice := req.toolChoice
  maxTokens := req.maxTokens
  temperature := req.temperature
  topP := req.topP
  stop := req.stop
  reasoning := (req.reasoning.bind Reasoning.effort).map fun effort => { effort := some effort }
  promptCacheKey := req.promptCacheKey
  promptCacheRetention := req.promptCacheKey.map fun _ =>
    req.promptCacheRetention.getD "24h".toList

/-- A request as a program holds it: its documents nest no deeper than a reader goes. -/
structure Sendable (req : ChatRequest) : Prop where
  arguments : ∀ m ∈ req.messages, ∀ id name input, .toolUse id name input ∈ m.content →
    input.Kept maxDepth
  schemas : ∀ t ∈ req.tools, t.inputSchema.Kept (maxDepth - 4)
  maxTokens : ∀ n ∈ req.maxTokens, n < 2 ^ 32
  temperature : ∀ n ∈ req.temperature, n.Readable
  topP : ∀ n ∈ req.topP, n.Readable

/-! ### Messages -/

theorem parseArguments_reread {input : Value} (kept : input.Kept maxDepth) :
    parseArguments (some input.render) = input.reread := by
  rw [parseArguments, if_neg (by simp [render_isEmpty]), fromStr_render kept.readable,
    Option.getD_some]

theorem map_parseCall_reread {blocks : List ContentBlock}
    (h : ∀ id name input, .toolUse id name input ∈ blocks → input.Kept maxDepth) :
    (toolCalls blocks).map parseCall = blocks.filterMap callForm := by
  induction blocks with
  | nil => rfl
  | cons b rest ih =>
      have hRest := ih fun id name input hb => h id name input (List.mem_cons_of_mem _ hb)
      cases b with
      | toolUse id name input =>
          have hCall : parseCall (toolCall id name input) = .toolUse id name input.reread := by
            simp [parseCall, toolCall, parseArguments_reread (h id name input List.mem_cons_self)]
          exact congrArg₂ List.cons hCall hRest
      | _ => exact hRest

theorem parseAssistant_emitAssistant {m : Message}
    (h : ∀ id name input, .toolUse id name input ∈ m.content → input.Kept maxDepth) :
    parseAssistant (emitAssistant m) = assistantForm m.content := by
  have hCalls := map_parseCall_reread h
  rw [assistantForm, ← hCalls, parseAssistant, messageBlocks, emitAssistant]
  cases hText : joinText m.content <;> cases hThinking : thinkingText m.content <;>
    cases hTools : toolCalls m.content <;>
    simp [nonEmpty, Message.text, hText, Value.asStr, Value.asArray]

theorem parseUserPart_emitUserPart (b : ContentBlock) :
    (emitUserPart b).bind parseUserPart = partForm b := by
  cases b with
  | image mediaType data url =>
      cases url <;> cases data <;> simp [emitUserPart, parseUserPart, partForm]
  | _ => simp [emitUserPart, parseUserPart, partForm]

theorem parseUserContent_emitUserContent (blocks : List ContentBlock) :
    parseUserContent (some (emitUserContent blocks)) = userForm blocks := by
  unfold emitUserContent userForm
  split_ifs
  · rfl
  · show (blocks.filterMap emitUserPart).filterMap parseUserPart = _
    rw [List.filterMap_filterMap]
    exact List.filterMap_congr fun b _ => parseUserPart_emitUserPart b

/-- A message whose role is told, after what was read. -/
theorem addMessage_systemMessage (read : List ContentBlock × List Message) (text : Str) :
    addMessage read (systemMessage text) = .ok (read.1 ++ [.text text], read.2) := by
  simp [addMessage, systemMessage, parseUserContent]

theorem addMessages_toolMessages (read : List ContentBlock × List Message)
    (blocks : List ContentBlock) : (toolMessages blocks).foldlM addMessage read =
      .ok (read.1, read.2 ++ blocks.filterMap resultForm) := by
  induction blocks generalizing read with
  | nil =>
      rw [List.filterMap_nil, List.append_nil]
      rfl
  | cons b rest ih =>
      cases b with
      | toolResult id content isError =>
          have hFirst : addMessage read (toolMessage id content) = .ok (read.1, read.2 ++
              [⟨.tool, [.toolResult id [.text (joinText content)] false]⟩]) := by
            simp [addMessage, toolMessage, parseUserContent]
          show List.foldlM addMessage read (toolMessage id content :: toolMessages rest) = _
          rw [List.foldlM_cons, hFirst]
          refine (ih _).trans ?_
          rw [List.append_assoc]
          rfl
      | _ => exact ih read

/-- The instructions and the turns that one turn is read as. -/
theorem addMessages_emitMessage {m : Message} (read : List ContentBlock × List Message)
    (h : ∀ id name input, .toolUse id name input ∈ m.content → input.Kept maxDepth) :
    (emitMessage m).foldlM addMessage read =
      .ok (read.1 ++ systemOf m, read.2 ++ turnForm m) := by
  have hUser (blocks : List ContentBlock) (read : List ContentBlock × List Message) :
      addMessage read (obj [("role", .string "user".toList), ("content", emitUserContent blocks)]) =
        .ok (read.1, read.2 ++ [⟨.user, userForm blocks⟩]) := by
    rw [← parseUserContent_emitUserContent]
    simp [addMessage]
  have hRest : (toolMessages m.content ++
      (if (m.content.filter (fun b => !b.isToolResult)).isEmpty then [] else
        [obj [("role", .string "user".toList),
          ("content", emitUserContent (m.content.filter (fun b => !b.isToolResult)))]])).foldlM
        addMessage read = .ok (read.1, read.2 ++ (m.content.filterMap resultForm ++
          (if (m.content.filter (fun b => !b.isToolResult)).isEmpty then []
            else [⟨.user, userForm (m.content.filter (fun b => !b.isToolResult))⟩]))) := by
    rw [List.foldlM_append, addMessages_toolMessages]
    split_ifs
    · rw [List.append_nil]
      rfl
    · show List.foldlM addMessage (read.1, read.2 ++ m.content.filterMap resultForm) _ = _
      rw [List.foldlM_cons, hUser, ← List.append_assoc]
      rfl
  unfold emitMessage systemOf turnForm
  cases m.role with
  | system | developer =>
      rw [List.foldlM_cons, addMessage_systemMessage, List.append_nil]
      rfl
  | assistant =>
      have hRole : optStr (emitAssistant m) "role" = some "assistant".toList := by
        unfold emitAssistant
        cases thinkingText m.content <;> cases toolCalls m.content <;> simp
      rw [List.foldlM_cons, addMessage, hRole, parseAssistant_emitAssistant h, List.append_nil]
      rfl
  | user | tool => exact hRest.trans (by rw [List.append_nil])

theorem addMessages_emitMessages {req : ChatRequest} (sendable : Sendable req) :
    (emitMessages req).foldlM addMessage ([], []) =
      .ok (systemForm req, req.messages.flatMap turnForm) := by
  have hTurns (messages : List Message) (h : ∀ m ∈ messages, ∀ id name input,
      .toolUse id name input ∈ m.content → input.Kept maxDepth)
      (read : List ContentBlock × List Message) :
      (messages.flatMap emitMessage).foldlM addMessage read =
        .ok (read.1 ++ messages.flatMap systemOf, read.2 ++ messages.flatMap turnForm) := by
    induction messages generalizing read with
    | nil => simp [pure, Except.pure]
    | cons m rest ih =>
        obtain ⟨hFirst, hRest⟩ := List.forall_mem_cons.mp h
        rw [List.flatMap_cons, List.foldlM_append, addMessages_emitMessage read hFirst]
        refine (ih hRest _).trans ?_
        rw [List.append_assoc, List.append_assoc]
        rfl
  unfold emitMessages systemForm
  cases req.system with
  | none => exact hTurns _ sendable.arguments _
  | some system =>
      rw [List.foldlM_append, List.foldlM_cons, addMessage_systemMessage]
      exact hTurns _ sendable.arguments _

/-! ### The body -/

/-- The members of a body, with those that are left out. -/
def entries (req : ChatRequest) (o : EmitOptions) : List (String × Option Value) :=
  let effort := o.forceReasoningEffort.or (req.reasoning.bind Reasoning.effort)
  [("model", some (.string (targetOf req.model o))),
    ("messages", some (.array (emitMessages req))),
    ("tools", if req.tools.isEmpty then none else some (.array (req.tools.map emitTool))),
    ("tool_choice", req.toolChoice.map emitToolChoice),
    ("max_tokens", req.maxTokens.map .nat),
    ("temperature", req.temperature.map .number),
    ("top_p", req.topP.map .number),
    ("stop", if req.stop.isEmpty then none else some (.array (req.stop.map .string))),
    ("stream", if o.stream then some (.bool true) else none),
    ("stream_options", if o.stream then some (obj [("include_usage", .bool true)]) else none),
    ("reasoning_effort", effort.map .string),
    ("prompt_cache_key", req.promptCacheKey.map .string),
    ("prompt_cache_retention", req.promptCacheKey.map fun _ =>
      .string (req.promptCacheRetention.getD "24h".toList))]

def fieldsOf (entries : List (String × Option Value)) : List (String × Value) :=
  entries.flatMap fun e => optField e.1 e.2

theorem emitBody_eq {req : ChatRequest} (fresh : req.nativeRequest = none) (o : EmitOptions) :
    emitBody req o = obj (fieldsOf (entries req o)) := by
  rw [emitBody, fresh]
  refine congrArg obj ?_
  have hCache : cacheFields req = optField "prompt_cache_key" (req.promptCacheKey.map .string) ++
      optField "prompt_cache_retention" (req.promptCacheKey.map fun _ =>
        .string (req.promptCacheRetention.getD "24h".toList)) := by
    unfold cacheFields
    cases req.promptCacheKey <;> rfl
  simp only [fieldsOf, entries, List.flatMap_cons, List.flatMap_nil, hCache, List.append_assoc]
  cases req.tools.isEmpty <;> cases req.stop.isEmpty <;> cases o.stream <;> simp [optField, targetOf]

/-- A member is found in the entry of its name. -/
theorem get_obj_fieldsOf (entries : List (String × Option Value)) (key : String) :
    (obj (fieldsOf entries)).get key =
      entries.foldl (fun found e => if e.1 = key then e.2.or found else found) none := by
  rw [get_obj]
  generalize (none : Option Value) = found
  induction entries generalizing found with
  | nil => rfl
  | cons e rest ih =>
      obtain ⟨name, v⟩ := e
      rw [fieldsOf, List.flatMap_cons, List.foldl_append, ← fieldsOf, ih]
      cases v <;> by_cases hKey : name = key <;> simp [optField, hKey]

theorem kept_obj_fieldsOf {entries : List (String × Option Value)} {depth : Nat}
    (h : ∀ e ∈ entries, ∀ v ∈ e.2, v.Kept depth) : (obj (fieldsOf entries)).Kept (depth + 1) := by
  refine kept_obj fun f hf => ?_
  obtain ⟨e, he, hf⟩ := List.mem_flatMap.mp hf
  obtain ⟨v, hv, rfl⟩ := Option.map_eq_some_iff.mp (Option.mem_toList.mp hf)
  exact h e he v hv

theorem parseTool_emitTool (t : Tool) :
    parseTool (emitTool t) = .ok { t with anthropicCacheControl := none } := by
  obtain ⟨name, description, schema, strict, control⟩ := t
  cases description <;> cases strict <;>
    simp [parseTool, emitTool, optField, reqStr, Value.asBool, bind, Except.bind, pure, Except.pure]

theorem parseTools_emitTools (tools : List Tool) : (tools.map emitTool).mapM parseTool =
    .ok (tools.map fun t => { t with anthropicCacheControl := none }) := by
  induction tools with
  | nil => rfl
  | cons t rest ih =>
      rw [List.map_cons, List.mapM_cons, parseTool_emitTool, ih]
      rfl

theorem parseToolChoice_emitToolChoice (choice : ToolChoice) :
    parseToolChoice (emitToolChoice choice) = .ok choice := by
  cases choice with
  | tool name =>
      have hName : ((emitToolChoice (.tool name)).get "function").bind (optStr · "name") =
          some name := by
        simp [emitToolChoice]
      exact congrArg (fun found : Option Str => Except.ok (ToolChoice.tool
        ((found.or (optStr (emitToolChoice (.tool name)) "name")).getD []))) hName
  | _ => rfl

theorem parseStop_strings (stop : List Str) :
    parseStop (if stop.isEmpty then none else some (.array (stop.map .string))) = stop := by
  split_ifs with hEmpty
  · exact (List.isEmpty_iff.mp hEmpty).symm
  · show (stop.map Value.string).filterMap Value.asStr = stop
    rw [List.filterMap_map]
    exact List.filterMap_some

/-- What stands beside the conversation is read as it was written. -/
theorem requestOf_entries {req : ChatRequest} {o : EmitOptions} {v : Value}
    (hGet : ∀ key, v.get key =
      (entries req o).foldl (fun found e => if e.1 = key then e.2.or found else found) none)
    (maxTokens : ∀ n ∈ req.maxTokens, n < 2 ^ 32) :
    ∃ nativeRequest, requestOf v (systemForm req, req.messages.flatMap turnForm)
        (chatForm req).tools req.toolChoice = { hop (chatForm req) o with
      temperature := req.temperature.map Number.toFloat
      topP := req.topP.map Number.toFloat
      nativeRequest } := by
  have hModel : optStr v "model" = some (targetOf req.model o) := by
    rw [optStr, hGet]
    rfl
  have hStream : optBool v "stream" = o.stream := by
    rw [optBool, hGet]
    cases hStream : o.stream <;> simp [entries, hStream, Value.asBool]
  have hUsage : (((v.get "stream_options").bind (·.get "include_usage")).bind
      Value.asBool).getD false = o.stream := by
    rw [hGet]
    cases hStream : o.stream <;> simp [entries, hStream, Value.asBool]
  have hTokens : (optU32 v "max_tokens").or (optU32 v "max_completion_tokens") =
      req.maxTokens := by
    rw [optU32, optU32, hGet, hGet]
    cases hTokens : req.maxTokens with
    | none => simp [entries, hTokens]
    | some n =>
        have hSmall := maxTokens n hTokens
        simpa [entries, hTokens] using hSmall
  have hTemperature : optF32 v "temperature" = req.temperature.map Number.toFloat := by
    rw [optF32, hGet]
    cases hNumber : req.temperature <;> simp [entries, hNumber]
  have hTopP : optF32 v "top_p" = req.topP.map Number.toFloat := by
    rw [optF32, hGet]
    cases hNumber : req.topP <;> simp [entries, hNumber]
  have hStop : parseStop (v.get "stop") = req.stop := by
    rw [hGet, ← parseStop_strings req.stop]
    simp [entries]
  have hEffort : (optStr v "reasoning_effort").map
      (fun effort => ({ effort := some effort } : Reasoning)) =
      (o.forceReasoningEffort.map fun effort => { effort := some effort }).or
        ((req.reasoning.bind Reasoning.effort).map fun effort => { effort := some effort }) := by
    rw [optStr, hGet]
    cases hForced : o.forceReasoningEffort <;> cases hOwn : req.reasoning.bind Reasoning.effort <;>
      simp [entries, hForced, hOwn]
  have hKey : optStr v "prompt_cache_key" = req.promptCacheKey := by
    rw [optStr, hGet]
    cases hKey : req.promptCacheKey <;> simp [entries, hKey]
  have hRetention : optStr v "prompt_cache_retention" = (chatForm req).promptCacheRetention := by
    rw [optStr, hGet]
    cases hKey : req.promptCacheKey <;> simp [entries, chatForm, hKey]
  refine ⟨(requestOf v ([], []) [] none).nativeRequest, ?_⟩
  simp only [requestOf, hModel, hStream, hUsage, hTokens, hTemperature, hTopP, hStop, hEffort, hKey,
    hRetention, Option.getD_some]
  rfl

/-- What a request is read as, when it has been sent in the form of the dialect. -/
theorem parseBody_emitBody {req : ChatRequest} (sendable : Sendable req)
    (fresh : req.nativeRequest = none) (o : EmitOptions) :
    ∃ nativeRequest, parseBody (emitBody req o) = .ok { hop (chatForm req) o with
      temperature := req.temperature.map Number.toFloat
      topP := req.topP.map Number.toFloat
      nativeRequest } := by
  have hGet := get_obj_fieldsOf (entries req o)
  rw [emitBody_eq fresh o]
  have hMessages : ((optArr (obj (fieldsOf (entries req o))) "messages").getD []).foldlM addMessage
      ([], []) = .ok (systemForm req, req.messages.flatMap turnForm) := by
    rw [optArr, hGet "messages"]
    exact addMessages_emitMessages sendable
  have hTools : ((optArr (obj (fieldsOf (entries req o))) "tools").getD []).mapM parseTool =
      .ok (chatForm req).tools := by
    rw [optArr, hGet, chatForm, ← parseTools_emitTools]
    cases hTools : req.tools <;> simp [entries, hTools]
  have hChoice : ((obj (fieldsOf (entries req o))).get "tool_choice").mapM parseToolChoice =
      .ok req.toolChoice := by
    rw [hGet]
    cases hChoice : req.toolChoice with
    | none =>
        simp [entries, hChoice]
        rfl
    | some choice => simp [entries, hChoice, parseToolChoice_emitToolChoice]
  obtain ⟨nativeRequest, hRequest⟩ := requestOf_entries hGet sendable.maxTokens
  exact ⟨nativeRequest, (parseBody_of hMessages hTools hChoice).trans (congrArg Except.ok hRequest)⟩

theorem kept_emitUserPart {b : ContentBlock} {v : Value} (h : emitUserPart b = some v)
    (depth : Nat) : v.Kept (depth + 2) := by
  cases b with
  | image mediaType data url =>
      obtain ⟨u, -, rfl⟩ := Option.map_eq_some_iff.mp h
      exact kept_obj (by simp [kept_obj])
  | text t | cachedText t ttl =>
      cases h
      exact kept_obj (by simp)
  | _ => cases h

theorem kept_emitMessage (m : Message) (depth : Nat) :
    ∀ v ∈ emitMessage m, v.Kept (depth + 4) := by
  have hCalls : (Value.array (toolCalls m.content)).Kept (depth + 3) := by
    refine kept_array fun v hv => ?_
    obtain ⟨b, -, hb⟩ := List.mem_filterMap.mp hv
    cases b <;> cases hb
    exact kept_obj (by simp [kept_obj])
  have hAssistant : (emitAssistant m).Kept (depth + 4) := by
    refine kept_obj ?_
    split_ifs <;> simp [hCalls]
  have hUser (blocks : List ContentBlock) : (emitUserContent blocks).Kept (depth + 3) := by
    unfold emitUserContent
    split_ifs
    · trivial
    · refine kept_array fun v hv => ?_
      obtain ⟨b, -, hb⟩ := List.mem_filterMap.mp hv
      exact kept_emitUserPart hb depth
  have hSystem : (systemMessage m.text).Kept (depth + 4) := kept_obj (by simp)
  unfold emitMessage
  intro v hv
  cases hRole : m.role with
  | system | developer =>
      simp only [hRole, List.mem_singleton] at hv
      exact hv ▸ hSystem
  | assistant =>
      simp only [hRole, List.mem_singleton] at hv
      exact hv ▸ hAssistant
  | user | tool =>
      simp only [hRole] at hv
      rcases List.mem_append.mp hv with hv | hv
      · obtain ⟨b, -, hb⟩ := List.mem_filterMap.mp hv
        cases b <;> cases hb
        exact kept_obj (by simp)
      · split_ifs at hv
        · cases hv
        · rw [List.mem_singleton.mp hv]
          exact kept_obj (by simp [hUser])

theorem kept_emitTool {t : Tool} {depth : Nat} (h : t.inputSchema.Kept depth) :
    (emitTool t).Kept (depth + 2) := by
  have hFunction : (obj ([("name", .string t.name)] ++
      optField "description" (t.description.map .string) ++ [("parameters", t.inputSchema)] ++
      optField "strict" (t.strict.map .bool))).Kept (depth + 1) := by
    refine kept_obj ?_
    cases t.description <;> cases t.strict <;> simp [optField, h]
  exact kept_obj (by simpa using hFunction)

theorem kept_emitToolChoice (choice : ToolChoice) (depth : Nat) :
    (emitToolChoice choice).Kept (depth + 2) := by
  cases choice with
  | tool name => exact kept_obj (by simp [kept_obj])
  | _ => trivial

/-- What is sent nests no deeper than the next gateway reads. -/
theorem kept_emitBody {req : ChatRequest} (sendable : Sendable req)
    (fresh : req.nativeRequest = none) (o : EmitOptions) : (emitBody req o).Kept maxDepth := by
  have hMessages : (Value.array (emitMessages req)).Kept (maxDepth - 1) := by
    refine kept_array fun v hv => ?_
    rcases List.mem_append.mp hv with hv | hv
    · cases hSystem : req.system with
      | none =>
          rw [hSystem] at hv
          cases hv
      | some system =>
          rw [hSystem] at hv
          rw [List.mem_singleton.mp hv]
          exact kept_obj (by simp)
    · obtain ⟨m, -, hv⟩ := List.mem_flatMap.mp hv
      exact kept_emitMessage m (maxDepth - 6) v hv
  have hTools : (Value.array (req.tools.map emitTool)).Kept (maxDepth - 1) := by
    refine kept_array fun v hv => ?_
    obtain ⟨t, ht, rfl⟩ := List.mem_map.mp hv
    exact kept_emitTool (sendable.schemas t ht)
  have hChoice (choice : ToolChoice) : (emitToolChoice choice).Kept (maxDepth - 1) :=
    kept_emitToolChoice choice (maxDepth - 3)
  have hStop : (Value.array (req.stop.map .string)).Kept (maxDepth - 1) := by
    refine kept_array fun v hv => ?_
    obtain ⟨s, -, rfl⟩ := List.mem_map.mp hv
    trivial
  have hUsage : (obj [("include_usage", .bool true)]).Kept (maxDepth - 1) := kept_obj (by simp)
  have hTokens : ∀ n ∈ req.maxTokens, (Value.nat n).Kept (maxDepth - 1) := fun n hn =>
    (sendable.maxTokens n hn).trans (by decide)
  have hTemperature : ∀ n ∈ req.temperature, (Value.number n).Kept (maxDepth - 1) :=
    sendable.temperature
  have hTopP : ∀ n ∈ req.topP, (Value.number n).Kept (maxDepth - 1) := sendable.topP
  have hEntries : ∀ e ∈ entries req o, ∀ v ∈ e.2, v.Kept (maxDepth - 1) := by
    simpa +contextual [entries, hMessages, hTools, hChoice, hStop, hUsage] using
      ⟨hTokens, hTemperature, hTopP⟩
  rw [emitBody_eq fresh]
  exact kept_obj_fieldsOf hEntries

theorem valueOf_toFloat (n : Option Number) : valueOf (n.map Number.toFloat) = valueOf n := by
  cases n with
  | none => rfl
  | some n => exact asF64_toFloat n

/-- A turn with a result and an image, after a call. -/
def toolTurns : ChatRequest where
  model := "small".toList
  system := some [.text "Be brief.".toList]
  messages := [
    ⟨.assistant, [.thinking "hm".toList none, .toolUse ['c'] "lookup".toList (obj [("q", .nat 1)])]⟩,
    ⟨.user, [.toolResult ['c'] [.text "found".toList] true, .text "this?".toList,
      .image none (some "AAAA".toList) none]⟩]
  tools := [⟨"lookup".toList, none, obj [("type", .string "object".toList)], none, none⟩]
  maxTokens := some 64

end Gateway.Wire.OpenaiChat
