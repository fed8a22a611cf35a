import Gateway.Wire.OpenaiChat.Request
import Gateway.Wire.OpenaiResponses.Request

/-! The Responses request a normalized request becomes. The client's own items
are replayed as they came, and the tools are written anew. -/
namespace Gateway.Wire.OpenaiResponses

open Json
open OpenaiChat (optField notMem_optField)

/-! ### Items -/

/-- A part of text; one with a cache breakpoint says so. -/
def textPart (kind : String) (text : Str) (cached : Bool) : Value :=
  obj ([("type", .string kind.toList), ("text", .string text)] ++
    if cached then [("prompt_cache_breakpoint", obj [("mode", .string "explicit".toList)])] else [])

def responseTextParts (blocks : List ContentBlock) : List Value :=
  blocks.filterMap fun
    | .text t => some (textPart "input_text" t false)
    | .cachedText t _ => some (textPart "input_text" t true)
    | _ => none

def inputMessage (role : String) (parts : List Value) : Value :=
  obj [("type", .string "message".toList), ("role", .string role.toList), ("content", .array parts)]

def functionCallOutput (toolUseId : Str) (content : List ContentBlock) : Value :=
  obj [("type", .string "function_call_output".toList), ("call_id", .string toolUseId),
    ("output", .string (joinText content))]

def functionCall (id name : Str) (input : Value) : Value :=
  obj [("type", .string "function_call".toList), ("call_id", .string id), ("name", .string name),
    ("arguments", .string input.render)]

/-- The results of a turn, each an item of its own. -/
def outputItemsOf (blocks : List ContentBlock) : List Value :=
  blocks.filterMap fun
    | .toolResult id content _ => some (functionCallOutput id content)
    | _ => none

def userPart : ContentBlock → Option Value
  | .text t => some (textPart "input_text" t false)
  | .cachedText t _ => some (textPart "input_text" t true)
  | .image mediaType data url =>
      let u := match url, data with
        | some url, _ => some url
        | none, some data => some (buildDataUrl mediaType data)
        | none, none => none
      u.map fun u => obj [("type", .string "input_image".toList), ("image_url", .string u)]
  | _ => none

def flushMessage (role : String) (parts : List Value) : List Value :=
  if parts.isEmpty then [] else [inputMessage role parts]

/-- The items of an assistant turn. Text is flushed before a call, so that the
order is kept; `parts` holds the text not yet flushed. -/
def assistantItems (parts : List Value) : List ContentBlock → List Value
  | [] => flushMessage "assistant" parts
  | .text t :: rest => assistantItems (parts ++ [textPart "output_text" t false]) rest
  | .cachedText t _ :: rest => assistantItems (parts ++ [textPart "output_text" t true]) rest
  | .toolUse id name input :: rest =>
      flushMessage "assistant" parts ++ functionCall id name input :: assistantItems [] rest
  | _ :: rest => assistantItems parts rest

def emitInputItems (m : Message) : List Value :=
  match m.role with
  | .system => [inputMessage "system" (responseTextParts m.content)]
  | .developer => [inputMessage "developer" (responseTextParts m.content)]
  | .user => outputItemsOf m.content ++ flushMessage "user" (m.content.filterMap userPart)
  | .tool => outputItemsOf m.content
  | .assistant => assistantItems [] m.content

/-! ### The request -/

def emitTool (t : Tool) : Value :=
  obj ([("type", .string "function".toList), ("name", .string t.name)] ++
    optField "description" (t.description.map .string) ++ [("parameters", t.inputSchema)] ++
    optField "strict" (t.strict.map .bool))

def emitToolChoice : ToolChoice → Value
  | .auto => .string "auto".toList
  | .none => .string "none".toList
  | .required => .string "required".toList
  | .tool name => obj [("type", .string "function".toList), ("name", .string name)]

def isCached : ContentBlock → Bool
  | .cachedText .. => true
  | _ => false

/-- A system prompt with a cache breakpoint is an item, as the instructions are
one string. -/
def markedSystem (req : ChatRequest) : Bool := (req.system.getD []).any isCached

def inputItems (req : ChatRequest) : List Value :=
  match req.nativeInput with
  | some items => items
  | none =>
      (if markedSystem req then [inputMessage "developer" (responseTextParts (req.system.getD []))]
        else []) ++ req.messages.flatMap emitInputItems

def cacheOptions (req : ChatRequest) : Option Value :=
  req.promptCacheOptions.or
    (if markedSystem req || req.messages.any (·.content.any isCached) then
      some (obj [("mode", .string "explicit".toList)]) else none)

/-- The members up to the tools. -/
def conversation (req : ChatRequest) (opts : EmitOptions) : List (String × Value) :=
  [("model", .string (if opts.targetModel.isEmpty then req.model else opts.targetModel)),
      -- a turn is not kept by the upstream
      ("store", .bool false)] ++
    optField "instructions" (if markedSystem req then none
      else req.system.map fun system => .string (joinText system)) ++
    [("input", .array (inputItems req))] ++ optField "prompt_cache_options" (cacheOptions req)

/-- The members after the tools. -/
def settings (req : ChatRequest) (opts : EmitOptions) : List (String × Value) :=
  optField "temperature" (req.temperature.map .number) ++
    optField "top_p" (req.topP.map .number) ++
    (if opts.stream then [("stream", .bool true)] else []) ++
    optField "reasoning" ((opts.forceReasoningEffort.or (req.reasoning.bind Reasoning.effort)).map
      fun effort => obj [("effort", .string effort)]) ++ OpenaiChat.cacheFields req

def emitBody (req : ChatRequest) (opts : EmitOptions) : Value :=
  obj (conversation req opts ++
    (if req.tools.isEmpty then [] else [("tools", .array (req.tools.map emitTool))]) ++
    optField "tool_choice" (req.toolChoice.map emitToolChoice) ++ settings req opts)

/-- The body's text, and the headers it goes with. -/
def emitRequest (req : ChatRequest) (opts : EmitOptions) : Str × List (String × String) :=
  ((emitBody req opts).render, [("content-type", "application/json")])

/-! ### Members of the body -/

theorem notMem_settings {name : String} (h : name ∈ ["input", "tools", "tool_choice"])
    (req : ChatRequest) (opts : EmitOptions) : name ∉ (settings req opts).map Prod.fst := by
  have hOther (key : String) (hKey : key ∉ ["input", "tools", "tool_choice"]) : name ≠ key := by
    rintro rfl
    exact hKey h
  have hCache : name ∉ (OpenaiChat.cacheFields req).map Prod.fst := by
    unfold OpenaiChat.cacheFields
    split
    · exact List.not_mem_nil
    · simp [hOther]
  have hStream : name ∉ (if opts.stream then [("stream", Value.bool true)] else []).map Prod.fst := by
    split_ifs <;> simp [hOther]
  simp only [settings, List.map_append, List.mem_append, not_or]
  exact ⟨⟨⟨⟨notMem_optField (hOther _ (by decide)) _, notMem_optField (hOther _ (by decide)) _⟩,
    hStream⟩, notMem_optField (hOther _ (by decide)) _⟩, hCache⟩

theorem notMem_conversation {name : String} (h : name ∈ ["tools", "tool_choice"])
    (req : ChatRequest) (opts : EmitOptions) : name ∉ (conversation req opts).map Prod.fst := by
  have hOther (key : String) (hKey : key ∉ ["tools", "tool_choice"]) : name ≠ key := by
    rintro rfl
    exact hKey h
  simp only [conversation, List.map_append, List.mem_append, not_or]
  exact ⟨⟨⟨by simp [hOther], notMem_optField (hOther _ (by decide)) _⟩, by simp [hOther]⟩,
    notMem_optField (hOther _ (by decide)) _⟩

theorem get_obj_of_notMem {fields : List (String × Value)} {key : String}
    (absent : key ∉ fields.map Prod.fst) : (obj fields).get key = none := by
  rw [← List.nil_append fields, get_obj_append absent]
  rfl

theorem get_input_emitBody (req : ChatRequest) (opts : EmitOptions) :
    (emitBody req opts).get "input" = some (.array (inputItems req)) := by
  have hTools : "input" ∉ (if req.tools.isEmpty then []
      else [("tools", Value.array (req.tools.map emitTool))]).map Prod.fst := by
    split_ifs <;> simp
  rw [emitBody, get_obj_append (notMem_settings (by simp) req opts),
    get_obj_append (notMem_optField (by decide) _), get_obj_append hTools, conversation,
    get_obj_append (notMem_optField (by decide) _), get_obj, List.foldl_append]
  rfl

theorem optArr_tools_emitBody (req : ChatRequest) (opts : EmitOptions) :
    (optArr (emitBody req opts) "tools").getD [] = req.tools.map emitTool := by
  rw [optArr, emitBody, get_obj_append (notMem_settings (by simp) req opts),
    get_obj_append (notMem_optField (by decide) _)]
  split_ifs with hEmpty
  · rw [List.append_nil, get_obj_of_notMem (notMem_conversation (by simp) req opts),
      List.isEmpty_iff.mp hEmpty]
    rfl
  · rw [get_obj, List.foldl_append]
    rfl

theorem get_toolChoice_emitBody (req : ChatRequest) (opts : EmitOptions) :
    (emitBody req opts).get "tool_choice" = req.toolChoice.map emitToolChoice := by
  have hTools : "tool_choice" ∉ (if req.tools.isEmpty then []
      else [("tools", Value.array (req.tools.map emitTool))]).map Prod.fst := by
    split_ifs <;> simp
  rw [emitBody, get_obj_append (notMem_settings (by simp) req opts)]
  cases req.toolChoice with
  | none =>
      rw [Option.map_none, optField, Option.map_none, Option.toList_none, List.append_nil,
        get_obj_append hTools, get_obj_of_notMem (notMem_conversation (by simp) req opts)]
  | some choice =>
      rw [get_obj, List.foldl_append]
      rfl

end Gateway.Wire.OpenaiResponses
