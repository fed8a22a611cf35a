import Gateway.Wire.OpenaiChat

/-! The Chat Completions request a normalized request becomes. -/
namespace Gateway.Wire.OpenaiChat

open Json

/-- A member that is there only when it has a value. -/
def optField (key : String) (v : Option Value) : List (String × Value) :=
  (v.map fun v => (key, v)).toList

theorem notMem_optField {name key : String} (h : name ≠ key) (v : Option Value) :
    name ∉ (optField key v).map Prod.fst := by
  cases v <;> simp [optField, h]

def emitToolChoice : ToolChoice → Value
  | .auto => .string "auto".toList
  | .none => .string "none".toList
  | .required => .string "required".toList
  | .tool name => obj [("type", .string "function".toList),
      ("function", obj [("name", .string name)])]

/-! ### Messages -/

/-- A part of a user message; a block with no counterpart leaves none. -/
def emitUserPart : ContentBlock → Option Value
  | .text t | .cachedText t _ => some (obj [("type", .string "text".toList), ("text", .string t)])
  | .image mediaType data url =>
      let u := match url, data with
        | some url, _ => some url
        | none, some data => some (buildDataUrl mediaType data)
        | none, none => none
      u.map fun u => obj [("type", .string "image_url".toList),
        ("image_url", obj [("url", .string u)])]
  | _ => none

/-- A plain string when all is text, else a list of parts. -/
def emitUserContent (blocks : List ContentBlock) : Value :=
  if blocks.all ContentBlock.isText then .string (joinText blocks)
  else .array (blocks.filterMap emitUserPart)

def toolCall (id name : Str) (input : Value) : Value :=
  obj [("id", .string id), ("type", .string "function".toList),
    ("function", obj [("name", .string name), ("arguments", .string input.render)])]

/-- The calls of an assistant message, in order. -/
def toolCalls (blocks : List ContentBlock) : List Value :=
  blocks.filterMap fun
    | .toolUse id name input => some (toolCall id name input)
    | _ => none

def thinkingText (blocks : List ContentBlock) : Str :=
  blocks.flatMap fun
    | .thinking t _ => t
    | _ => []

def emitAssistant (m : Message) : Value :=
  let text := m.text
  let thinking := thinkingText m.content
  let calls := toolCalls m.content
  obj ([("role", .string "assistant".toList)] ++
    (if thinking.isEmpty then [] else [("reasoning_content", .string thinking)]) ++
    (if calls.isEmpty then [("content", .string text)]
      else [("content", if text.isEmpty then .null else .string text),
        ("tool_calls", .array calls)]))

def toolMessage (toolUseId : Str) (content : List ContentBlock) : Value :=
  obj [("role", .string "tool".toList), ("tool_call_id", .string toolUseId),
    ("content", .string (joinText content))]

/-- The results of a turn, each a message of its own. -/
def toolMessages (blocks : List ContentBlock) : List Value :=
  blocks.filterMap fun
    | .toolResult id content _ => some (toolMessage id content)
    | _ => none

def systemMessage (text : Str) : Value :=
  obj [("role", .string "system".toList), ("content", .string text)]

def emitMessage (m : Message) : List Value :=
  match m.role with
  | .system | .developer => [systemMessage m.text]
  | .assistant => [emitAssistant m]
  | .user | .tool =>
      let others := m.content.filter (fun b => !b.isToolResult)
      toolMessages m.content ++
        (if others.isEmpty then []
          else [obj [("role", .string "user".toList), ("content", emitUserContent others)]])

def emitMessages (req : ChatRequest) : List Value :=
  (match req.system with
    | some system => [systemMessage (joinText system)]
    | none => []) ++ req.messages.flatMap emitMessage

/-! ### The request -/

/-- The client's own body, with the deployment's model and the streaming the
gateway asks for. -/
def emitNativeBody (native : List (Str × Value)) (model : Str) (opts : EmitOptions) : Value :=
  let body := insertField "model".toList (.string model) native
  let body :=
    if opts.stream then
      let body := insertField "stream".toList (.bool true) body
      let options := match lookupField "stream_options".toList body with
        | some (.object options) =>
            .object (insertField "include_usage".toList (.bool true) options)
        | _ => obj [("include_usage", .bool true)]
      insertField "stream_options".toList options body
    else body.filter (fun f => f.1 ≠ "stream".toList ∧ f.1 ≠ "stream_options".toList)
  .object (match opts.forceReasoningEffort with
    | some effort => insertField "reasoning_effort".toList (.string effort) body
    | none => body)

def emitTool (t : Tool) : Value :=
  obj [("type", .string "function".toList), ("function", obj ([("name", .string t.name)] ++
    optField "description" (t.description.map .string) ++ [("parameters", t.inputSchema)] ++
    optField "strict" (t.strict.map .bool)))]

/-- A cache key is always accompanied by a retention. -/
def cacheFields (req : ChatRequest) : List (String × Value) :=
  match req.promptCacheKey with
  | none => []
  | some key => [("prompt_cache_key", .string key),
      ("prompt_cache_retention", .string (req.promptCacheRetention.getD "24h".toList))]

def emitBody (req : ChatRequest) (opts : EmitOptions) : Value :=
  let model := if opts.targetModel.isEmpty then req.model else opts.targetModel
  match req.nativeRequest with
  | some native => emitNativeBody native model opts
  | none =>
      let effort := opts.forceReasoningEffort.or (req.reasoning.bind Reasoning.effort)
      obj ([("model", .string model), ("messages", .array (emitMessages req))] ++
        (if req.tools.isEmpty then [] else [("tools", .array (req.tools.map emitTool))]) ++
        optField "tool_choice" (req.toolChoice.map emitToolChoice) ++
        optField "max_tokens" (req.maxTokens.map .nat) ++
        optField "temperature" (req.temperature.map .number) ++
        optField "top_p" (req.topP.map .number) ++
        (if req.stop.isEmpty then [] else [("stop", .array (req.stop.map .string))]) ++
        (if opts.stream then [("stream", .bool true),
          ("stream_options", obj [("include_usage", .bool true)])] else []) ++
        optField "reasoning_effort" (effort.map .string) ++ cacheFields req)

/-- The body's text, and the headers it goes with. -/
def emitRequest (req : ChatRequest) (opts : EmitOptions) : Str × List (String × String) :=
  ((emitBody req opts).render, [("content-type", "application/json")])

end Gateway.Wire.OpenaiChat
