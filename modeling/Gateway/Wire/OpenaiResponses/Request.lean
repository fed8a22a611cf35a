import Gateway.Wire.OpenaiResponses

/-! The Responses request body, read into the intermediate representation.
Its `input` is a flat list of items, open to tool vocabularies of the client's
own, which are told apart by their shape. -/
namespace Gateway.Wire.OpenaiResponses

open Json

def isToolCall (t : Str) : Bool :=
  t ∈ ["function_call", "custom_tool_call", "local_shell_call", "computer_call"].map String.toList

def isToolOutput (t : Str) : Bool :=
  t ∈ ["function_call_output", "custom_tool_call_output", "local_shell_call_output"].map
    String.toList

def hasCallId (item : Value) : Bool :=
  (optStr item "call_id").isSome || (optStr item "tool_call_id").isSome

/-- The id linking a call to its result, under any of its spellings. -/
def callIdOf (item : Value) : Str :=
  (((optStr item "call_id").or (optStr item "tool_call_id")).or (optStr item "id")).getD []

def parseArguments : Option Str → Value
  | some s => if s.isEmpty then obj [] else (fromStr s).getD (.string s)
  | none => obj []

def toolCallMessage (item : Value) : Message :=
  let name := ((optStr item "name").or (optStr item "type")).getD []
  let input := match (optStr item "arguments").or (optStr item "input") with
    | some s => parseArguments (some s)
    | none => match item.get "action" with
      | some a => a
      | none => parseArguments none
  ⟨.assistant, [.toolUse (callIdOf item) name input]⟩

def toolResultMessage (item : Value) (text : Str) : Message :=
  ⟨.tool, [.toolResult (callIdOf item) [.text text] false]⟩

/-- One part of a message's content; parts of other types are skipped. -/
def parsePart (p : Value) : Option ContentBlock :=
  match optStr p "type" with
  | none => none
  | some kind =>
      if kind = "input_text".toList ∨ kind = "output_text".toList ∨ kind = "text".toList then
        let text := (optStr p "text").getD []
        if (p.get "prompt_cache_breakpoint").bind (optStr · "mode") = some "explicit".toList then
          some (.cachedText text none)
        else some (.text text)
      else if kind = "input_image".toList then
        let url := (optStr p "image_url").getD []
        match parseDataUrl url with
        | some (mediaType, data) => some (.image (some mediaType) (some data) none)
        | none => some (.image none none (some url))
      else none

def parseContentParts : Option Value → List ContentBlock
  | some (.string s) => [.text s]
  | some (.array parts) => parts.filterMap parsePart
  | _ => []

/-- The text of a message-shaped item. -/
def joinParts (item : Value) : Str := joinText (parseContentParts (item.get "content"))

def outputText : Option Value → Str
  | some (.string s) => s
  | some (.array parts) => (parts.filterMap (optStr · "text")).flatten
  | _ => []

def messageRole : Option Str → Role
  | none => .user
  | some r =>
      if r = "assistant".toList then .assistant
      else if r = "system".toList then .system
      else if r = "developer".toList then .developer
      else .user

/-- A `message` item; a tool result may come as one. -/
def parseMessageItem (item : Value) : Message :=
  if optStr item "role" = some "tool".toList then toolResultMessage item (joinParts item)
  else ⟨messageRole (optStr item "role"), parseContentParts (item.get "content")⟩

/-- The messages one item adds. -/
def parseInputItem (item : Value) : List Message :=
  let result := toolResultMessage item (outputText (item.get "output"))
  match optStr item "type" with
  | none => [parseMessageItem item]
  | some t =>
      if t = "message".toList then [parseMessageItem item]
      else if isToolCall t then [toolCallMessage item]
      -- the one item that carries both halves of an exchange
      else if t = "mcp_call".toList then
        toolCallMessage item :: (if (item.get "output").isSome then [result] else [])
      else if isToolOutput t then [result]
      else if hasCallId item && (item.get "output").isSome then [result]
      else if hasCallId item && (optStr item "name").isSome then [toolCallMessage item]
      else []

def parseToolChoice : Value → Except WireError ToolChoice
  | .string s =>
      if s = "auto".toList then .ok .auto
      else if s = "none".toList then .ok .none
      else if s = "required".toList then .ok .required
      else .error (.invalidField "tool_choice".toList ("unknown ".toList ++ s))
  | v@(.object _) => .ok (.tool ((optStr v "name").getD []))
  | _ => .error (.invalidField "tool_choice".toList "expected string or object".toList)

/-- A function of the `tools` list; other tools are left out. -/
def parseTool (t : Value) : Except WireError (Option Tool) :=
  if optStr t "type" = some "function".toList then do
    let name ← reqStr t "name"
    return some {
      name
      description := optStr t "description"
      inputSchema := (t.get "parameters").getD (obj [])
      strict := (t.get "strict").bind Value.asBool
      anthropicCacheControl := none }
  else .ok none

def inputMessages : Option Value → List Message
  | some (.string s) => [⟨.user, [.text s]⟩]
  | some (.array items) => items.flatMap parseInputItem
  | _ => []

/-- The request of a body, once its tools and tool choice are read. -/
def requestOf (v : Value) (tools : List Tool) (toolChoice : Option ToolChoice) : ChatRequest where
  model := (optStr v "model").getD []
  stream := optBool v "stream"
  maxTokens := optU32 v "max_output_tokens"
  temperature := optF32 v "temperature"
  topP := optF32 v "top_p"
  system := (optStr v "instructions").map fun instr => [.text instr]
  nativeInput := optArr v "input"
  messages := inputMessages (v.get "input")
  tools := tools
  toolChoice := toolChoice
  reasoning := (v.get "reasoning").map fun r => { effort := optStr r "effort" }
  promptCacheKey := optStr v "prompt_cache_key"
  promptCacheRetention := optStr v "prompt_cache_retention"
  promptCacheOptions := v.get "prompt_cache_options"

def isObject : Value → Bool
  | .object _ => true
  | _ => false

def parseBody (v : Value) : Except WireError ChatRequest :=
  if isObject v then do
    let tools ← ((optArr v "tools").getD []).mapM parseTool
    let toolChoice ← (v.get "tool_choice").mapM parseToolChoice
    return requestOf v (tools.filterMap id) toolChoice
  else .error (.invalidRequest "body is not a JSON object".toList)

/-- A body that parses is read field by field. -/
theorem parseBody_eq_ok {v : Value} {req : ChatRequest} (h : parseBody v = .ok req) :
    ∃ held choice, ((optArr v "tools").getD []).mapM parseTool = .ok held ∧
      (v.get "tool_choice").mapM parseToolChoice = .ok choice ∧
      req = requestOf v (held.filterMap id) choice := by
  unfold parseBody at h
  split_ifs at h
  obtain ⟨held, hHeld, h⟩ := bind_eq_ok.mp h
  obtain ⟨choice, hChoice, h⟩ := bind_eq_ok.mp h
  cases h
  exact ⟨held, choice, hHeld, hChoice, rfl⟩

def parseRequest (bytes : List UInt8) : Except WireError ChatRequest :=
  match fromSlice bytes with
  | some v => parseBody v
  | none => .error .json

end Gateway.Wire.OpenaiResponses
