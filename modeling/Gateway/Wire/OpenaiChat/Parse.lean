import Gateway.Wire.DataUrl
import Gateway.Wire.OpenaiChat.Response

/-! The Chat Completions request body, read into the intermediate representation.
The body itself is kept beside what is read of it. -/
namespace Gateway.Wire.OpenaiChat

open Json

def parseUserContent : Option Value → List ContentBlock
  | some (.string s) => [.text s]
  | some (.array parts) => parts.filterMap parseUserPart
  | _ => []

/-- What the model thought stands before what it said. -/
def parseAssistant (m : Value) : List ContentBlock :=
  (nonEmpty (optStr m "reasoning_content")).map (.thinking · none) ++ messageBlocks m

def parseStop : Option Value → List Str
  | some (.string s) => [s]
  | some (.array items) => strVec (some (.array items))
  | _ => []

def parseToolChoice : Value → Except WireError ToolChoice
  | .string s =>
      if s = "auto".toList then .ok .auto
      else if s = "none".toList then .ok .none
      else if s = "required".toList then .ok .required
      else .error (.invalidField "tool_choice".toList ("unknown ".toList ++ s))
  | v@(.object _) =>
      .ok (.tool ((((v.get "function").bind (optStr · "name")).or (optStr v "name")).getD []))
  | _ => .error (.invalidField "tool_choice".toList "expected string or object".toList)

/-- The next message, after the instructions and the turns there are. -/
def addMessage (read : List ContentBlock × List Message) (m : Value) :
    Except WireError (List ContentBlock × List Message) :=
  let content := parseUserContent (m.get "content")
  match optStr m "role" with
  | none => .error (.missingField "messages[].role".toList)
  | some role =>
      if role = "system".toList ∨ role = "developer".toList then .ok (read.1 ++ content, read.2)
      else if role = "user".toList then .ok (read.1, read.2 ++ [⟨.user, content⟩])
      else if role = "assistant".toList then
        .ok (read.1, read.2 ++ [⟨.assistant, parseAssistant m⟩])
      else if role = "tool".toList then
        .ok (read.1, read.2 ++
          [⟨.tool, [.toolResult ((optStr m "tool_call_id").getD []) content false]⟩])
      else .error (.invalidField "messages[].role".toList ("unknown ".toList ++ role))

/-- A function, under a member of its own or without one. -/
def parseTool (t : Value) : Except WireError Tool := do
  let f := (t.get "function").getD t
  let name ← reqStr f "name"
  return {
    name
    description := optStr f "description"
    inputSchema := (f.get "parameters").getD (obj [])
    strict := (f.get "strict").bind Value.asBool
    anthropicCacheControl := none }

/-- What stands beside the conversation. -/
def requestOf (v : Value) (read : List ContentBlock × List Message) (tools : List Tool)
    (toolChoice : Option ToolChoice) : ChatRequest where
  model := (optStr v "model").getD []
  stream := optBool v "stream"
  includeUsage :=
    (((v.get "stream_options").bind (·.get "include_usage")).bind Value.asBool).getD false
  maxTokens := (optU32 v "max_tokens").or (optU32 v "max_completion_tokens")
  temperature := optF32 v "temperature"
  topP := optF32 v "top_p"
  stop := parseStop (v.get "stop")
  messages := read.2
  system := if read.1.isEmpty then none else some read.1
  tools
  toolChoice
  reasoning := (optStr v "reasoning_effort").map fun effort => { effort := some effort }
  promptCacheKey := optStr v "prompt_cache_key"
  promptCacheRetention := optStr v "prompt_cache_retention"
  nativeRequest := match v with
    | .object fields => some fields
    | _ => none

def parseBody (v : Value) : Except WireError ChatRequest :=
  match v with
  | .object _ => do
      let read ← ((optArr v "messages").getD []).foldlM addMessage ([], [])
      let tools ← ((optArr v "tools").getD []).mapM parseTool
      let toolChoice ← (v.get "tool_choice").mapM parseToolChoice
      return requestOf v read tools toolChoice
  | _ => .error (.invalidRequest "body is not a JSON object".toList)

def parseRequest (bytes : List UInt8) : Except WireError ChatRequest :=
  match fromSlice bytes with
  | none => .error .json
  | some v => parseBody v

end Gateway.Wire.OpenaiChat
