import Gateway.Wire.Anthropic.Request
import Gateway.Wire.Said

/-! The Messages format as it is read: content, which is a string or a list of
typed blocks, then the request and the response that hold it. A block that the
intermediate representation has no kind for is carriedBlock as it came. -/
namespace Gateway.Wire.Anthropic

open Json

/-! ### Content -/

/-- The block as it came, its type put in again. -/
def carriedBlock (kind : Str) : Value → ContentBlock
  | .object fields =>
      .native "anthropic".toList (.object (insertField "type".toList (.string kind) fields))
  | b => .native "anthropic".toList b

/-- A block of a type, with the content that is read in it. -/
def blockOf (b : Value) (kind : Str) (content : Option (Except WireError (List ContentBlock))) :
    Except WireError ContentBlock :=
  if kind = "text".toList then
    let text := (optStr b "text").getD []
    match b.get "cache_control" with
    | some control =>
        if optStr control "type" = some "ephemeral".toList then
          .ok (.cachedText text (optStr control "ttl"))
        else .ok (.native "anthropic".toList b)
    | none => .ok (.text text)
  else if kind = "image".toList then
    let src := (b.get "source").getD .null
    if optStr src "type" = some "url".toList then .ok (.image none none (optStr src "url"))
    else .ok (.image (optStr src "media_type") (optStr src "data") none)
  else if kind = "tool_use".toList then
    .ok (.toolUse ((optStr b "id").getD []) ((optStr b "name").getD [])
      ((b.get "input").getD (obj [])))
  else if kind = "tool_result".toList then
    (content.getD (.ok [])).map fun content =>
      .toolResult ((optStr b "tool_use_id").getD []) content (optBool b "is_error")
  else if kind = "thinking".toList then
    .ok (.thinking ((optStr b "thinking").getD []) (optStr b "signature"))
  else .ok (carriedBlock kind b)

def readBlock (b : Value) (content : Option (Except WireError (List ContentBlock))) :
    Except WireError ContentBlock :=
  -- a breakpoint that only text has a place for
  if (b.get "cache_control").isSome ∧ optStr b "type" ≠ some "text".toList then
    .ok (.native "anthropic".toList b)
  else match optStr b "type" with
    | some kind => blockOf b kind content
    | none => .error (.missingField "content[].type".toList)

mutual
def parseContent : Value → Except WireError (List ContentBlock)
  | .string s => .ok [.text s]
  | .array items => parseBlocks items
  | .null => .ok []
  | _ => .error (.invalidField "content".toList "expected string or array".toList)

def parseBlocks : List Value → Except WireError (List ContentBlock)
  | [] => .ok []
  | b :: rest => do
      let block ← parseBlock b
      let blocks ← parseBlocks rest
      return block :: blocks

def parseBlock : Value → Except WireError ContentBlock
  | .object fields => readBlock (.object fields) (contentMember fields)
  | b => readBlock b none

/-- The member named `content`, read. -/
def contentMember : List (Str × Value) → Option (Except WireError (List ContentBlock))
  | [] => none
  | (key, v) :: rest => if key = "content".toList then some (parseContent v) else contentMember rest
end

theorem contentMember_eq (fields : List (Str × Value)) :
    contentMember fields = (lookupField "content".toList fields).map parseContent := by
  induction fields with
  | nil => rfl
  | cons f fields ih =>
      obtain ⟨key, v⟩ := f
      rw [contentMember, lookupField, ih]
      split_ifs <;> rfl

theorem parseBlock_eq (b : Value) : parseBlock b = readBlock b ((b.get "content").map parseContent) := by
  cases b with
  | object fields => rw [parseBlock, contentMember_eq, Value.get]
  | _ => rfl

/-- A block of an answer is read as it was written. -/
theorem parseBlock_emitBlock {b : ContentBlock} (spoken : b.isSpoken = true) :
    parseBlock (emitBlock b) = .ok b := by
  rw [parseBlock_eq]
  cases b with
  | text t => simp [emitBlock, readBlock, blockOf]
  | cachedText t ttl => cases ttl <;> simp [emitBlock, readBlock, blockOf]
  | toolUse id name input => simp [emitBlock, readBlock, blockOf]
  | thinking t signature => cases signature <;> simp [emitBlock, readBlock, blockOf]
  | _ => cases spoken

/-! ### Requests -/

def messageContent (m : Value) : Except WireError (List ContentBlock) :=
  ((m.get "content").map parseContent).getD (.ok [])

def messageRole (m : Value) : Except WireError Role :=
  match optStr m "role" with
  | none => .error (.missingField "messages[].role".toList)
  | some role =>
      if role = "user".toList then .ok .user
      else if role = "assistant".toList then .ok .assistant
      else if role = "system".toList then .ok .system
      else .error (.invalidField "messages[].role".toList ("unknown ".toList ++ role))

/-- The next message. A system turn joins the instructions. -/
def addMessage (req : ChatRequest) (m : Value) : Except WireError ChatRequest := do
  let content ← messageContent m
  match ← messageRole m with
  | .system => return { req with system := some (req.system.getD [] ++ content) }
  | role => return { req with messages := req.messages ++ [⟨role, content⟩] }

def parseTool (t : Value) : Except WireError Tool := do
  let name ← reqStr t "name"
  return {
    name
    description := optStr t "description"
    inputSchema := (t.get "input_schema").getD .null
    strict := none
    anthropicCacheControl := t.get "cache_control" }

def parseToolChoice (v : Value) : Except WireError ToolChoice :=
  match optStr v "type" with
  | none => .error (.invalidField "tool_choice.type".toList "unknown".toList)
  | some kind =>
      if kind = "auto".toList then .ok .auto
      else if kind = "any".toList then .ok .required
      else if kind = "none".toList then .ok .none
      else if kind = "tool".toList then .ok (.tool ((optStr v "name").getD []))
      else .error (.invalidField "tool_choice.type".toList "unknown".toList)

def parseThinking (v : Value) : Option Reasoning :=
  if optStr v "type" = some "disabled".toList then none
  else some { budgetTokens := optU32 v "budget_tokens" }

/-- What stands beside the conversation. -/
def requestOf (v : Value) (system : Option (List ContentBlock)) : ChatRequest where
  model := (optStr v "model").getD []
  stream := optBool v "stream"
  maxTokens := optU32 v "max_tokens"
  temperature := optF32 v "temperature"
  topP := optF32 v "top_p"
  stop := strVec (v.get "stop_sequences")
  system
  reasoning := (v.get "thinking").bind parseThinking
  metadata := match v.get "metadata" with
    | some (.object fields) => fields
    | _ => []
  contextManagement := v.get "context_management"
  outputConfig := v.get "output_config"

def parseBody (v : Value) : Except WireError ChatRequest :=
  match v with
  | .object _ => do
      let system ← (v.get "system").mapM parseContent
      let req ← ((optArr v "messages").getD []).foldlM addMessage (requestOf v system)
      let tools ← ((optArr v "tools").getD []).mapM parseTool
      let toolChoice ← (v.get "tool_choice").mapM parseToolChoice
      return { req with tools, toolChoice }
  | _ => .error (.invalidRequest "body is not a JSON object".toList)

def parseRequest (bytes : List UInt8) : Except WireError ChatRequest :=
  match fromSlice bytes with
  | none => .error .json
  | some v => parseBody v

/-! ### Responses -/

def responseOf (v : Value) (content : List ContentBlock) : ChatResponse where
  id := (optStr v "id").getD []
  model := (optStr v "model").getD []
  content
  stopReason := parseStopReason (optStr v "stop_reason")
  usage := parseUsage (v.get "usage")

def parseResponse (bytes : List UInt8) : Except WireError ChatResponse :=
  match fromSlice bytes with
  | none => .error .json
  | some v => (((v.get "content").map parseContent).getD (.ok [])).map (responseOf v)

end Gateway.Wire.Anthropic
