import Gateway.Wire.Anthropic.Response
import Gateway.Wire.OpenaiChat.Request

/-! The Messages request a normalized request becomes. Instructions travel in a
field of their own. -/
namespace Gateway.Wire.Anthropic

open Json
open OpenaiChat (optField notMem_optField)

def emitContent (content : List ContentBlock) : Value :=
  match content with
  | [.text text] => .string text
  | _ => .array (content.map emitBlock)

def emitMessage (m : Message) : Option Value :=
  let message (role : String) := obj [("role", .string role.toList),
    ("content", emitContent m.content)]
  match m.role with
  | .assistant => some (message "assistant")
  | .user | .tool => some (message "user")
  | .system | .developer => none

/-- A string when it is all plain text, else an array. -/
def emitSystem (blocks : List ContentBlock) : Value :=
  if blocks.all isPlainText then .string (blocks.flatMap plainText)
  else .array (blocks.map emitBlock)

def emitTool (t : Tool) : Value :=
  obj ([("name", .string t.name)] ++ optField "description" (t.description.map .string) ++
    [("input_schema", t.inputSchema)] ++ optField "cache_control" t.anthropicCacheControl)

def emitToolChoice : ToolChoice → Value
  | .auto => obj [("type", .string "auto".toList)]
  | .none => obj [("type", .string "none".toList)]
  | .required => obj [("type", .string "any".toList)]
  | .tool name => obj [("type", .string "tool".toList), ("name", .string name)]

/-- A budget for an effort that another format names. -/
def effortToBudget (effort : Str) : Nat :=
  if effort = "low".toList then 1024 else if effort = "high".toList then 8192 else 4096

def thinkingBudget (req : ChatRequest) (opts : EmitOptions) : Option Nat :=
  (req.reasoning.bind Reasoning.budgetTokens).or
    ((opts.forceReasoningEffort.or (req.reasoning.bind Reasoning.effort)).map effortToBudget)

/-- The members after the conversation. -/
def settings (req : ChatRequest) (opts : EmitOptions) : List (String × Value) :=
  (if req.tools.isEmpty then [] else [("tools", .array (req.tools.map emitTool))]) ++
    optField "tool_choice" (req.toolChoice.map emitToolChoice) ++
    optField "temperature" (req.temperature.map .number) ++
    optField "top_p" (req.topP.map .number) ++
    (if req.stop.isEmpty then [] else [("stop_sequences", .array (req.stop.map .string))]) ++
    (if opts.stream then [("stream", .bool true)] else []) ++
    optField "thinking" ((thinkingBudget req opts).map fun budget =>
      obj [("type", .string "enabled".toList), ("budget_tokens", .nat budget)]) ++
    (if req.metadata.isEmpty then [] else [("metadata", .object req.metadata)]) ++
    optField "context_management" req.contextManagement ++
    optField "output_config" req.outputConfig

theorem notMem_settings {name : String} (h : name ∈ ["system", "messages"]) (req : ChatRequest)
    (opts : EmitOptions) : name ∉ (settings req opts).map Prod.fst := by
  rw [List.mem_pair] at h
  simp only [settings, List.map_append, List.mem_append, not_or]
  rcases h with rfl | rfl <;>
    refine ⟨⟨⟨⟨⟨⟨⟨⟨⟨?_, notMem_optField (by decide) _⟩, notMem_optField (by decide) _⟩,
      notMem_optField (by decide) _⟩, ?_⟩, ?_⟩, notMem_optField (by decide) _⟩, ?_⟩,
      notMem_optField (by decide) _⟩, notMem_optField (by decide) _⟩ <;>
    split_ifs <;> simp

def emitBody (req : ChatRequest) (opts : EmitOptions) : Value :=
  let system := req.effectiveSystem
  obj ([("model", .string (if opts.targetModel.isEmpty then req.model else opts.targetModel)),
      ("max_tokens", .nat (req.maxTokens.getD 4096))] ++
    (if system.isEmpty then [] else [("system", emitSystem system)]) ++
    [("messages", .array (req.messages.filterMap emitMessage))] ++ settings req opts)

/-- The body's text, and the headers it goes with. -/
def emitRequest (req : ChatRequest) (opts : EmitOptions) : Str × List (String × String) :=
  ((emitBody req opts).render,
    [("content-type", "application/json"), ("anthropic-version", "2023-06-01")])

end Gateway.Wire.Anthropic
