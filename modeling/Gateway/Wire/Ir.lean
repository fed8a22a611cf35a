import Gateway.Json.Value
import Mathlib.Order.Lattice
import Mathlib.Order.BoundedOrder.Lattice

/-! The intermediate representation: what every wire format is parsed into
and emitted from. -/
namespace Gateway.Wire

open Json

inductive Role where
  | system
  | developer
  | user
  | assistant
  | tool
  deriving DecidableEq, Repr

inductive ContentBlock where
  | text (text : Str)
  | cachedText (text : Str) (ttl : Option Str)
  | image (mediaType : Option Str) (data : Option Str) (url : Option Str)
  | toolUse (id name : Str) (input : Value)
  | toolResult (toolUseId : Str) (content : List ContentBlock) (isError : Bool)
  | thinking (text : Str) (signature : Option Str)
  | native (format : Str) (raw : Value)

structure Message where
  role : Role
  content : List ContentBlock

/-- The text of a block that is text, with or without a cache breakpoint. -/
def ContentBlock.asText : ContentBlock → Option Str
  | .text t | .cachedText t _ => some t
  | _ => none

def ContentBlock.isText (b : ContentBlock) : Bool := b.asText.isSome

def ContentBlock.isToolResult : ContentBlock → Bool
  | .toolResult .. => true
  | _ => false

/-- The text of all text blocks. -/
def joinText (blocks : List ContentBlock) : Str := (blocks.filterMap ContentBlock.asText).flatten

theorem joinText_append (bs cs : List ContentBlock) :
    joinText (bs ++ cs) = joinText bs ++ joinText cs := by
  simp [joinText]

def Message.text (m : Message) : Str := joinText m.content

structure Tool where
  name : Str
  description : Option Str
  inputSchema : Value
  strict : Option Bool
  anthropicCacheControl : Option Value

inductive ToolChoice where
  | auto
  | none
  | required
  | tool (name : Str)

structure Reasoning where
  effort : Option Str := none
  budgetTokens : Option Nat := none

/-- A normalized chat request. Temperatures keep the number they were written
with; `u32` fields hold their value. -/
structure ChatRequest where
  model : Str := []
  messages : List Message := []
  system : Option (List ContentBlock) := none
  tools : List Tool := []
  toolChoice : Option ToolChoice := none
  maxTokens : Option Nat := none
  temperature : Option Number := none
  topP : Option Number := none
  stop : List Str := []
  stream : Bool := false
  nativeInput : Option (List Value) := none
  nativeRequest : Option (List (Str × Value)) := none
  includeUsage : Bool := false
  reasoning : Option Reasoning := none
  metadata : List (Str × Value) := []
  contextManagement : Option Value := none
  outputConfig : Option Value := none
  promptCacheKey : Option Str := none
  promptCacheRetention : Option Str := none
  promptCacheOptions : Option Value := none

/-- The instructions of a request: those with a field of their own, and those
left among the messages. -/
def ChatRequest.effectiveSystem (req : ChatRequest) : List ContentBlock :=
  req.system.getD [] ++ req.messages.flatMap fun m =>
    if m.role = .system ∨ m.role = .developer then m.content else []

inductive StopReason where
  | endTurn
  | maxTokens
  | stopSequence
  | toolUse
  | other (s : Str)
  deriving DecidableEq

def StopReason.asStr : StopReason → Str
  | .endTurn => "end_turn".toList
  | .maxTokens => "max_tokens".toList
  | .stopSequence => "stop_sequence".toList
  | .toolUse => "tool_use".toList
  | .other s => s

/-! ### Usage -/

/-- Token accounting, each count a `u32`. The engine's own times are in
milliseconds. -/
structure Usage where
  inputTokens : Nat := 0
  outputTokens : Nat := 0
  cacheReadTokens : Nat := 0
  cacheWriteTokens : Nat := 0
  reasoningTokens : Nat := 0
  promptMs : Nat := 0
  generationMs : Nat := 0
  deriving DecidableEq, Repr

namespace Usage

/-- Keep the larger count of each field. -/
def merge (u other : Usage) : Usage where
  inputTokens := max u.inputTokens other.inputTokens
  outputTokens := max u.outputTokens other.outputTokens
  cacheReadTokens := max u.cacheReadTokens other.cacheReadTokens
  cacheWriteTokens := max u.cacheWriteTokens other.cacheWriteTokens
  reasoningTokens := max u.reasoningTokens other.reasoningTokens
  promptMs := max u.promptMs other.promptMs
  generationMs := max u.generationMs other.generationMs

def isEmpty (u : Usage) : Bool :=
  u.inputTokens == 0 && u.outputTokens == 0 && u.cacheReadTokens == 0 &&
    u.cacheWriteTokens == 0 && u.reasoningTokens == 0

instance : LE Usage where
  le a b := a.inputTokens ≤ b.inputTokens ∧ a.outputTokens ≤ b.outputTokens ∧
    a.cacheReadTokens ≤ b.cacheReadTokens ∧ a.cacheWriteTokens ≤ b.cacheWriteTokens ∧
    a.reasoningTokens ≤ b.reasoningTokens ∧ a.promptMs ≤ b.promptMs ∧
    a.generationMs ≤ b.generationMs

theorem le_def (a b : Usage) : a ≤ b ↔
    a.inputTokens ≤ b.inputTokens ∧ a.outputTokens ≤ b.outputTokens ∧
    a.cacheReadTokens ≤ b.cacheReadTokens ∧ a.cacheWriteTokens ≤ b.cacheWriteTokens ∧
    a.reasoningTokens ≤ b.reasoningTokens ∧ a.promptMs ≤ b.promptMs ∧
    a.generationMs ≤ b.generationMs := Iff.rfl

instance (a b : Usage) : Decidable (a ≤ b) := decidable_of_iff _ (le_def a b).symm

/-- Reports are ordered field by field, and merging is their join: the order
in which an upstream sends them, and repeats, do not matter. -/
instance : SemilatticeSup Usage where
  le_refl a := by simp [le_def]
  le_trans a b c hab hbc := by
    simp only [le_def] at *
    omega
  le_antisymm a b hab hba := by
    cases a
    cases b
    simp only [le_def, Usage.mk.injEq] at *
    omega
  sup := merge
  le_sup_left a b := by simp [le_def, merge]
  le_sup_right a b := by simp [le_def, merge]
  sup_le a b c hac hbc := by
    simp only [le_def, merge] at *
    omega

instance : OrderBot Usage where
  bot := {}
  bot_le a := by simp [le_def]

theorem merge_eq_sup (a b : Usage) : a.merge b = a ⊔ b := rfl

theorem default_eq_bot : ({} : Usage) = ⊥ := rfl

end Usage

structure ChatResponse where
  id : Str
  model : Str
  content : List ContentBlock
  stopReason : StopReason
  usage : Usage
  promptCacheKey : Option Str := none
  promptCacheRetention : Option Str := none

/-- A normalized streaming event. -/
inductive StreamEvent where
  | messageStart (model : Str)
  | textDelta (text : Str)
  | thinkingDelta (text : Str)
  | toolUseStart (id name : Str)
  | toolUseDelta (partialJson : Str)
  | usageDelta (usage : Usage)
  | done (stopReason : StopReason)
  deriving DecidableEq

def StreamEvent.isDone : StreamEvent → Bool
  | .done _ => true
  | _ => false

inductive WireError where
  | json
  | missingField (field : Str)
  | invalidField (field reason : Str)
  | invalidRequest (message : Str)
  | invalidResponse (message : Str)
  | unsupported (message : Str)
  deriving DecidableEq

structure EmitOptions where
  targetModel : Str
  forceReasoningEffort : Option Str := none
  stream : Bool := false

inductive WireFormat where
  | anthropic
  | openaiChat
  | openaiResponses
  | gemini
  deriving DecidableEq, Repr

end Gateway.Wire
