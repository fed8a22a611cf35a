import Gateway.Wire.Anthropic.Request
import Gateway.Wire.Gemini.Names

/-! Instructions of a request to a format that carries them outside its
messages. Each is hoisted out of the history once. -/
namespace Gateway.Wire

open Json

def Message.isInstruction (m : Message) : Bool :=
  decide (m.role = .system) || decide (m.role = .developer)

/-- The system prompt, then the instructions in the history. -/
def ChatRequest.instructions (req : ChatRequest) : Str :=
  joinText (req.system.getD []) ++ (req.messages.filter Message.isInstruction).flatMap Message.text

/-- The messages that are part of the conversation. -/
def ChatRequest.turns (req : ChatRequest) : List Message :=
  req.messages.filter fun m => !m.isInstruction

/-- The instructions are text. -/
structure ChatRequest.Textual (req : ChatRequest) : Prop where
  system : ∀ b ∈ req.system.getD [], b.isText = true
  inline : ∀ m ∈ req.messages, m.isInstruction = true → ∀ b ∈ m.content, b.isText = true

theorem joinText_effectiveSystem (req : ChatRequest) :
    joinText req.effectiveSystem = req.instructions := by
  rw [ChatRequest.effectiveSystem, ChatRequest.instructions, joinText_append]
  congr 1
  induction req.messages with
  | nil => rfl
  | cons m rest ih =>
      rw [List.flatMap_cons, joinText_append, ih, List.filter_cons]
      by_cases h : m.role = .system ∨ m.role = .developer
      · have hInstruction : m.isInstruction = true := by simpa [Message.isInstruction] using h
        rw [if_pos h, if_pos hInstruction, List.flatMap_cons, Message.text]
      · have hTurn : ¬ m.isInstruction = true := by simpa [Message.isInstruction] using h
        rw [if_neg h, if_neg hTurn]
        rfl

theorem isText_effectiveSystem {req : ChatRequest} (h : req.Textual) {b : ContentBlock}
    (hb : b ∈ req.effectiveSystem) : b.isText = true := by
  rw [ChatRequest.effectiveSystem, List.mem_append, List.mem_flatMap] at hb
  rcases hb with hSystem | ⟨m, hm, hContent⟩
  · exact h.system b hSystem
  · split_ifs at hContent with hRole
    · exact h.inline m hm (by simpa [Message.isInstruction] using hRole) b hContent
    · exact absurd hContent List.not_mem_nil

/-! ### Bodies -/

/-- A body carries the instructions as its system text, and a message for each
turn. -/
structure Hoists (systemText : Value → Str) (messagesOf : Value → List Value)
    (IsTurn : Message → Value → Prop) (req : ChatRequest) (body : Value) : Prop where
  system : systemText body = req.instructions
  messages : List.Forall₂ IsTurn req.turns (messagesOf body)

/-- Turns are emitted one by one where instructions are not emitted at all. -/
theorem forall₂_turns {IsTurn : Message → Value → Prop} {emit : Message → Option Value}
    (hInstruction : ∀ m, m.isInstruction = true → emit m = none)
    (hTurn : ∀ m, m.isInstruction = false → ∃ v, emit m = some v ∧ IsTurn m v)
    (messages : List Message) :
    List.Forall₂ IsTurn (messages.filter fun m => !m.isInstruction) (messages.filterMap emit) := by
  induction messages with
  | nil => exact .nil
  | cons m rest ih =>
      cases hRole : m.isInstruction with
      | true =>
          rw [List.filter_cons_of_neg (by simp [hRole]),
            List.filterMap_cons_none (hInstruction m hRole)]
          exact ih
      | false =>
          obtain ⟨v, hEmit, hIsTurn⟩ := hTurn m hRole
          rw [List.filter_cons_of_pos (by simp [hRole]), List.filterMap_cons_some hEmit]
          exact .cons hIsTurn ih

def textOf (block : Value) : Str := (optStr block "text").getD []

namespace Anthropic

/-- The blocks of a content; a string is one text block. -/
def blocksOf : Value → List Value
  | .string s => [emitBlock (.text s)]
  | .array blocks => blocks
  | _ => []

def contentOf (message : Value) : List Value := ((message.get "content").map blocksOf).getD []

/-- The system text of a body, a string or blocks. -/
def systemText (body : Value) : Str :=
  (((body.get "system").map blocksOf).getD []).flatMap textOf

def messagesOf (body : Value) : List Value := (optArr body "messages").getD []

structure IsTurn (m : Message) (v : Value) : Prop where
  role : optStr v "role" =
    some (if m.role = .assistant then "assistant".toList else "user".toList)
  content : contentOf v = m.content.map emitBlock

theorem blocksOf_emitContent (content : List ContentBlock) :
    blocksOf (emitContent content) = content.map emitBlock := by
  unfold emitContent
  split <;> rfl

theorem isTurn_emitMessage {m : Message} (h : m.isInstruction = false) :
    ∃ v, emitMessage m = some v ∧ IsTurn m v := by
  unfold emitMessage
  cases hRole : m.role with
  | system => simp [Message.isInstruction, hRole] at h
  | developer => simp [Message.isInstruction, hRole] at h
  | user | assistant | tool =>
      refine ⟨_, rfl, ?_, ?_⟩
      · simp only [hRole, optStr_obj, List.foldl_cons, List.foldl_nil, String.reduceEq, if_false,
          if_true, Value.asStr_string, reduceCtorEq]
      · simp only [contentOf, get_obj, List.foldl_cons, List.foldl_nil, String.reduceEq, if_false,
          if_true, Option.map_some, Option.getD_some, blocksOf_emitContent]

theorem textOf_emitBlock {b : ContentBlock} (h : b.isText = true) :
    textOf (emitBlock b) = b.asText.getD [] := by
  cases b with
  | text t | cachedText t ttl =>
      simp only [textOf, emitBlock, optStr_obj, List.foldl_cons, List.foldl_nil, String.reduceEq,
        if_false, if_true, Value.asStr_string]
      rfl
  | _ => cases h

theorem flatMap_textOf_emitBlock {blocks : List ContentBlock}
    (h : ∀ b ∈ blocks, b.isText = true) :
    (blocks.map emitBlock).flatMap textOf = joinText blocks := by
  induction blocks with
  | nil => rfl
  | cons b rest ih =>
      rw [List.map_cons, List.flatMap_cons, textOf_emitBlock (h b List.mem_cons_self),
        ih fun c hc => h c (List.mem_cons_of_mem _ hc)]
      unfold joinText
      cases hText : b.asText with
      | none => rw [List.filterMap_cons_none hText, Option.getD_none, List.nil_append]
      | some t => rw [List.filterMap_cons_some hText, List.flatten_cons, Option.getD_some]

theorem flatMap_plainText {blocks : List ContentBlock} (h : blocks.all isPlainText = true) :
    blocks.flatMap plainText = joinText blocks := by
  induction blocks with
  | nil => rfl
  | cons b rest ih =>
      rw [List.all_cons, Bool.and_eq_true] at h
      rw [List.flatMap_cons, ih h.2]
      cases b with
      | text t => rfl
      | _ => cases h.1

/-- The string or the blocks of the system field say what was to be said. -/
theorem text_emitSystem {blocks : List ContentBlock} (h : ∀ b ∈ blocks, b.isText = true) :
    (blocksOf (emitSystem blocks)).flatMap textOf = joinText blocks := by
  unfold emitSystem
  split_ifs with hPlain
  · rw [blocksOf, List.flatMap_singleton, textOf_emitBlock rfl, flatMap_plainText hPlain]
    rfl
  · exact flatMap_textOf_emitBlock h

theorem hoists_emitBody {req : ChatRequest} (opts : EmitOptions) (h : req.Textual) :
    Hoists systemText messagesOf IsTurn req (emitBody req opts) := by
  constructor
  · unfold systemText emitBody
    dsimp only
    rw [get_obj_append (notMem_settings (by simp) req opts), get_obj_append (by simp)]
    by_cases hEmpty : req.effectiveSystem.isEmpty = true
    · rw [if_pos hEmpty, ← joinText_effectiveSystem, List.isEmpty_iff.mp hEmpty]
      simp only [get_obj, List.foldl_cons, List.foldl_nil, List.append_nil, String.reduceEq,
        if_false, Option.map_none, Option.getD_none, List.flatMap_nil]
      rfl
    · rw [if_neg hEmpty]
      simp only [get_obj, List.foldl_append, List.foldl_cons, List.foldl_nil, String.reduceEq,
        if_false, if_true, Option.map_some, Option.getD_some]
      rw [text_emitSystem fun b hb => isText_effectiveSystem h hb, joinText_effectiveSystem]
  · have hMessages : messagesOf (emitBody req opts) = req.messages.filterMap emitMessage := by
      unfold messagesOf emitBody optArr
      dsimp only
      rw [get_obj_append (notMem_settings (by simp) req opts), get_obj, List.foldl_append]
      rfl
    rw [hMessages]
    refine forall₂_turns (fun m hInstruction => ?_) (fun m => isTurn_emitMessage) req.messages
    unfold emitMessage
    cases hRole : m.role with
    | system | developer => rfl
    | user | assistant | tool => simp [Message.isInstruction, hRole] at hInstruction

end Anthropic

namespace Gemini

/-- The system text of a body. -/
def systemText (body : Value) : Str :=
  (((body.get "systemInstruction").bind (optArr · "parts")).getD []).flatMap textOf

def contentsOf (body : Value) : List Value := (optArr body "contents").getD []

structure IsTurn (m : Message) (v : Value) : Prop where
  role : optStr v "role" = some (if m.role = .assistant then "model".toList else "user".toList)
  parts : optArr v "parts" = some (m.content.filterMap emitPart)

theorem isTurn_emitContent {m : Message} (h : m.isInstruction = false) :
    ∃ v, emitContent m = some v ∧ IsTurn m v := by
  unfold emitContent
  cases hRole : m.role with
  | system => simp [Message.isInstruction, hRole] at h
  | developer => simp [Message.isInstruction, hRole] at h
  | user | assistant | tool =>
      refine ⟨_, rfl, ?_, ?_⟩ <;>
        simp only [hRole, optStr_obj, optArr_obj, List.foldl_cons, List.foldl_nil,
          String.reduceEq, if_false, if_true, Value.asStr_string, Value.asArray_array,
          reduceCtorEq]

theorem hoists_emitBody (req : ChatRequest) (opts : EmitOptions) :
    Hoists systemText contentsOf IsTurn req (emitBody req opts) := by
  constructor
  · unfold systemText emitBody
    dsimp only
    rw [List.append_assoc, List.append_assoc, List.append_assoc, get_obj_append]
    · by_cases hEmpty : req.effectiveSystem.isEmpty = true
      · rw [if_pos hEmpty, ← joinText_effectiveSystem, List.isEmpty_iff.mp hEmpty,
          List.append_nil]
        split_ifs
        · rfl
        · simp only [get_obj, List.foldl_cons, List.foldl_nil, String.reduceEq, if_false,
            Option.bind_none, Option.getD_none, List.flatMap_nil]
          rfl
      · rw [if_neg hEmpty, ← joinText_effectiveSystem]
        simp only [get_obj, List.foldl_append, List.foldl_cons, List.foldl_nil, if_true,
          Option.bind_some, optArr_obj, Value.asArray_array, Option.getD_some,
          List.flatMap_singleton, textOf, optStr_obj, Value.asStr_string]
    · simp only [List.map_append, List.mem_append, not_or]
      refine ⟨by simp, ?_, OpenaiChat.notMem_optField (by decide) _, ?_⟩ <;> split_ifs <;> simp
  · rw [contentsOf, contents_emitBody, Option.getD_some]
    refine forall₂_turns (fun m hInstruction => ?_) (fun m => isTurn_emitContent) req.messages
    unfold emitContent
    cases hRole : m.role with
    | system | developer => rfl
    | user | assistant | tool => simp [Message.isInstruction, hRole] at hInstruction

end Gemini

/-- Both formats get the instructions once and the other messages in order. -/
theorem instructions_hoisted (req : ChatRequest) (opts : EmitOptions) (h : req.Textual) :
    Hoists Anthropic.systemText Anthropic.messagesOf Anthropic.IsTurn req
        (Anthropic.emitBody req opts) ∧
      Hoists Gemini.systemText Gemini.contentsOf Gemini.IsTurn req (Gemini.emitBody req opts) :=
  ⟨Anthropic.hoists_emitBody opts h, Gemini.hoists_emitBody req opts⟩

/-- A prompt, and an instruction between two turns. -/
def coached : ChatRequest :=
  { system := some [.text "Be brief.".toList]
    messages := [⟨.user, [.text "Hi".toList]⟩, ⟨.developer, [.text " Be kind.".toList]⟩,
      ⟨.assistant, [.text "Hello".toList]⟩] }

theorem instructions_hoisted_coached :
    coached.Textual ∧ coached.instructions = "Be brief. Be kind.".toList ∧
      Anthropic.systemText (Anthropic.emitBody coached ⟨"m".toList, none, false⟩) =
        "Be brief. Be kind.".toList :=
  have hText : coached.Textual :=
    ⟨by simp [coached, ContentBlock.isText, ContentBlock.asText],
      by simp [coached, ContentBlock.isText, ContentBlock.asText, Message.isInstruction]⟩
  have hSays : coached.instructions = "Be brief. Be kind.".toList := by decide
  have hSystem := (instructions_hoisted coached ⟨"m".toList, none, false⟩ hText).1.system
  ⟨hText, hSays, hSystem.trans hSays⟩

end Gateway.Wire
