import Gateway.Wire.Anthropic.BlocksKept

/-! A Messages request on its way to a Messages upstream: read into the intermediate
representation, and written from it. -/
namespace Gateway.Wire.Anthropic

open Json Text
open OpenaiChat (optField notMem_optField)

/-- The upstream gets the messages, the instructions and the tools that the client
wrote. -/
structure Relayed (client upstream : Value) : Prop where
  messages : (upstream.get "messages").map spellMessages = (client.get "messages").map spellMessages
  system : (upstream.get "system").map spellContent = (client.get "system").map spellContent
  tools : upstream.get "tools" = client.get "tools"

/-! ### What is kept -/

def ContentKept (c : Value) : Prop :=
  (∃ s, c = .string s) ∨ ∃ items, c = .array items ∧ ∀ b ∈ items, BlockKept b

def message (role : Str) (content : Value) : Value :=
  obj [("role", .string role), ("content", content)]

/-- A turn of the user or the assistant, with nothing but its content. -/
def MessageKept (m : Value) : Prop :=
  ∃ role content, m = message role content ∧
    (role = "user".toList ∨ role = "assistant".toList) ∧ ContentKept content

/-- A tool of the client's own, with its schema. -/
def PlainTool (t : Value) : Prop :=
  ∃ (name : Str) (description : Option Str) (schema : Value) (control : Option Value),
    t = obj ([("name", .string name)] ++ optField "description" (description.map .string) ++
      [("input_schema", schema)] ++ optField "cache_control" control)

structure Lossless (v : Value) : Prop where
  messages : ∃ ms, v.get "messages" = some (.array ms) ∧ ∀ m ∈ ms, MessageKept m
  system : ∀ c, v.get "system" = some c → TextKept c
  tools : ∀ w, v.get "tools" = some w → ∃ ts, w = .array ts ∧ ts ≠ [] ∧ ∀ t ∈ ts, PlainTool t

/-! ### Messages -/

theorem spellContent_emitContent (blocks : List ContentBlock) :
    spellContent (emitContent blocks) = .array ((blocks.map emitBlock).map spellBlock) := by
  unfold emitContent
  split
  · rw [spellContent, List.map_singleton, List.map_singleton, emitBlock_text, spellBlock_textBlock]
  · rw [spellContent, spellBlocks_eq_map]

theorem content_relayed_iff {c : Value} {blocks : List ContentBlock}
    (h : parseContent c = .ok blocks)
    (decided : ∀ items, c = .array items → ∀ b ∈ items, Decided b) :
    spellContent (emitContent blocks) = spellContent c ↔ ContentKept c := by
  rw [spellContent_emitContent]
  cases c with
  | string s =>
      cases h
      refine iff_of_true ?_ (.inl ⟨s, rfl⟩)
      rw [spellContent, List.map_singleton, List.map_singleton, emitBlock_text, spellBlock_textBlock]
  | null =>
      refine iff_of_false (fun hEq => ?_) ?_
      · cases hEq
      · rintro (⟨s, hs⟩ | ⟨items, hItems, -⟩)
        · cases hs
        · cases hItems
  | array items =>
      rw [parseContent] at h
      rw [spellContent, spellBlocks_eq_map, Value.array.injEq, blocks_relayed_iff h (decided items rfl)]
      constructor
      · exact fun hKept => .inr ⟨items, rfl, hKept⟩
      · rintro (⟨s, hs⟩ | ⟨items', hItems, hKept⟩)
        · cases hs
        · cases hItems
          exact hKept
  | _ => cases h

theorem blocks_decided {depth : Nat} {c : Value} (kept : c.Kept depth) :
    ∀ items, c = .array items → ∀ b ∈ items, Decided b := by
  rintro items rfl b hb
  exact block_decided (itemsKept_iff.mp kept.2 b hb)

theorem content_message (role : Str) (c : Value) : (message role c).get "content" = some c := by
  simp [message]

theorem role_message (role : Str) (c : Value) : optStr (message role c) "role" = some role := by
  simp [message]

theorem messageContent_message (role : Str) (c : Value) :
    messageContent (message role c) = parseContent c := by
  rw [messageContent, content_message]
  rfl

/-- The roles of a conversation, as they are written. -/
theorem messageRole_spoken {m : Value} {role : Role} (h : messageRole m = .ok role) :
    (role = .system ∧ optStr m "role" = some "system".toList) ∨
      (role = .user ∧ optStr m "role" = some "user".toList) ∨
      role = .assistant ∧ optStr m "role" = some "assistant".toList := by
  unfold messageRole at h
  cases hRole : optStr m "role" with
  | none =>
      rw [hRole] at h
      cases h
  | some name =>
      rw [hRole] at h
      dsimp only at h
      split_ifs at h with hUser hAssistant hSystem
      · cases h
        exact .inr (.inl ⟨rfl, congrArg some hUser⟩)
      · cases h
        exact .inr (.inr ⟨rfl, congrArg some hAssistant⟩)
      · cases h
        exact .inl ⟨rfl, congrArg some hSystem⟩

theorem message_relayed_iff {depth : Nat} {m : Value} {name : Str} {content : List ContentBlock}
    (kept : m.Kept depth) (hContent : messageContent m = .ok content)
    (hName : optStr m "role" = some name)
    (hRole : name = "user".toList ∨ name = "assistant".toList) :
    spellMessage (message name (emitContent content)) = spellMessage m ↔ MessageKept m := by
  have hAround : spellMessage (message name (emitContent content)) = spellMessage m ↔
      ∃ c, spellContent (emitContent content) = spellContent c ∧ m = message name c :=
    around_relayed_iff kept (object_of_optStr hName) (content_message name)
      (fun c c' key hKey => by simp [Ne.symm hKey])
  rw [hAround]
  constructor
  · rintro ⟨c, hSpell, rfl⟩
    rw [messageContent_message] at hContent
    have hKept := (content_relayed_iff hContent
      (blocks_decided (kept.get (content_message name c)))).mp hSpell
    exact ⟨name, c, rfl, hRole, hKept⟩
  · rintro ⟨name', c, rfl, -, hKept⟩
    rw [role_message] at hName
    cases hName
    rw [messageContent_message] at hContent
    exact ⟨c, (content_relayed_iff hContent
      (blocks_decided (kept.get (content_message name c)))).mpr hKept, rfl⟩

/-- What one message adds: a turn, or instructions. -/
theorem addMessage_cases {req next : ChatRequest} {m : Value} (h : addMessage req m = .ok next) :
    ∃ content, messageContent m = .ok content ∧
      ((optStr m "role" = some "system".toList ∧
          next = { req with system := some (req.system.getD [] ++ content) }) ∨
        ∃ role name, optStr m "role" = some name ∧
          (role = .user ∧ name = "user".toList ∨ role = .assistant ∧ name = "assistant".toList) ∧
          next = { req with messages := req.messages ++ [⟨role, content⟩] }) := by
  obtain ⟨content, hContent, h⟩ := bind_eq_ok.mp h
  obtain ⟨role, hRole, h⟩ := bind_eq_ok.mp h
  refine ⟨content, hContent, ?_⟩
  rcases messageRole_spoken hRole with ⟨rfl, hName⟩ | ⟨rfl, hName⟩ | ⟨rfl, hName⟩
  · cases h
    exact .inl ⟨hName, rfl⟩
  · cases h
    exact .inr ⟨.user, _, hName, .inl ⟨rfl, rfl⟩, rfl⟩
  · cases h
    exact .inr ⟨.assistant, _, hName, .inr ⟨rfl, rfl⟩, rfl⟩

theorem notKept_of_system {m : Value} (h : optStr m "role" = some "system".toList) :
    ¬MessageKept m := by
  rintro ⟨role, c, rfl, hRole, -⟩
  rw [role_message, Option.some.injEq] at h
  subst h
  rcases hRole with hRole | hRole <;> exact absurd hRole (by decide)

/-- The turns of a conversation, added in their order. -/
structure Turns (ms : List Value) (req last : ChatRequest) (turns : List Message) : Prop where
  messages : last.messages = req.messages ++ turns
  spoken : ∀ m ∈ turns, m.role = .user ∨ m.role = .assistant
  length_le : turns.length ≤ ms.length
  relayed : (turns.filterMap emitMessage).map spellMessage = ms.map spellMessage ↔
    ∀ m ∈ ms, MessageKept m
  system : (∀ m ∈ ms, MessageKept m) → last.system = req.system

theorem turns_of_foldlM {depth : Nat} {ms : List Value} {req last : ChatRequest}
    (kept : ∀ m ∈ ms, m.Kept depth) (h : ms.foldlM addMessage req = .ok last) :
    ∃ turns, Turns ms req last turns := by
  induction ms generalizing req with
  | nil =>
      cases h
      exact ⟨[], ⟨(List.append_nil _).symm, fun m hm => (List.not_mem_nil hm).elim, le_rfl, by simp,
        fun _ => rfl⟩⟩
  | cons m rest ih =>
      rw [List.foldlM_cons] at h
      obtain ⟨next, hNext, hRest⟩ := bind_eq_ok.mp h
      obtain ⟨hFirst, hMore⟩ := List.forall_mem_cons.mp kept
      obtain ⟨turns, hTurns⟩ := ih hMore hRest
      obtain ⟨content, hContent, ⟨hSystem, rfl⟩ | ⟨role, name, hName, hRole, rfl⟩⟩ :=
        addMessage_cases hNext
      · -- the turn is gone from the messages, so that there are too few
        have hNot : ¬∀ m' ∈ m :: rest, MessageKept m' := fun hAll =>
          notKept_of_system hSystem (hAll m List.mem_cons_self)
        refine ⟨turns, hTurns.messages, hTurns.spoken, hTurns.length_le.trans (Nat.le_succ _),
          iff_of_false (fun hEq => ?_) hNot, fun hAll => absurd hAll hNot⟩
        have hLength := congrArg List.length hEq
        rw [List.length_map, List.length_map, List.length_cons] at hLength
        have hFilter := List.length_filterMap_le emitMessage turns
        have hShort := hTurns.length_le
        omega
      · have hSpoken : role = .user ∨ role = .assistant := hRole.imp And.left And.left
        have hEmit : emitMessage ⟨role, content⟩ = some (message name (emitContent content)) := by
          rcases hRole with ⟨rfl, rfl⟩ | ⟨rfl, rfl⟩ <;> rfl
        have hOne := message_relayed_iff hFirst hContent hName (hRole.imp And.right And.right)
        refine ⟨⟨role, content⟩ :: turns, ?_, List.forall_mem_cons.mpr ⟨hSpoken, hTurns.spoken⟩,
          Nat.succ_le_succ hTurns.length_le, ?_, fun hAll => ?_⟩
        · rw [hTurns.messages, List.append_assoc, List.singleton_append]
        · rw [List.filterMap_cons_some hEmit, List.map_cons, List.map_cons, List.cons.injEq, hOne,
            hTurns.relayed, List.forall_mem_cons]
        · exact hTurns.system (List.forall_mem_cons.mp hAll).2

/-! ### Tools -/

theorem emitTool_parseTool {t : Value} {tool : Tool} (h : parseTool t = .ok tool) :
    emitTool tool = t ↔ PlainTool t := by
  constructor
  · rintro rfl
    exact ⟨tool.name, tool.description, tool.inputSchema, tool.anthropicCacheControl, rfl⟩
  · rintro ⟨name, description, schema, control, rfl⟩
    cases description <;> cases control <;>
      simp [parseTool, reqStr, optField, pure, Except.pure, bind, Except.bind] at h <;>
      subst h <;> rfl

theorem tools_relayed_iff {ts : List Value} {tools : List Tool} (h : ts.mapM parseTool = .ok tools) :
    tools.map emitTool = ts ↔ ∀ t ∈ ts, PlainTool t := by
  induction ts generalizing tools with
  | nil =>
      cases h
      simp
  | cons t rest ih =>
      rw [List.mapM_cons] at h
      obtain ⟨tool, hTool, h⟩ := bind_eq_ok.mp h
      obtain ⟨more, hMore, h⟩ := bind_eq_ok.mp h
      cases h
      rw [List.map_cons, List.cons.injEq, List.forall_mem_cons, emitTool_parseTool hTool, ih hMore]

/-! ### The body -/

theorem effectiveSystem_of_spoken {req : ChatRequest}
    (h : ∀ m ∈ req.messages, m.role = .user ∨ m.role = .assistant) :
    req.effectiveSystem = req.system.getD [] := by
  rw [ChatRequest.effectiveSystem, List.append_right_eq_self, List.flatMap_eq_nil_iff]
  intro m hm
  rcases h m hm with hRole | hRole <;> simp [hRole]

theorem get_messages_emitBody (req : ChatRequest) (opts : EmitOptions) :
    (emitBody req opts).get "messages" = some (.array (req.messages.filterMap emitMessage)) := by
  rw [emitBody, get_obj_append (notMem_settings (by simp) req opts), get_obj, List.foldl_append]
  rfl

theorem get_system_emitBody (req : ChatRequest) (opts : EmitOptions) :
    (emitBody req opts).get "system" =
      if req.effectiveSystem.isEmpty then none else some (emitSystem req.effectiveSystem) := by
  rw [emitBody, get_obj_append (notMem_settings (by simp) req opts), get_obj_append (by simp)]
  split_ifs <;> simp

theorem get_tools_emitBody (req : ChatRequest) (opts : EmitOptions) :
    (emitBody req opts).get "tools" =
      if req.tools.isEmpty then none else some (.array (req.tools.map emitTool)) := by
  have hStop : "tools" ∉ (if req.stop.isEmpty then []
      else [("stop_sequences", Value.array (req.stop.map .string))]).map Prod.fst := by
    split_ifs <;> simp
  have hStream : "tools" ∉ (if opts.stream then [("stream", Value.bool true)] else []).map
      Prod.fst := by
    split_ifs <;> simp
  have hMetadata : "tools" ∉ (if req.metadata.isEmpty then []
      else [("metadata", Value.object req.metadata)]).map Prod.fst := by
    split_ifs <;> simp
  simp only [emitBody, settings, ← List.append_assoc]
  rw [get_obj_append (notMem_optField (by decide) _), get_obj_append (notMem_optField (by decide) _),
    get_obj_append hMetadata, get_obj_append (notMem_optField (by decide) _),
    get_obj_append hStream, get_obj_append hStop, get_obj_append (notMem_optField (by decide) _),
    get_obj_append (notMem_optField (by decide) _), get_obj_append (notMem_optField (by decide) _)]
  cases req.tools <;> cases req.effectiveSystem <;> simp

/-! ### Requests -/

/-- The instructions are those of the body, read. -/
def SystemOf (v : Value) (system : Option (List ContentBlock)) : Prop :=
  (v.get "system" = none ∧ system = none) ∨
    ∃ c blocks, v.get "system" = some c ∧ parseContent c = .ok blocks ∧ system = some blocks

theorem systemOf_of_mapM {v : Value} {system : Option (List ContentBlock)}
    (h : (v.get "system").mapM parseContent = .ok system) : SystemOf v system := by
  cases hSystem : v.get "system" with
  | none =>
      rw [hSystem] at h
      cases h
      exact .inl ⟨hSystem, rfl⟩
  | some c =>
      rw [hSystem] at h
      have hParse : some <$> parseContent c = .ok system := h
      cases hContent : parseContent c with
      | error e =>
          rw [hContent] at hParse
          cases hParse
      | ok blocks =>
          rw [hContent] at hParse
          cases hParse
          exact .inr ⟨c, blocks, hSystem, hContent, rfl⟩

/-- Where the parts of a request come from. -/
structure ReadFrom (v : Value) (req : ChatRequest) (turns : List Message) : Prop where
  messages : req.messages = turns
  spoken : ∀ m ∈ turns, m.role = .user ∨ m.role = .assistant
  relayed : (turns.filterMap emitMessage).map spellMessage =
      ((optArr v "messages").getD []).map spellMessage ↔
    ∀ m ∈ (optArr v "messages").getD [], MessageKept m
  system : (∀ m ∈ (optArr v "messages").getD [], MessageKept m) → SystemOf v req.system
  tools : ((optArr v "tools").getD []).mapM parseTool = .ok req.tools

theorem kept_of_optArr {depth : Nat} {v : Value} {key : String} (kept : v.Kept depth) :
    ∀ m ∈ (optArr v key).getD [], m.Kept (depth - 1 - 1) := by
  intro m hm
  unfold optArr at hm
  cases hMember : v.get key with
  | none => simp [hMember] at hm
  | some w =>
      rw [hMember, Option.bind_some] at hm
      cases w with
      | array items => exact itemsKept_iff.mp (kept.get hMember).2 m hm
      | _ => exact absurd hm List.not_mem_nil

theorem readFrom_of_parseRequest {bytes : List UInt8} {v : Value} {req : ChatRequest}
    (hRead : fromSlice bytes = some v) (h : parseRequest bytes = .ok req) :
    ∃ turns, ReadFrom v req turns := by
  rw [parseRequest, hRead] at h
  dsimp only at h
  cases v with
  | object fields =>
      obtain ⟨system, hSystem, h⟩ := bind_eq_ok.mp h
      obtain ⟨last, hLast, h⟩ := bind_eq_ok.mp h
      obtain ⟨tools, hTools, h⟩ := bind_eq_ok.mp h
      obtain ⟨choice, -, h⟩ := bind_eq_ok.mp h
      cases h
      obtain ⟨turns, hTurns⟩ := turns_of_foldlM (kept_of_optArr (kept_of_fromSlice hRead)) hLast
      refine ⟨turns, hTurns.messages, hTurns.spoken, hTurns.relayed, fun hKept => ?_, hTools⟩
      have hSame := hTurns.system hKept
      exact hSame ▸ systemOf_of_mapM hSystem
  | _ => cases h

theorem messages_relayed_iff {v : Value} {req : ChatRequest} {turns : List Message}
    (h : ReadFrom v req turns) (opts : EmitOptions) :
    ((emitBody req opts).get "messages").map spellMessages = (v.get "messages").map spellMessages ↔
      ∃ ms, v.get "messages" = some (.array ms) ∧ ∀ m ∈ ms, MessageKept m := by
  rw [get_messages_emitBody, h.messages, Option.map_some]
  have hRelayed := h.relayed
  unfold optArr at hRelayed
  cases hMessages : v.get "messages" with
  | none => exact iff_of_false (fun hEq => nomatch hEq) (by rintro ⟨ms, hNone, -⟩; cases hNone)
  | some w =>
      cases w with
      | array ms =>
          rw [hMessages] at hRelayed
          rw [Option.map_some, Option.some.injEq, spellMessages, spellMessages, Value.array.injEq]
          refine hRelayed.trans ⟨fun hKept => ⟨ms, rfl, hKept⟩, ?_⟩
          rintro ⟨ms', hEq, hKept⟩
          cases hEq
          exact hKept
      | _ =>
          refine iff_of_false (fun hEq => ?_) ?_
          · rw [Option.map_some, Option.some.injEq] at hEq
            cases hEq
          · rintro ⟨ms, hEq, -⟩
            cases hEq

theorem not_textKept_of_empty {c : Value} (h : parseContent c = .ok []) : ¬TextKept c := by
  rintro (⟨s, rfl⟩ | ⟨items, rfl, -, hApart⟩)
  · cases h
  · cases items with
    | nil => exact hApart ⟨fun b hb => (List.not_mem_nil hb).elim, fun b hb => nomatch hb⟩
    | cons first rest =>
        obtain ⟨block, -, hRest⟩ := bind_eq_ok.mp h
        obtain ⟨more, -, hEnd⟩ := bind_eq_ok.mp hRest
        cases hEnd

theorem system_relayed_iff {depth : Nat} {v : Value} {req : ChatRequest} {turns : List Message}
    (kept : v.Kept depth) (h : ReadFrom v req turns) (hSystem : SystemOf v req.system)
    (opts : EmitOptions) :
    ((emitBody req opts).get "system").map spellContent = (v.get "system").map spellContent ↔
      ∀ c, v.get "system" = some c → TextKept c := by
  rw [get_system_emitBody, effectiveSystem_of_spoken (h.messages ▸ h.spoken)]
  rcases hSystem with ⟨hNone, hReq⟩ | ⟨c, blocks, hSome, hContent, hReq⟩
  · rw [hNone, hReq]
    exact iff_of_true rfl (fun c hc => nomatch hc)
  · rw [hSome, hReq]
    cases blocks with
    | nil =>
        refine iff_of_false (fun hEq => nomatch hEq) fun hAll => ?_
        exact not_textKept_of_empty hContent (hAll c rfl)
    | cons first rest =>
        have hText := text_relayed_iff hContent (blocks_decided (kept.get hSome))
        rw [Option.map_some]
        refine Iff.trans ⟨fun hEq => hText.mp (Option.some.inj hEq),
          fun hKept => congrArg some (hText.mpr hKept)⟩ ⟨?_, fun hAll => hAll c rfl⟩
        rintro hKept c' hc'
        cases hc'
        exact hKept

theorem tools_member_iff {v : Value} {req : ChatRequest} {turns : List Message}
    (h : ReadFrom v req turns) (opts : EmitOptions) :
    (emitBody req opts).get "tools" = v.get "tools" ↔
      ∀ w, v.get "tools" = some w → ∃ ts, w = .array ts ∧ ts ≠ [] ∧ ∀ t ∈ ts, PlainTool t := by
  rw [get_tools_emitBody]
  have hTools := h.tools
  generalize req.tools = tools at hTools ⊢
  unfold optArr at hTools
  cases hMember : v.get "tools" with
  | none =>
      rw [hMember] at hTools
      cases hTools
      exact iff_of_true rfl (fun w hw => nomatch hw)
  | some w =>
      rw [hMember] at hTools
      -- without tools the member is left out
      have hEmpty (hNone : tools = []) (hNot : ∀ ts, w = .array ts → ts = []) :
          (if tools.isEmpty then none else some (Value.array (tools.map emitTool))) = some w ↔
            ∀ w', some w = some w' → ∃ ts, w' = .array ts ∧ ts ≠ [] ∧ ∀ t ∈ ts, PlainTool t := by
        subst hNone
        refine iff_of_false (fun hEq => nomatch hEq) fun hAll => ?_
        obtain ⟨ts, hArray, hSome, -⟩ := hAll w rfl
        exact hSome (hNot ts hArray)
      cases w with
      | array ts =>
          cases ts with
          | nil =>
              cases hTools
              exact hEmpty rfl fun ts hArray => (Value.array.inj hArray).symm
          | cons t rest =>
              have hRelayed : tools.map emitTool = t :: rest ↔ ∀ t' ∈ t :: rest, PlainTool t' :=
                tools_relayed_iff hTools
              have hSome : tools.isEmpty = false := by
                obtain ⟨tool, -, hRest⟩ := bind_eq_ok.mp ((List.mapM_cons ..).symm.trans hTools)
                obtain ⟨more, -, hEnd⟩ := bind_eq_ok.mp hRest
                cases hEnd
                rfl
              rw [hSome, if_neg (by decide), Option.some.injEq, Value.array.injEq, hRelayed]
              constructor
              · rintro hPlain w' hw'
                cases hw'
                exact ⟨t :: rest, rfl, List.cons_ne_nil _ _, hPlain⟩
              · intro hAll
                obtain ⟨ts, hArray, -, hPlain⟩ := hAll _ rfl
                cases hArray
                exact hPlain
      | _ =>
          cases hTools
          exact hEmpty rfl fun ts hArray => nomatch hArray

/-- A short conversation over a document, with one tool. -/
def askWith (tool : Value) : Value :=
  obj [("model", .string "m".toList), ("max_tokens", .nat 64),
    ("system", .array [textBlock "be brief".toList]),
    ("messages", .array [
      message "user".toList (.array [textBlock "hi".toList,
        obj [("type", .string "document".toList)]]),
      message "assistant".toList (.string "hello".toList)]),
    ("tools", .array [tool])]

theorem fits_textBlock (t : Str) (depth : Nat) : (textBlock t).Fits (depth + 1) :=
  fits_obj (List.forall_mem_cons.mpr ⟨fits_string _ _, List.forall_mem_singleton.mpr (fits_string _ _)⟩)

theorem fits_message {role : Str} {c : Value} {depth : Nat} (h : c.Fits depth) :
    (message role c).Fits (depth + 1) :=
  fits_obj (List.forall_mem_cons.mpr ⟨fits_string _ _, List.forall_mem_singleton.mpr h⟩)

theorem fromSlice_askWith {tool : Value} (h : tool.Fits 2) :
    fromSlice (toUtf8 (askWith tool).render) = some (askWith tool) := by
  have hDocument : (obj [("type", .string "document".toList)]).Fits 1 := fits_obj (by simp)
  have hUser := @fits_message "user".toList _ _ (fits_array (List.forall_mem_cons.mpr
    ⟨fits_textBlock "hi".toList 0, List.forall_mem_singleton.mpr hDocument⟩))
  have hAssistant := @fits_message "assistant".toList _ _ (fits_string 2 "hello".toList)
  suffices (askWith tool).Fits 5 from (this.mono (by decide)).fromSlice
  refine fits_obj ?_
  simp only [List.forall_mem_cons, List.not_mem_nil, false_implies, implies_true, and_true]
  refine ⟨fits_string _ _, fits_nat (by decide) _, ?_, ?_, ?_⟩
  · exact fits_array (List.forall_mem_singleton.mpr (fits_textBlock _ _))
  · exact fits_array (List.forall_mem_cons.mpr ⟨hUser, List.forall_mem_singleton.mpr hAssistant⟩)
  · exact fits_array (List.forall_mem_singleton.mpr (h.mono (by decide)))

/-- A tool of the client's, and one that the provider runs. -/
def ownTool : Value :=
  obj [("name", .string "lookup".toList), ("input_schema", obj [("type", .string "object".toList)])]

def searchTool : Value :=
  obj [("type", .string "web_search_20250305".toList), ("name", .string "web_search".toList)]

theorem lossless_askWith_ownTool : Lossless (askWith ownTool) where
  messages := by
    refine ⟨_, rfl, List.forall_mem_cons.mpr ⟨?_, List.forall_mem_singleton.mpr ?_⟩⟩
    · refine ⟨_, _, rfl, .inl rfl, .inr ⟨_, rfl, List.forall_mem_cons.mpr
        ⟨.text _, List.forall_mem_singleton.mpr (@BlockKept.unmodelled _ "document".toList ?_ ?_)⟩⟩⟩
      · simp
      · decide
    · exact ⟨_, _, rfl, .inr rfl, .inl ⟨_, rfl⟩⟩
  system := by
    intro c hc
    simp only [askWith, get_obj, List.foldl_cons, List.foldl_nil, String.reduceEq, if_false, if_true,
      Option.some.injEq] at hc
    subst hc
    exact .inr ⟨_, rfl, List.forall_mem_singleton.mpr (.text _), fun hJoined => hJoined.2 _ rfl⟩
  tools := by
    intro w hw
    simp only [askWith, get_obj, List.foldl_cons, List.foldl_nil, String.reduceEq, if_false, if_true,
      Option.some.injEq] at hw
    subst hw
    exact ⟨_, rfl, List.cons_ne_nil _ _, List.forall_mem_singleton.mpr
      ⟨"lookup".toList, none, _, none, rfl⟩⟩

end Gateway.Wire.Anthropic
