import Gateway.Json.Held
import Gateway.Wire.Anthropic.Parse

/-! The blocks of a Messages request that come through when they are read into the
intermediate representation and written from it. Content may be spelled as a string
or as its one text block. -/
namespace Gateway.Wire.Anthropic

open Json
open OpenaiChat (optField)

/-! ### Spellings -/

def textBlock (t : Str) : Value := obj [("type", .string "text".toList), ("text", .string t)]

mutual
/-- Content with a string spelled as a block, also in the results it holds. -/
def spellContent : Value → Value
  | .string s => .array [textBlock s]
  | .array items => .array (spellBlocks items)
  | v => v

def spellBlocks : List Value → List Value
  | [] => []
  | b :: rest => spellBlock b :: spellBlocks rest

def spellBlock : Value → Value
  | .object fields =>
      if optStr (.object fields) "type" = some "tool_result".toList then
        .object (spellMember fields)
      else .object fields
  | b => b

/-- The members with the one named `content` spelled out. -/
def spellMember : List (Str × Value) → List (Str × Value)
  | [] => []
  | (key, v) :: rest =>
      (key, if key = "content".toList then spellContent v else v) :: spellMember rest
end

def spellMessage : Value → Value
  | .object fields => .object (spellMember fields)
  | m => m

def spellMessages : Value → Value
  | .array messages => .array (messages.map spellMessage)
  | v => v

/-! ### What is kept -/

/-- Blocks that would be joined to one: more than one, or none, and all of them text. -/
def Joined (items : List Value) : Prop :=
  (∀ b ∈ items, ∃ t, b = textBlock t) ∧ ∀ b, items ≠ [b]

/-- A result with its content. -/
def resultBlock (id : Str) (content : Value) (isError : Bool) : Value :=
  obj ([("type", .string "tool_result".toList), ("tool_use_id", .string id), ("content", content)] ++
    if isError then [("is_error", .bool true)] else [])

/-- The blocks that come through. A block that is carried as it came keeps all it
has; of the others, the members that the representation knows are all there are. -/
inductive BlockKept : Value → Prop
  | marked {b : Value} (marked : (b.get "cache_control").isSome = true)
      (other : optStr b "type" ≠ some "text".toList) : BlockKept b
  | otherMark {b control : Value} (text : optStr b "type" = some "text".toList)
      (mark : b.get "cache_control" = some control)
      (other : optStr control "type" ≠ some "ephemeral".toList) : BlockKept b
  | unmodelled {b : Value} {kind : Str} (hKind : optStr b "type" = some kind)
      (other : kind ∉ ["text", "image", "tool_use", "tool_result", "thinking"].map String.toList) :
      BlockKept b
  | text (t : Str) : BlockKept (textBlock t)
  | cachedText (t : Str) (ttl : Option Str) :
      BlockKept (obj [("type", .string "text".toList), ("text", .string t), ("cache_control",
        obj ([("type", .string "ephemeral".toList)] ++ optField "ttl" (ttl.map .string)))])
  | imageUrl (url : Str) :
      BlockKept (obj [("type", .string "image".toList), ("source",
        obj [("type", .string "url".toList), ("url", .string url)])])
  | imageData (mediaType data : Str) :
      BlockKept (obj [("type", .string "image".toList), ("source",
        obj [("type", .string "base64".toList), ("media_type", .string mediaType),
          ("data", .string data)])])
  | toolUse (id name : Str) (input : Value) :
      BlockKept (obj [("type", .string "tool_use".toList), ("id", .string id),
        ("name", .string name), ("input", input)])
  | thinking (t : Str) (signature : Option Str) :
      BlockKept (obj ([("type", .string "thinking".toList), ("thinking", .string t)] ++
        optField "signature" (signature.map .string)))
  | resultText (id s : Str) (isError : Bool) : BlockKept (resultBlock id (.string s) isError)
  | resultBlocks {id : Str} {items : List Value} {isError : Bool}
      (kept : ∀ b ∈ items, BlockKept b) (apart : ¬Joined items) :
      BlockKept (resultBlock id (.array items) isError)

/-! ### Members -/

theorem spellMember_eq_map (fields : List (Str × Value)) :
    spellMember fields =
      fields.map fun f => (f.1, if f.1 = "content".toList then spellContent f.2 else f.2) := by
  induction fields with
  | nil => rfl
  | cons f fields ih =>
      obtain ⟨key, v⟩ := f
      rw [spellMember, ih]
      rfl

theorem spellBlocks_eq_map (items : List Value) : spellBlocks items = items.map spellBlock := by
  induction items with
  | nil => rfl
  | cons b rest ih => rw [spellBlocks, ih, List.map_cons]

theorem lookupField_spellMember (k : Str) (fields : List (Str × Value)) :
    lookupField k (spellMember fields) =
      (lookupField k fields).map fun v => if k = "content".toList then spellContent v else v := by
  induction fields with
  | nil => rfl
  | cons f fields ih =>
      obtain ⟨key, v⟩ := f
      by_cases hKey : key = k
      · subst hKey
        rw [spellMember, lookupField, if_pos rfl, lookupField, if_pos rfl, Option.map_some]
      · rw [spellMember, lookupField, if_neg hKey, lookupField, if_neg hKey, ih]

theorem inOrder_spellMember {fields : List (Str × Value)} (h : InOrder fields) :
    InOrder (spellMember fields) := by
  rw [spellMember_eq_map]
  exact List.pairwise_map.mpr h

theorem get_spellMessage (m : Value) (key : String) :
    (spellMessage m).get key =
      (m.get key).map fun v => if key = "content" then spellContent v else v := by
  cases m with
  | object fields =>
      rw [spellMessage, Value.get, lookupField_spellMember]
      simp only [Value.get, String.toList_inj]
  | _ => rfl

theorem spellBlock_result {b : Value} (h : optStr b "type" = some "tool_result".toList) :
    spellBlock b = spellMessage b := by
  cases b with
  | object fields => rw [spellBlock, if_pos h, spellMessage]
  | _ => rfl

theorem spellBlock_other {b : Value} (h : optStr b "type" ≠ some "tool_result".toList) :
    spellBlock b = b := by
  cases b with
  | object fields => rw [spellBlock, if_neg h]
  | _ => rfl

/-- Two objects with the same members, but for the spelling of their content. -/
theorem spellMessage_eq_iff {depth : Nat} {b : Value} (kept : b.Kept depth)
    (hObject : ∃ fs, b = .object fs) {fields : List (String × Value)} :
    spellMessage (obj fields) = spellMessage b ↔
      ∀ key, (spellMessage (obj fields)).get key = (spellMessage b).get key := by
  refine ⟨fun h key => by rw [h], fun h => ?_⟩
  obtain ⟨fs, rfl⟩ := hObject
  refine congrArg Value.object ((inOrder_spellMember (inOrder_members fields)).ext
    (inOrder_spellMember kept.2.1) fun k => ?_)
  have hKey := h (String.ofList k)
  simpa [spellMessage, obj, Value.get] using hKey

/-! ### Blocks of each type -/

theorem parseBlock_marked {b : Value} (marked : (b.get "cache_control").isSome = true)
    (other : optStr b "type" ≠ some "text".toList) :
    parseBlock b = .ok (.native "anthropic".toList b) := by
  rw [parseBlock_eq, readBlock, if_pos ⟨marked, other⟩]

theorem parseBlock_kind {b : Value} {kind : Str} (hKind : optStr b "type" = some kind)
    (plain : kind = "text".toList ∨ b.get "cache_control" = none) :
    parseBlock b = blockOf b kind ((b.get "content").map parseContent) := by
  have hNot : ¬((b.get "cache_control").isSome = true ∧ optStr b "type" ≠ some "text".toList) := by
    rintro ⟨hMark, hOther⟩
    rcases plain with rfl | hNone
    · exact hOther hKind
    · rw [hNone] at hMark
      cases hMark
  rw [parseBlock_eq, readBlock, if_neg hNot, hKind]

theorem blockOf_text (b : Value) (content : Option (Except WireError (List ContentBlock))) :
    blockOf b "text".toList content =
      match b.get "cache_control" with
      | some control =>
          if optStr control "type" = some "ephemeral".toList then
            .ok (.cachedText ((optStr b "text").getD []) (optStr control "ttl"))
          else .ok (.native "anthropic".toList b)
      | none => .ok (.text ((optStr b "text").getD [])) := by
  rw [blockOf]
  exact if_pos rfl

theorem blockOf_toolResult (b : Value) (content : Option (Except WireError (List ContentBlock))) :
    blockOf b "tool_result".toList content = (content.getD (.ok [])).map fun content =>
      .toolResult ((optStr b "tool_use_id").getD []) content (optBool b "is_error") := by
  rw [blockOf, if_neg (by decide), if_neg (by decide), if_neg (by decide), if_pos rfl]

@[simp] theorem emitBlock_native (raw : Value) :
    emitBlock (.native "anthropic".toList raw) = raw := by
  rw [emitBlock, if_pos rfl]

theorem emitBlocks_eq_map (blocks : List ContentBlock) : emitBlocks blocks = blocks.map emitBlock := by
  induction blocks with
  | nil => rfl
  | cons b rest ih => rw [emitBlocks, ih, List.map_cons]

theorem emitBlock_result (id : Str) (blocks : List ContentBlock) (isError : Bool) :
    emitBlock (.toolResult id blocks isError) = resultBlock id (emitSystem blocks) isError := by
  rw [emitBlock, resultBlock, emitSystem, emitBlocks_eq_map]

theorem type_resultBlock (id : Str) (content : Value) (isError : Bool) :
    optStr (resultBlock id content isError) "type" = some "tool_result".toList := by
  cases isError <;> simp [resultBlock]

theorem type_spellBlock (b : Value) : optStr (spellBlock b) "type" = optStr b "type" := by
  by_cases hResult : optStr b "type" = some "tool_result".toList
  · rw [spellBlock_result hResult, optStr, get_spellMessage, optStr]
    cases b.get "type" <;> rfl
  · rw [spellBlock_other hResult]

theorem type_textBlock (t : Str) : optStr (textBlock t) "type" = some "text".toList := by
  simp [textBlock]

theorem parseBlock_textBlock (t : Str) : parseBlock (textBlock t) = .ok (.text t) := by
  have hNone : (textBlock t).get "cache_control" = none := by simp [textBlock]
  have hText : optStr (textBlock t) "text" = some t := by simp [textBlock]
  rw [parseBlock_kind (type_textBlock t) (.inl rfl), blockOf_text, hNone, hText]
  rfl

theorem emitBlock_text (t : Str) : emitBlock (.text t) = textBlock t := by rw [emitBlock, textBlock]

theorem spellBlock_textBlock (t : Str) : spellBlock (textBlock t) = textBlock t :=
  spellBlock_other (by rw [type_textBlock]; decide)

/-- What is spelled as a text block is one. -/
theorem eq_textBlock {b : Value} {t : Str} (h : spellBlock (textBlock t) = spellBlock b) :
    b = textBlock t := by
  rw [spellBlock_textBlock] at h
  have hKind : optStr b "type" = some "text".toList := by
    rw [← type_spellBlock, ← h, type_textBlock]
  rw [h, spellBlock_other (by rw [hKind]; decide)]

/-! ### Lists of blocks -/

/-- A block comes through exactly when it is one of those that are kept. -/
def Decided (b : Value) : Prop :=
  ∀ block, parseBlock b = .ok block → (spellBlock (emitBlock block) = spellBlock b ↔ BlockKept b)

theorem blocks_relayed_iff {items : List Value} {blocks : List ContentBlock}
    (h : parseBlocks items = .ok blocks) (decided : ∀ b ∈ items, Decided b) :
    (blocks.map emitBlock).map spellBlock = items.map spellBlock ↔ ∀ b ∈ items, BlockKept b := by
  induction items generalizing blocks with
  | nil =>
      cases h
      simp
  | cons b rest ih =>
      rw [parseBlocks] at h
      obtain ⟨block, hBlock, h⟩ := bind_eq_ok.mp h
      obtain ⟨more, hMore, h⟩ := bind_eq_ok.mp h
      cases h
      obtain ⟨hFirst, hRest⟩ := List.forall_mem_cons.mp decided
      rw [List.map_cons, List.map_cons, List.map_cons, List.cons.injEq, List.forall_mem_cons,
        hFirst block hBlock, ih hMore hRest]

/-- Plain text stands in the place of plain text. -/
theorem texts_of_plain {items : List Value} {blocks : List ContentBlock}
    (h : parseBlocks items = .ok blocks) (decided : ∀ b ∈ items, Decided b)
    (plain : blocks.all isPlainText = true) (kept : ∀ b ∈ items, BlockKept b) :
    ∀ b ∈ items, ∃ t, b = textBlock t := by
  induction items generalizing blocks with
  | nil => exact fun b hb => nomatch hb
  | cons b rest ih =>
      rw [parseBlocks] at h
      obtain ⟨block, hBlock, h⟩ := bind_eq_ok.mp h
      obtain ⟨more, hMore, h⟩ := bind_eq_ok.mp h
      cases h
      rw [List.all_cons, Bool.and_eq_true] at plain
      obtain ⟨hFirst, hRest⟩ := List.forall_mem_cons.mp decided
      obtain ⟨hKept, hMoreKept⟩ := List.forall_mem_cons.mp kept
      refine List.forall_mem_cons.mpr ⟨?_, ih hMore hRest plain.2 hMoreKept⟩
      cases block with
      | text t => exact ⟨t, eq_textBlock (emitBlock_text t ▸ (hFirst _ hBlock).mpr hKept)⟩
      | _ => cases plain.1

theorem plain_of_texts {items : List Value} {blocks : List ContentBlock}
    (h : parseBlocks items = .ok blocks) (texts : ∀ b ∈ items, ∃ t, b = textBlock t) :
    blocks.all isPlainText = true := by
  induction items generalizing blocks with
  | nil =>
      cases h
      rfl
  | cons b rest ih =>
      rw [parseBlocks] at h
      obtain ⟨block, hBlock, h⟩ := bind_eq_ok.mp h
      obtain ⟨more, hMore, h⟩ := bind_eq_ok.mp h
      cases h
      obtain ⟨⟨t, rfl⟩, hRest⟩ := List.forall_mem_cons.mp texts
      cases (parseBlock_textBlock t).symm.trans hBlock
      rw [List.all_cons, ih hMore hRest]
      rfl

/-- Content that is written as one string where it is all plain text. -/
def TextKept (c : Value) : Prop :=
  (∃ s, c = .string s) ∨ ∃ items, c = .array items ∧ (∀ b ∈ items, BlockKept b) ∧ ¬Joined items

theorem text_relayed_iff {c : Value} {blocks : List ContentBlock} (h : parseContent c = .ok blocks)
    (decided : ∀ items, c = .array items → ∀ b ∈ items, Decided b) :
    spellContent (emitSystem blocks) = spellContent c ↔ TextKept c := by
  cases c with
  | string s =>
      cases h
      refine iff_of_true ?_ (.inl ⟨s, rfl⟩)
      simp [emitSystem, isPlainText, plainText]
  | null =>
      cases h
      refine iff_of_false (fun hEq => ?_) ?_
      · cases hEq
      · rintro (⟨s, hs⟩ | ⟨items, hItems, -⟩)
        · cases hs
        · cases hItems
  | array items =>
      rw [parseContent] at h
      have hDecided := decided items rfl
      have hAll := blocks_relayed_iff h hDecided
      by_cases hPlain : blocks.all isPlainText = true
      · have hWritten : spellContent (emitSystem blocks) =
            .array [textBlock (blocks.flatMap plainText)] := by
          rw [emitSystem, if_pos hPlain, spellContent]
        rw [hWritten, spellContent, Value.array.injEq, spellBlocks_eq_map]
        constructor
        · intro hEq
          obtain ⟨b, rfl, hBlock⟩ := List.map_eq_singleton_iff.mp hEq.symm
          obtain rfl := eq_textBlock ((spellBlock_textBlock _).trans hBlock.symm)
          refine .inr ⟨_, rfl, List.forall_mem_singleton.mpr (.text _), fun hJoined => ?_⟩
          exact hJoined.2 _ rfl
        · rintro (⟨s, hs⟩ | ⟨items', hItems, hKept, hApart⟩)
          · cases hs
          · cases hItems
            have hTexts := texts_of_plain h hDecided hPlain hKept
            obtain ⟨b, rfl⟩ : ∃ b, items = [b] :=
              not_forall_not.mp fun hNone => hApart ⟨hTexts, hNone⟩
            obtain ⟨t, rfl⟩ := hTexts b List.mem_cons_self
            rw [parseBlocks, parseBlock_textBlock] at h
            cases h
            simp [plainText, spellBlock_textBlock]
      · have hWritten : spellContent (emitSystem blocks) =
            .array ((blocks.map emitBlock).map spellBlock) := by
          rw [emitSystem, if_neg hPlain, spellContent, spellBlocks_eq_map]
        rw [hWritten, spellContent, Value.array.injEq, spellBlocks_eq_map, hAll]
        constructor
        · exact fun hKept => .inr ⟨items, rfl, hKept, fun hJoined =>
            hPlain (plain_of_texts h hJoined.1)⟩
        · rintro (⟨s, hs⟩ | ⟨items', hItems, hKept, -⟩)
          · cases hs
          · cases hItems
            exact hKept
  | _ => cases h

theorem object_of_optStr {b : Value} {key : String} {s : Str} (h : optStr b key = some s) :
    ∃ fs, b = .object fs := by
  cases b with
  | object fields => exact ⟨fields, rfl⟩
  | _ => cases h

/-- The type of a block, put in again. -/
theorem emitBlock_carried {depth : Nat} {b : Value} {kind : Str} (kept : b.Kept depth)
    (hKind : optStr b "type" = some kind) : emitBlock (carriedBlock kind b) = b := by
  obtain ⟨fields, rfl⟩ := object_of_optStr hKind
  rw [carriedBlock, emitBlock_native]
  refine congrArg Value.object ((kept.2.1.insertField _ _).ext kept.2.1 fun k => ?_)
  rw [lookupField_insertField]
  split_ifs with hKey
  · subst hKey
    exact (optStr_eq_some.mp hKind).symm
  · rfl

theorem blockOf_other {b : Value} {kind : Str}
    (other : kind ∉ ["text", "image", "tool_use", "tool_result", "thinking"].map String.toList)
    (content : Option (Except WireError (List ContentBlock))) :
    blockOf b kind content = .ok (carriedBlock kind b) := by
  simp only [List.map_cons, List.map_nil, List.mem_cons, List.not_mem_nil, or_false, not_or] at other
  obtain ⟨hText, hImage, hUse, hResult, hThinking⟩ := other
  rw [blockOf, if_neg hText, if_neg hImage, if_neg hUse, if_neg hResult, if_neg hThinking]

theorem content_resultBlock (id : Str) (c : Value) (isError : Bool) :
    (resultBlock id c isError).get "content" = some c := by
  cases isError <;> simp [resultBlock]

theorem get_resultBlock {key : String} (hKey : key ≠ "content") (id : Str) (c c' : Value)
    (isError : Bool) : (resultBlock id c isError).get key = (resultBlock id c' isError).get key := by
  cases isError <;> simp [resultBlock, Ne.symm hKey]

/-- An object comes through with its content. -/
theorem around_relayed_iff {depth : Nat} {b c : Value} {around : Value → List (String × Value)}
    (kept : b.Kept depth) (hObject : ∃ fs, b = .object fs)
    (hContent : ∀ c, (obj (around c)).get "content" = some c)
    (hOther : ∀ c c' key, key ≠ "content" →
      (obj (around c)).get key = (obj (around c')).get key) :
    spellMessage (obj (around c)) = spellMessage b ↔
      ∃ c', spellContent c = spellContent c' ∧ b = obj (around c') := by
  refine (spellMessage_eq_iff kept hObject).trans ⟨fun h => ?_, ?_⟩
  · simp only [get_spellMessage] at h
    have hSame := h "content"
    rw [hContent] at hSame
    simp only [if_true, Option.map_some] at hSame
    obtain ⟨c', hc', hSpell⟩ := Option.map_eq_some_iff.mp hSame.symm
    refine ⟨c', hSpell.symm, (kept.ext hObject fun key => ?_).symm⟩
    by_cases hKey : key = "content"
    · rw [hKey, hContent, hc']
    · have hRest := h key
      simp only [if_neg hKey, Option.map_id'] at hRest
      rw [hOther c' c key hKey]
      exact hRest
  · rintro ⟨c', hSpell, rfl⟩ key
    rw [get_spellMessage, get_spellMessage]
    by_cases hKey : key = "content"
    · rw [hKey, hContent, hContent]
      simp only [if_true, Option.map_some, hSpell]
    · rw [hOther c c' key hKey]

theorem result_relayed_iff {depth : Nat} {b c : Value} {id : Str} {isError : Bool}
    (kept : b.Kept depth) (hKind : optStr b "type" = some "tool_result".toList) :
    spellBlock (resultBlock id c isError) = spellBlock b ↔
      ∃ c', spellContent c = spellContent c' ∧ b = resultBlock id c' isError := by
  rw [spellBlock_result hKind, spellBlock_result (type_resultBlock id c isError)]
  exact around_relayed_iff kept (object_of_optStr hKind)
    (fun c => content_resultBlock id c isError)
    (fun c c' key hKey => get_resultBlock hKey id c c' isError)

theorem parseBlock_resultBlock (id : Str) (c : Value) (isError : Bool) :
    parseBlock (resultBlock id c isError) =
      (parseContent c).map fun content => .toolResult id content isError := by
  have hNone : (resultBlock id c isError).get "cache_control" = none := by
    cases isError <;> simp [resultBlock]
  have hId : optStr (resultBlock id c isError) "tool_use_id" = some id := by
    cases isError <;> simp [resultBlock]
  have hError : optBool (resultBlock id c isError) "is_error" = isError := by
    cases isError <;> simp [resultBlock, optBool, Value.asBool]
  rw [parseBlock_kind (type_resultBlock id c isError) (.inr hNone), blockOf_toolResult,
    content_resultBlock, hId, hError]
  rfl

/-! ### Single blocks -/

/-- A block that is written from its own members. -/
def isWritten : ContentBlock → Bool
  | .native .. | .toolResult .. => false
  | _ => true

theorem kept_emitBlock {block : ContentBlock} (h : isWritten block = true) :
    BlockKept (emitBlock block) ∧ optStr (emitBlock block) "type" ≠ some "tool_result".toList := by
  cases block with
  | text t => exact ⟨emitBlock_text t ▸ .text t, by simp [emitBlock]⟩
  | cachedText t ttl =>
      have hKept := BlockKept.cachedText t ttl
      cases ttl <;> exact ⟨by simpa [emitBlock, optField] using hKept, by simp [emitBlock]⟩
  | image mediaType data url =>
      cases url with
      | some url => exact ⟨by simpa [emitBlock] using BlockKept.imageUrl url, by simp [emitBlock]⟩
      | none =>
          have hKept := BlockKept.imageData (mediaType.getD "image/png".toList) (data.getD [])
          exact ⟨by simpa [emitBlock] using hKept, by simp [emitBlock]⟩
  | toolUse id name input =>
      exact ⟨by simpa [emitBlock] using BlockKept.toolUse id name input, by simp [emitBlock]⟩
  | thinking t signature =>
      have hKept := BlockKept.thinking t signature
      cases signature <;> exact ⟨by simpa [emitBlock, optField] using hKept, by simp [emitBlock]⟩
  | _ => cases h

/-- Only a block without a kind of its own is carried. -/
theorem kept_of_native {b raw : Value} {format : Str}
    (h : parseBlock b = .ok (.native format raw)) : BlockKept b := by
  by_cases hMark : (b.get "cache_control").isSome = true ∧ optStr b "type" ≠ some "text".toList
  · exact .marked hMark.1 hMark.2
  cases hKind : optStr b "type" with
  | none =>
      rw [parseBlock_eq, readBlock, if_neg hMark, hKind] at h
      cases h
  | some kind =>
      rw [parseBlock_eq, readBlock, if_neg hMark, hKind] at h
      by_cases hText : kind = "text".toList
      · subst hText
        simp only [blockOf_text] at h
        cases hControl : b.get "cache_control" with
        | none =>
            rw [hControl] at h
            cases h
        | some control =>
            rw [hControl] at h
            dsimp only at h
            split_ifs at h with hEphemeral
            · cases h
            · exact .otherMark hKind hControl hEphemeral
      · refine .unmodelled hKind fun hMem => ?_
        simp only [List.map_cons, List.map_nil, List.mem_cons, List.not_mem_nil, or_false] at hMem
        dsimp only at h
        rcases hMem with rfl | rfl | rfl | rfl | rfl
        · exact hText rfl
        · rw [blockOf, if_neg (by decide), if_pos rfl] at h
          dsimp only at h
          split_ifs at h <;> cases h
        · rw [blockOf, if_neg (by decide), if_neg (by decide), if_pos rfl] at h
          cases h
        · rw [blockOf_toolResult] at h
          cases hContent : ((b.get "content").map parseContent).getD (.ok []) <;>
            rw [hContent] at h <;> cases h
        · rw [blockOf, if_neg (by decide), if_neg (by decide), if_neg (by decide),
            if_neg (by decide), if_pos rfl] at h
          cases h

/-- Only a result is read as one. -/
theorem type_of_result {b : Value} {id : Str} {blocks : List ContentBlock} {isError : Bool}
    (h : parseBlock b = .ok (.toolResult id blocks isError)) :
    optStr b "type" = some "tool_result".toList := by
  by_cases hMark : (b.get "cache_control").isSome = true ∧ optStr b "type" ≠ some "text".toList
  · rw [parseBlock_marked hMark.1 hMark.2] at h
    cases h
  cases hKind : optStr b "type" with
  | none =>
      rw [parseBlock_eq, readBlock, if_neg hMark, hKind] at h
      cases h
  | some kind =>
      rw [parseBlock_eq, readBlock, if_neg hMark, hKind] at h
      dsimp only at h
      by_contra hOther
      have hNot : kind ≠ "tool_result".toList := fun h => hOther (congrArg some h)
      unfold blockOf at h
      dsimp only at h
      rw [if_neg hNot] at h
      split_ifs at h
      · split at h
        · split_ifs at h <;> cases h
        · cases h
      · cases h
      · cases h
      · cases h
      · cases h
      · unfold carriedBlock at h
        cases b <;> cases h

theorem parseBlock_imageUrl (url : Str) :
    parseBlock (emitBlock (.image none none (some url))) = .ok (.image none none (some url)) := by
  rw [parseBlock_eq]
  simp [emitBlock, readBlock, blockOf]

theorem parseBlock_imageData (mediaType data : Str) :
    parseBlock (emitBlock (.image (some mediaType) (some data) none)) =
      .ok (.image (some mediaType) (some data) none) := by
  rw [parseBlock_eq]
  simp [emitBlock, readBlock, blockOf]

theorem kept_resultBlock {c : Value} (h : TextKept c) (id : Str) (isError : Bool) :
    BlockKept (resultBlock id c isError) := by
  rcases h with ⟨s, rfl⟩ | ⟨items, rfl, hKept, hApart⟩
  · exact .resultText id s isError
  · exact .resultBlocks hKept hApart

theorem block_decided {depth : Nat} {b : Value} (kept : b.Kept depth) : Decided b := by
  induction depth using Nat.strong_induction_on generalizing b with
  | _ depth ih =>
  have hResult {id : Str} {c : Value} {isError : Bool} {blocks : List ContentBlock}
      (kept : (resultBlock id c isError).Kept depth) (hParse : parseContent c = .ok blocks) :
      spellContent (emitSystem blocks) = spellContent c ↔ TextKept c := by
    refine text_relayed_iff hParse fun items hItems b hb => ?_
    have hContent := kept.get (content_resultBlock id c isError)
    rw [hItems] at hContent
    have hPos := hContent.1
    exact ih (depth - 1 - 1) (by omega) (itemsKept_iff.mp hContent.2 b hb)
  intro block hParse
  constructor
  · intro hEq
    by_cases hWritten : isWritten block = true
    · obtain ⟨hKept, hType⟩ := kept_emitBlock hWritten
      have hOther : optStr b "type" ≠ some "tool_result".toList := by
        rwa [← type_spellBlock, ← hEq, type_spellBlock]
      rw [spellBlock_other hType, spellBlock_other hOther] at hEq
      exact hEq ▸ hKept
    · cases block with
      | native format raw => exact kept_of_native hParse
      | toolResult id blocks isError =>
          rw [emitBlock_result] at hEq
          obtain ⟨c, hSpell, rfl⟩ := (result_relayed_iff kept (type_of_result hParse)).mp hEq
          rw [parseBlock_resultBlock] at hParse
          cases hContent : parseContent c with
          | error e =>
              rw [hContent] at hParse
              cases hParse
          | ok blocks' =>
              rw [hContent] at hParse
              cases hParse
              exact kept_resultBlock ((hResult kept hContent).mp hSpell) id isError
      | _ => exact absurd rfl hWritten
  · intro hKept
    have hText {id : Str} {c : Value} {isError : Bool} (kept : (resultBlock id c isError).Kept depth)
        (hText : TextKept c) (hParse : parseBlock (resultBlock id c isError) = .ok block) :
        spellBlock (emitBlock block) = spellBlock (resultBlock id c isError) := by
      rw [parseBlock_resultBlock] at hParse
      cases hContent : parseContent c with
      | error e =>
          rw [hContent] at hParse
          cases hParse
      | ok blocks =>
          rw [hContent] at hParse
          cases hParse
          rw [emitBlock_result]
          exact (result_relayed_iff kept (type_resultBlock _ _ _)).mpr
            ⟨c, (hResult kept hContent).mpr hText, rfl⟩
    have hAgain (written : ContentBlock) (hRead : parseBlock (emitBlock written) = .ok written)
        (hSame : emitBlock written = b) : spellBlock (emitBlock block) = spellBlock b := by
      subst hSame
      cases hRead.symm.trans hParse
      rfl
    cases hKept with
    | marked hMark hOther =>
        cases (parseBlock_marked hMark hOther).symm.trans hParse
        rw [emitBlock_native]
    | otherMark hText hMark hOther =>
        rw [parseBlock_kind hText (.inl rfl), blockOf_text, hMark] at hParse
        dsimp only at hParse
        rw [if_neg hOther] at hParse
        cases hParse
        rw [emitBlock_native]
    | unmodelled hKind hOther =>
        by_cases hMark : (b.get "cache_control").isSome = true
        · have hNotText : optStr b "type" ≠ some "text".toList := fun hText =>
            hOther (by simp [Option.some.inj (hKind.symm.trans hText)])
          cases (parseBlock_marked hMark hNotText).symm.trans hParse
          rw [emitBlock_native]
        · rw [Bool.not_eq_true, Option.isSome_eq_false_iff, Option.isNone_iff_eq_none] at hMark
          rw [parseBlock_kind hKind (.inr hMark), blockOf_other hOther] at hParse
          cases hParse
          rw [emitBlock_carried kept hKind]
    | text t => exact hAgain (.text t) (parseBlock_emitBlock rfl) (emitBlock_text t)
    | cachedText t ttl =>
        refine hAgain (.cachedText t ttl) (parseBlock_emitBlock rfl) ?_
        cases ttl <;> simp [emitBlock, optField]
    | imageUrl url => exact hAgain _ (parseBlock_imageUrl url) (by simp [emitBlock])
    | imageData mediaType data =>
        exact hAgain _ (parseBlock_imageData mediaType data) (by simp [emitBlock])
    | toolUse id name input =>
        exact hAgain (.toolUse id name input) (parseBlock_emitBlock rfl) (by simp [emitBlock])
    | thinking t signature =>
        refine hAgain (.thinking t signature) (parseBlock_emitBlock rfl) ?_
        cases signature <;> simp [emitBlock, optField]
    | resultText id s isError => exact hText kept (.inl ⟨s, rfl⟩) hParse
    | resultBlocks hItems hApart => exact hText kept (.inr ⟨_, rfl, hItems, hApart⟩) hParse

end Gateway.Wire.Anthropic
