import Gateway.Wire.Embed.Requests

/-! What the request that an upstream gets says of the inputs. An emitter that
cannot say it fails. -/
namespace Gateway.Wire.Embed

open Json
open OpenaiChat (optField notMem_optField)

/-- A part as an upstream reads it; an image by its URL, or inline as one. -/
inductive Carried where
  | text (text : Str)
  | image (reference : Str)
  | audio (format : Option Str) (data : Str)
  deriving DecidableEq

inductive Carries : EmbedPart → Carried → Prop where
  | text (text : Str) : Carries (.text text) (.text text)
  | url (mediaType data : Option Str) (url : Str) :
      Carries (.image mediaType data (some url)) (.image url)
  | inline (mediaType : Option Str) (data : Str) (url : Option Str) :
      Carries (.image mediaType (some data) url) (.image (buildDataUrl mediaType data))
  | audio (format : Option Str) (data : Str) : Carries (.audio format data) (.audio format data)

/-- All the parts of an input, in order. -/
def CarriesAll (i : EmbedInput) (entry : List Carried) : Prop :=
  List.Forall₂ Carries i.parts entry

/-! ### Reading a request -/

def readBlock (block : Value) : Option Carried :=
  match optStr block "type" with
  | none => none
  | some kind =>
      if kind = "text".toList then (optStr block "text").map .text
      else if kind = "image_url".toList then
        ((optStr block "image_url").or ((block.get "image_url").bind (optStr · "url"))).map .image
      else if kind = "image_base64".toList then (optStr block "image_base64").map .image
      else if kind = "input_audio".toList then
        (block.get "input_audio").bind fun audio =>
          (optStr audio "data").map (.audio (optStr audio "format"))
      else none

def readContent (entry : Value) : Option (List Carried) :=
  (optArr entry "content").bind (·.mapM readBlock)

def readText (entry : Value) : Option (List Carried) := entry.asStr.map fun text => [.text text]

/-- A string, an object with content, or one with a text or an image. -/
def readOpenai (entry : Value) : Option (List Carried) :=
  (readText entry).or ((readContent entry).or
    (((optStr entry "text").map fun text => [.text text]).or
      ((optStr entry "image").map fun reference => [.image reference])))

def readGemini (entry : Value) : Option (List Carried) :=
  ((entry.get "content").bind (optArr · "parts")).bind
    (·.mapM fun part => (optStr part "text").map .text)

/-- The entries of a body. -/
def entries (f : EmbedFormat) (body : Value) : Option (List (List Carried)) :=
  match f with
  | .openaiEmbed => (optArr body "input").bind (·.mapM readOpenai)
  | .geminiEmbed => (optArr body "requests").bind (·.mapM readGemini)
  | .cohereEmbed =>
      ((optArr body "texts").bind (·.mapM readText)).or
        ((optArr body "inputs").bind (·.mapM readContent))
  | .voyageEmbed => (optArr body "inputs").bind (·.mapM readContent)
  | .ollamaEmbed => (optArr body "input").bind (·.mapM readText)

/-- What is read of each is read of all. -/
theorem mapM_read {α β γ : Type} {Emits : α → β → Prop} {Shows : α → γ → Prop}
    {read : β → Option γ} (hRead : ∀ a b, Emits a b → ∃ c, read b = some c ∧ Shows a c)
    {xs : List α} {ys : List β} (h : List.Forall₂ Emits xs ys) :
    ∃ cs, ys.mapM read = some cs ∧ List.Forall₂ Shows xs cs := by
  induction h with
  | nil => exact ⟨[], rfl, .nil⟩
  | cons hHead _ ih =>
      obtain ⟨c, hc, hShows⟩ := hRead _ _ hHead
      obtain ⟨cs, hcs, hAll⟩ := ih
      exact ⟨c :: cs, by simp [List.mapM_cons, hc, hcs], .cons hShows hAll⟩

/-- A block of each part, in one dialect, is an entry's content. -/
theorem readContent_of_blocks {emit : EmbedPart → Except WireError Value}
    (hBlock : ∀ p block, emit p = .ok block → ∃ c, readBlock block = some c ∧ Carries p c)
    {i : EmbedInput} {v : Value}
    (h : (do return obj [("content", .array (← i.parts.mapM emit))]) = Except.ok v) :
    ∃ e, readContent v = some e ∧ CarriesAll i e := by
  obtain ⟨blocks, hBlocks, hEntry⟩ := bind_eq_ok.mp h
  obtain ⟨e, hRead, hAll⟩ := mapM_read hBlock (mapM_eq_ok.mp hBlocks)
  cases hEntry
  exact ⟨e, by simp [readContent, hRead], hAll⟩

/-- Inputs of one text each are texts. -/
theorem readText_texts {inputs : List EmbedInput}
    (h : inputs.all (·.asSingleText.isSome) = true) :
    ∃ es, (inputs.map fun i => Value.string (i.asSingleText.getD [])).mapM readText = some es ∧
      List.Forall₂ CarriesAll inputs es := by
  have hRead : ∀ i v, i.asSingleText.isSome = true ∧ v = .string (i.asSingleText.getD []) →
      ∃ e, readText v = some e ∧ CarriesAll i e := by
    rintro i v ⟨hText, rfl⟩
    obtain ⟨text, hText⟩ := Option.isSome_iff_exists.mp hText
    refine ⟨[.text text], by simp [readText, hText], ?_⟩
    rw [CarriesAll, EmbedInput.asSingleText_eq_some.mp hText]
    exact .cons (.text text) .nil
  apply mapM_read hRead
  rw [List.forall₂_map_right_iff, List.forall₂_same]
  exact fun i hi => ⟨List.all_eq_true.mp h i hi, rfl⟩

/-! ### Each dialect -/

theorem readBlock_text (text : Str) : readBlock (textBlock text) = some (.text text) := by
  simp [readBlock, textBlock]

theorem readBlock_url {block named : Value} {reference : Str}
    (hKind : optStr block "type" = some "image_url".toList)
    (hGet : block.get "image_url" = some named)
    (hUrl : named = .string reference ∨ named = obj [("url", .string reference)]) :
    readBlock block = some (.image reference) := by
  rw [readBlock, hKind]
  dsimp only
  rw [if_neg (by decide), if_pos rfl, optStr, hGet, Option.bind_some, Option.bind_some]
  rcases hUrl with rfl | rfl
  · rfl
  · have hNone : (obj [("url", .string reference)]).asStr = none := rfl
    have hSome : optStr (obj [("url", .string reference)]) "url" = some reference := by simp
    rw [hNone, hSome]
    rfl

theorem readBlock_audio {block audio : Value} {format : Option Str} {data : Str}
    (hKind : optStr block "type" = some "input_audio".toList)
    (hGet : block.get "input_audio" = some audio) (hFormat : optStr audio "format" = format)
    (hData : optStr audio "data" = some data) :
    readBlock block = some (.audio format data) := by
  rw [readBlock, hKind]
  dsimp only
  rw [if_neg (by decide), if_neg (by decide), if_neg (by decide), if_pos rfl, hGet,
    Option.bind_some, hData, hFormat]
  rfl

theorem readText_obj (fields : List (String × Value)) : readText (obj fields) = none := rfl

namespace Openai

theorem carries_imageReference {p : EmbedPart} {reference : Str}
    (h : imageReference p = .ok reference) : Carries p (.image reference) := by
  unfold imageReference at h
  split at h
  · cases h
    exact .url _ _ _
  · cases h
    exact .inline _ _ _
  · cases h

theorem readBlock_contentPart (p : EmbedPart) (block : Value) (h : contentPart p = .ok block) :
    ∃ c, readBlock block = some c ∧ Carries p c := by
  cases p with
  | text text =>
      cases h
      exact ⟨_, readBlock_text text, .text text⟩
  | image mediaType data url =>
      obtain ⟨reference, hReference, hBlock⟩ := bind_eq_ok.mp h
      cases hBlock
      exact ⟨.image reference, readBlock_url (by simp) (by simp) (.inr rfl),
        carries_imageReference hReference⟩
  | audio format data =>
      cases h
      refine ⟨.audio format data, ?_, .audio format data⟩
      refine readBlock_audio (by simp) (by simp; rfl) ?_ ?_
      · cases format <;> simp [optField]
      · cases format <;> simp [optField]

theorem readOpenai_jinaItem (i : EmbedInput) (entry : Value) (h : jinaItem i = .ok entry) :
    ∃ e, readOpenai entry = some e ∧ CarriesAll i e := by
  unfold jinaItem at h
  unfold CarriesAll
  split at h
  · next text hParts =>
      cases h
      rw [hParts]
      exact ⟨[.text text], by simp [readOpenai, readText_obj, readContent], .cons (.text text) .nil⟩
  · next mediaType data url hParts =>
      obtain ⟨reference, hReference, hEntry⟩ := bind_eq_ok.mp h
      cases hEntry
      rw [hParts]
      exact ⟨[.image reference], by simp [readOpenai, readText_obj, readContent],
        .cons (carries_imageReference hReference) .nil⟩
  · cases h

theorem readOpenai_contentItem (i : EmbedInput) (entry : Value) (h : contentItem i = .ok entry) :
    ∃ e, readOpenai entry = some e ∧ CarriesAll i e := by
  obtain ⟨e, hRead, hAll⟩ := readContent_of_blocks readBlock_contentPart h
  refine ⟨e, ?_, hAll⟩
  obtain ⟨blocks, -, hEntry⟩ := bind_eq_ok.mp h
  cases hEntry
  rw [readOpenai, hRead]
  rfl

theorem entries_emitBody {req : EmbedRequest} {opts : EmbedEmitOptions} {body : Value}
    (h : emitBody req opts = .ok body) :
    ∃ es, entries .openaiEmbed body = some es ∧ List.Forall₂ CarriesAll req.inputs es := by
  obtain ⟨items, hItems, hBody⟩ := bind_eq_ok.mp h
  have hField : optArr body "input" = some items := by
    cases hBody
    cases req.outputDimensions <;> simp [optField]
  suffices ∃ es, items.mapM readOpenai = some es ∧ List.Forall₂ CarriesAll req.inputs es by
    simpa [entries, hField] using this
  unfold inputItems at hItems
  split_ifs at hItems with hText hContent
  · cases hItems
    obtain ⟨es, hRead, hAll⟩ := readText_texts hText
    refine ⟨es, ?_, hAll⟩
    rw [← hRead, List.mapM_map, List.mapM_map]
    rfl
  · exact mapM_read readOpenai_contentItem (mapM_eq_ok.mp hItems)
  · exact mapM_read readOpenai_jinaItem (mapM_eq_ok.mp hItems)

end Openai

namespace Cohere

theorem readBlock_contentBlock (p : EmbedPart) (block : Value) (h : contentBlock p = .ok block) :
    ∃ c, readBlock block = some c ∧ Carries p c := by
  cases p with
  | text text =>
      cases h
      exact ⟨_, readBlock_text text, .text text⟩
  | image mediaType data url =>
      obtain ⟨uri, hUri, hBlock⟩ := bind_eq_ok.mp h
      cases hBlock
      cases data with
      | none => cases hUri
      | some data =>
          cases hUri
          exact ⟨.image _, readBlock_url (by simp) (by simp) (.inr rfl), .inline _ _ _⟩
  | audio format data => cases h

theorem entries_emitBody {req : EmbedRequest} {opts : EmbedEmitOptions} {body : Value}
    (h : emitBody req opts = .ok body) :
    ∃ es, entries .cohereEmbed body = some es ∧ List.Forall₂ CarriesAll req.inputs es := by
  obtain ⟨field, hField, hBody⟩ := bind_eq_ok.mp h
  have hOther {name : String} (hName : name = "texts" ∨ name = "inputs") :
      optArr body name = if field.1 = name then field.2.asArray else none := by
    cases hBody
    rcases hName with rfl | rfl <;> cases req.outputDimensions <;>
      by_cases hTruncate : req.truncate = some false <;> simp [optField, hTruncate]
  unfold inputField at hField
  split_ifs at hField with hText
  · cases hField
    obtain ⟨es, hRead, hAll⟩ := readText_texts hText
    exact ⟨es, by simp [entries, hOther, hRead], hAll⟩
  · obtain ⟨items, hItems, hField⟩ := bind_eq_ok.mp hField
    cases hField
    have hRead := fun i v => readContent_of_blocks (i := i) (v := v) readBlock_contentBlock
    obtain ⟨es, hRead, hAll⟩ := mapM_read hRead (mapM_eq_ok.mp hItems)
    exact ⟨es, by simp [entries, hOther, hRead], hAll⟩

end Cohere

namespace Gemini

/-- Of parts that are all text none is left out. -/
theorem mapM_textParts {parts : List EmbedPart}
    (h : ∀ p ∈ parts, ∃ text, p = .text text) :
    ∃ e, (parts.filterMap textPart).mapM (fun part => (optStr part "text").map Carried.text) = some e ∧
      List.Forall₂ Carries parts e := by
  induction parts with
  | nil => exact ⟨[], rfl, .nil⟩
  | cons p rest ih =>
      obtain ⟨text, rfl⟩ := h p List.mem_cons_self
      obtain ⟨e, hRead, hAll⟩ := ih fun q hq => h q (List.mem_cons_of_mem _ hq)
      refine ⟨.text text :: e, ?_, .cons (.text text) hAll⟩
      simp [textPart, List.mapM_cons, hRead]

theorem readGemini_requestItem (req : EmbedRequest) (opts : EmbedEmitOptions) (i : EmbedInput)
    (entry : Value) (h : requestItem req opts i = .ok entry) :
    ∃ e, readGemini entry = some e ∧ CarriesAll i e := by
  unfold requestItem at h
  split_ifs at h with hMedia
  cases h
  have hText : ∀ p ∈ i.parts, ∃ text, p = .text text := by
    intro p hp
    cases p with
    | text text => exact ⟨text, rfl⟩
    | image mediaType data url =>
        refine absurd ?_ hMedia
        rw [Bool.or_eq_true]
        exact .inl (List.any_eq_true.mpr ⟨_, hp, rfl⟩)
    | audio format data =>
        refine absurd ?_ hMedia
        rw [Bool.or_eq_true]
        exact .inr (List.any_eq_true.mpr ⟨_, hp, rfl⟩)
  obtain ⟨e, hRead, hAll⟩ := mapM_textParts hText
  refine ⟨e, ?_, hAll⟩
  have hContent : ∀ task dims, (obj ([("model", .string ("models/".toList ++ req.modelFor opts)),
      ("content", obj [("parts", .array (i.parts.filterMap textPart))])] ++
      optField "taskType" task ++ optField "outputDimensionality" dims)).get "content" =
      some (obj [("parts", .array (i.parts.filterMap textPart))]) := by
    intro task dims
    cases task <;> cases dims <;> simp [optField]
  rw [readGemini, hContent]
  simp [hRead]

theorem entries_emitBody {req : EmbedRequest} {opts : EmbedEmitOptions} {body : Value}
    (h : emitBody req opts = .ok body) :
    ∃ es, entries .geminiEmbed body = some es ∧ List.Forall₂ CarriesAll req.inputs es := by
  obtain ⟨items, hItems, hBody⟩ := bind_eq_ok.mp h
  cases hBody
  obtain ⟨es, hRead, hAll⟩ := mapM_read (readGemini_requestItem req opts) (mapM_eq_ok.mp hItems)
  exact ⟨es, by simp [entries, hRead], hAll⟩

end Gemini

namespace Voyage

theorem readBlock_contentBlock (p : EmbedPart) (block : Value) (h : contentBlock p = .ok block) :
    ∃ c, readBlock block = some c ∧ Carries p c := by
  unfold contentBlock at h
  split at h
  · cases h
    exact ⟨_, readBlock_text _, .text _⟩
  · obtain ⟨uri, hUri, hBlock⟩ := bind_eq_ok.mp h
    cases hUri
    cases hBlock
    exact ⟨.image _, by simp [readBlock], .inline _ _ _⟩
  · cases h
    exact ⟨.image _, readBlock_url (by simp) (by simp) (.inl rfl), .url _ _ _⟩
  · cases h
  · cases h

theorem entries_emitBody {req : EmbedRequest} {opts : EmbedEmitOptions} {body : Value}
    (h : emitBody req opts = .ok body) :
    ∃ es, entries .voyageEmbed body = some es ∧ List.Forall₂ CarriesAll req.inputs es := by
  obtain ⟨items, hItems, hBody⟩ := bind_eq_ok.mp h
  have hField : optArr body "inputs" = some items := by
    cases hBody
    generalize req.inputType.filter _ = task
    cases task <;> cases req.truncate <;> simp [optField]
  have hRead := fun i v => readContent_of_blocks (i := i) (v := v) readBlock_contentBlock
  obtain ⟨es, hRead, hAll⟩ := mapM_read hRead (mapM_eq_ok.mp hItems)
  exact ⟨es, by simp [entries, hField, hRead], hAll⟩

end Voyage

namespace Ollama

theorem entries_emitBody {req : EmbedRequest} {opts : EmbedEmitOptions} {body : Value}
    (h : emitBody req opts = .ok body) :
    ∃ es, entries .ollamaEmbed body = some es ∧ List.Forall₂ CarriesAll req.inputs es := by
  obtain ⟨items, hItems, hBody⟩ := bind_eq_ok.mp h
  have hField : optArr body "input" = some items := by
    cases hBody
    cases req.outputDimensions <;> cases req.truncate <;> simp [optField]
  have hText : ∀ i entry, textItem i = .ok entry →
      ∃ e, readText entry = some e ∧ CarriesAll i e := by
    intro i entry h
    unfold textItem at h
    split at h
    · next text hSingle =>
        cases h
        refine ⟨[.text text], rfl, ?_⟩
        rw [CarriesAll, EmbedInput.asSingleText_eq_some.mp hSingle]
        exact .cons (.text text) .nil
    · cases h
  obtain ⟨es, hRead, hAll⟩ := mapM_read hText (mapM_eq_ok.mp hItems)
  exact ⟨es, by simp [entries, hField, hRead], hAll⟩

end Ollama

/-- A request fails, or its body has one entry for each input, in order, with all
of the input's parts in order. -/
theorem emitted_entries (f : EmbedFormat) (req : EmbedRequest) (opts : EmbedEmitOptions) :
    (∃ e, emitRequest f req opts = .error e) ∨
      ∃ body es, emitRequest f req opts = .ok (body.render, jsonHeaders) ∧
        entries f body = some es ∧ List.Forall₂ CarriesAll req.inputs es := by
  rw [emitRequest, emitted]
  cases hBody : emitBody f req opts with
  | error e => exact .inl ⟨e, rfl⟩
  | ok body =>
      suffices ∃ es, entries f body = some es ∧ List.Forall₂ CarriesAll req.inputs es by
        obtain ⟨es, hEntries, hAll⟩ := this
        exact .inr ⟨body, es, rfl, hEntries, hAll⟩
      cases f with
      | openaiEmbed => exact Openai.entries_emitBody hBody
      | geminiEmbed => exact Gemini.entries_emitBody hBody
      | cohereEmbed => exact Cohere.entries_emitBody hBody
      | voyageEmbed => exact Voyage.entries_emitBody hBody
      | ollamaEmbed => exact Ollama.entries_emitBody hBody

end Gateway.Wire.Embed
