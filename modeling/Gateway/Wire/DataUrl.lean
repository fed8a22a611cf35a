import Gateway.Wire.Anthropic.Request
import Gateway.Wire.Gemini.Request
import Gateway.Wire.OpenaiResponses.Request
import Gateway.Wire.Splitting

/-! Images in a request, by an address or inline in a data URL. Every upstream is
told the same image where the inline data is marked as base64. -/
namespace Gateway.Wire

open Json

namespace OpenaiChat

def imageFromUrl (url : Str) : ContentBlock :=
  match parseDataUrl url with
  | some (mediaType, data) => .image (some mediaType) (some data) none
  | none => .image none none (some url)

/-- One part of a user message; parts of other types are skipped. -/
def parseUserPart (p : Value) : Option ContentBlock :=
  match optStr p "type" with
  | none => none
  | some kind =>
      if kind = "text".toList ∨ kind = "input_text".toList then
        some (.text ((optStr p "text").getD []))
      else if kind = "image_url".toList then
        some (imageFromUrl (((p.get "image_url").bind (optStr · "url")).getD []))
      else none

end OpenaiChat

namespace OpenaiResponses

/-- A part of a user message; a block with no counterpart leaves none. -/
def emitUserPart : ContentBlock → Option Value
  | .text t => some (obj [("type", .string "input_text".toList), ("text", .string t)])
  | .cachedText t _ => some (obj [("type", .string "input_text".toList), ("text", .string t),
      ("prompt_cache_breakpoint", obj [("mode", .string "explicit".toList)])])
  | .image mediaType data url =>
      let u := match url, data with
        | some url, _ => some url
        | none, some data => some (buildDataUrl mediaType data)
        | none, none => none
      u.map fun u => obj [("type", .string "input_image".toList), ("image_url", .string u)]
  | _ => none

end OpenaiResponses

/-! ### What an upstream is told -/

def emitImage (f : WireFormat) (b : ContentBlock) : Option Value :=
  match f with
  | .anthropic => some (Anthropic.emitBlock b)
  | .openaiChat => OpenaiChat.emitUserPart b
  | .openaiResponses => OpenaiResponses.emitUserPart b
  | .gemini => Gemini.emitPart b

/-- Data with its media type, as a URL. -/
def inlineUrl (mediaType data : Option Str) : Option Str :=
  match mediaType, data with
  | some mediaType, some data => some (buildDataUrl (some mediaType) data)
  | _, _ => none

/-- The image that an emitted part names, as a URL. -/
def shownUrl (f : WireFormat) (v : Value) : Option Str :=
  match f with
  | .anthropic => (v.get "source").bind fun source =>
      if optStr source "type" = some "url".toList then optStr source "url"
      else inlineUrl (optStr source "media_type") (optStr source "data")
  | .openaiChat => (v.get "image_url").bind (optStr · "url")
  | .openaiResponses => optStr v "image_url"
  | .gemini =>
      match v.get "inline_data" with
      | some inline => inlineUrl (optStr inline "mime_type") (optStr inline "data")
      | none => (v.get "fileData").bind (optStr · "fileUri")

/-- A part of a request that names an image, and the block it is read as. -/
inductive RequestImage (url : Str) (b : ContentBlock) : Prop where
  | chat (p : Value) (kind : optStr p "type" = some "image_url".toList)
      (named : (p.get "image_url").bind (optStr · "url") = some url)
      (read : OpenaiChat.parseUserPart p = some b)
  | responses (p : Value) (kind : optStr p "type" = some "input_image".toList)
      (named : optStr p "image_url" = some url) (read : OpenaiResponses.parsePart p = some b)

/-- Both surfaces read an image the same way. -/
theorem RequestImage.block {url : Str} {b : ContentBlock} (h : RequestImage url b) :
    b = OpenaiChat.imageFromUrl url := by
  cases h with
  | chat p kind named read =>
      unfold OpenaiChat.parseUserPart at read
      rw [kind] at read
      dsimp only at read
      rw [if_neg (by decide), if_pos rfl, named, Option.getD_some] at read
      exact (Option.some.inj read).symm
  | responses p kind named read =>
      unfold OpenaiResponses.parsePart at read
      rw [kind] at read
      dsimp only at read
      rw [if_neg (by decide), if_pos rfl, named, Option.getD_some] at read
      rw [OpenaiChat.imageFromUrl]
      cases hParse : parseDataUrl url with
      | none =>
          rw [hParse] at read
          exact (Option.some.inj read).symm
      | some found =>
          rw [hParse] at read
          exact (Option.some.inj read).symm

/-- The URL of the image that is sent on. -/
def rebuiltUrl (url : Str) : Str :=
  match parseDataUrl url with
  | some (mediaType, data) => buildDataUrl (some mediaType) data
  | none => url

theorem shownUrl_emitImage (f : WireFormat) (url : Str) :
    (emitImage f (OpenaiChat.imageFromUrl url)).bind (shownUrl f) = some (rebuiltUrl url) := by
  unfold OpenaiChat.imageFromUrl rebuiltUrl
  cases parseDataUrl url with
  | none =>
      cases f <;>
        simp [emitImage, shownUrl, Anthropic.emitBlock, OpenaiChat.emitUserPart,
          OpenaiResponses.emitUserPart, Gemini.emitPart]
  | some pair =>
      cases f <;>
        simp [emitImage, shownUrl, inlineUrl, Anthropic.emitBlock, OpenaiChat.emitUserPart,
          OpenaiResponses.emitUserPart, Gemini.emitPart]

/-! ### The grammar -/

/-- What stands before the data ends with the marker, where there is data. -/
def Marked (url : Str) : Prop :=
  ∀ kind data, url = "data:".toList ++ kind ++ ',' :: data → ',' ∉ kind →
    ";base64".toList <:+ kind

theorem parseDataUrl_eq_some {url mediaType data : Str} :
    parseDataUrl url = some (mediaType, data) ↔
      ∃ kind, url = "data:".toList ++ kind ++ ',' :: data ∧ ',' ∉ kind ∧
        (stripSuffix ";base64".toList kind).getD kind = mediaType := by
  unfold parseDataUrl
  simp only [Option.bind_eq_bind, Option.bind_eq_some_iff, stripPrefix_eq_some,
    Prod.exists, splitOnce_eq_some, Option.pure_def, Option.some.injEq, Prod.mk.injEq]
  constructor
  · rintro ⟨_, rfl, kind, _, ⟨rfl, hComma⟩, hType, rfl⟩
    exact ⟨kind, (List.append_assoc _ _ _).symm, hComma, hType⟩
  · rintro ⟨kind, rfl, hComma, hType⟩
    exact ⟨_, List.append_assoc _ _ _, kind, data, ⟨rfl, hComma⟩, hType, rfl⟩

/-- A marked kind and the data are what a URL is built from. -/
theorem buildDataUrl_eq (mediaType data : Str) :
    buildDataUrl (some mediaType) data =
      "data:".toList ++ (mediaType ++ ";base64".toList) ++ ',' :: data := by
  rw [buildDataUrl, Option.getD_some, List.append_assoc, List.append_assoc, List.append_assoc,
    List.append_assoc]
  rfl

theorem rebuiltUrl_eq_iff (url : Str) : rebuiltUrl url = url ↔ Marked url := by
  unfold rebuiltUrl
  constructor
  · rintro hSame kind data rfl hComma
    by_contra hUnmarked
    have hParse : parseDataUrl ("data:".toList ++ kind ++ ',' :: data) = some (kind, data) :=
      parseDataUrl_eq_some.mpr
        ⟨kind, rfl, hComma, by rw [stripSuffix_eq_none.mpr hUnmarked, Option.getD_none]⟩
    rw [hParse] at hSame
    dsimp only at hSame
    -- the marker would stand where the comma does
    rw [buildDataUrl_eq, ← List.append_assoc, List.append_assoc _ (";base64".toList)] at hSame
    have hTail := List.append_cancel_left hSame
    exact absurd (List.cons.inj hTail).1 (by decide)
  · intro hMarked
    cases hParse : parseDataUrl url with
    | none => rfl
    | some pair =>
        obtain ⟨mediaType, data⟩ := pair
        obtain ⟨kind, hUrl, hComma, hType⟩ := parseDataUrl_eq_some.mp hParse
        obtain ⟨rest, rfl⟩ := hMarked kind data hUrl hComma
        rw [stripSuffix_append, Option.getD_some] at hType
        subst hType
        exact (buildDataUrl_eq rest data).trans hUrl.symm

/-- A URL that is accepted is built again from its parts, and every upstream is
told the image that the client named, exactly where the data is marked; a URL
that is built is read again exactly where its media type has no comma. -/
theorem image_url_kept_iff (url : Str) (mediaType : Option Str) (data : Str) :
    (((∀ kind payload, parseDataUrl url = some (kind, payload) →
          buildDataUrl (some kind) payload = url) ∧
        ∀ b, RequestImage url b → ∀ f, (emitImage f b).bind (shownUrl f) = some url) ↔
      Marked url) ∧
    (parseDataUrl (buildDataUrl mediaType data) = some (mediaType.getD "image/png".toList, data) ↔
      ',' ∉ mediaType.getD "image/png".toList) := by
  constructor
  · rw [← rebuiltUrl_eq_iff]
    constructor
    · rintro ⟨hBuilt, -⟩
      unfold rebuiltUrl
      split
      · next hParse => exact hBuilt _ _ hParse
      · rfl
    · intro hSame
      refine ⟨fun kind payload hParse => ?_, fun b hImage f => ?_⟩
      · rwa [rebuiltUrl, hParse] at hSame
      · rw [hImage.block, shownUrl_emitImage, hSame]
  · have hBuild : buildDataUrl mediaType data =
        buildDataUrl (some (mediaType.getD "image/png".toList)) data := rfl
    generalize mediaType.getD "image/png".toList = kind at hBuild ⊢
    rw [hBuild, buildDataUrl_eq]
    constructor
    · intro hParse hComma
      obtain ⟨before, hUrl, hNot, -⟩ := parseDataUrl_eq_some.mp hParse
      obtain rfl : kind ++ ";base64".toList = before :=
        List.append_cancel_left (List.append_cancel_right hUrl)
      exact hNot (List.mem_append_left _ hComma)
    · intro hComma
      refine parseDataUrl_eq_some.mpr ⟨kind ++ ";base64".toList, rfl, ?_, ?_⟩
      · simpa using hComma
      · rw [stripSuffix_append, Option.getD_some]

/-- Text in a data URL is accepted, and sent on as if it were base64. -/
theorem plain_data_misread :
    parseDataUrl "data:image/svg+xml,%3Csvg%3E".toList =
        some ("image/svg+xml".toList, "%3Csvg%3E".toList) ∧
      buildDataUrl (some "image/svg+xml".toList) "%3Csvg%3E".toList ≠
        "data:image/svg+xml,%3Csvg%3E".toList := by
  decide +kernel

end Gateway.Wire
