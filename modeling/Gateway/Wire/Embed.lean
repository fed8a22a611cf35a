import Gateway.Wire.OpenaiChat.Request

/-! Embeddings: what a request asks for and what an answer gives, between the
dialects. -/
namespace Gateway.Wire.Embed

open Json

inductive EmbedPart where
  | text (text : Str)
  | image (mediaType data url : Option Str)
  | audio (format : Option Str) (data : Str)
  deriving DecidableEq

/-- What one vector is made for. -/
structure EmbedInput where
  parts : List EmbedPart
  deriving DecidableEq

namespace EmbedInput

def asSingleText (i : EmbedInput) : Option Str :=
  match i.parts with
  | [.text text] => some text
  | _ => none

def hasImage (i : EmbedInput) : Bool :=
  i.parts.any fun
    | .image .. => true
    | _ => false

def hasAudio (i : EmbedInput) : Bool :=
  i.parts.any fun
    | .audio .. => true
    | _ => false

theorem asSingleText_eq_some {i : EmbedInput} {text : Str} :
    i.asSingleText = some text ↔ i.parts = [.text text] := by
  unfold asSingleText
  constructor
  · intro h
    split at h
    · next hParts => cases h; exact hParts
    · cases h
  · intro h
    rw [h]

end EmbedInput

inductive EncodingFormat where
  | float
  | base64
  deriving DecidableEq

structure EmbedRequest where
  model : Str := []
  inputs : List EmbedInput := []
  inputType : Option Str := none
  outputDimensions : Option Nat := none
  truncate : Option Bool := none
  encodingFormat : Option EncodingFormat := none
  cohereEmbeddingTypes : Option (List Str) := none
  geminiBatch : Bool := false
  openaiContent : Bool := false
  deriving DecidableEq

structure EmbedUsage where
  inputTokens : Nat := 0
  imageUnits : Nat := 0
  deriving DecidableEq

/-- The vectors are of some type of numbers. -/
structure EmbedResponse (F : Type) where
  model : Str
  embeddings : List (List F)
  usage : EmbedUsage

structure EmbedEmitOptions where
  targetModel : Str

/-- The upstream's model, where one is set. -/
def EmbedRequest.modelFor (req : EmbedRequest) (opts : EmbedEmitOptions) : Str :=
  if opts.targetModel.isEmpty then req.model else opts.targetModel

/-- An image inline. The gateway fetches nothing. -/
def imageToDataUri (mediaType data : Option Str) : Except WireError Str :=
  match data with
  | some data => .ok (buildDataUrl mediaType data)
  | none => .error (.invalidRequest
      ("this upstream requires inline base64 images; URL images are not fetched by the gateway"
        ).toList)

def inputTypeToGemini (t : Str) : Option Str :=
  if t = "query".toList then some "RETRIEVAL_QUERY".toList
  else if t = "document".toList then some "RETRIEVAL_DOCUMENT".toList
  else if t = "classification".toList then some "CLASSIFICATION".toList
  else if t = "clustering".toList then some "CLUSTERING".toList
  else none

/-- In any case of its letters. -/
def geminiToInputType (t : Str) : Option Str :=
  let t := t.map Char.toUpper
  if t = "RETRIEVAL_QUERY".toList ∨ t = "QUESTION_ANSWERING".toList then some "query".toList
  else if t = "RETRIEVAL_DOCUMENT".toList ∨ t = "FACT_VERIFICATION".toList then
    some "document".toList
  else if t = "CLASSIFICATION".toList then some "classification".toList
  else if t = "CLUSTERING".toList then some "clustering".toList
  else none

def inputTypeToCohere (t : Option Str) : Str :=
  if t = some "query".toList then "search_query".toList
  else if t = some "classification".toList then "classification".toList
  else if t = some "clustering".toList then "clustering".toList
  else "search_document".toList

section

variable {ε α β : Type}

/-- The results of all elements, or the first error. -/
theorem mapM_eq_ok {f : α → Except ε β} {xs : List α} {ys : List β} :
    xs.mapM f = .ok ys ↔ List.Forall₂ (f · = .ok ·) xs ys := by
  induction xs generalizing ys with
  | nil => simp [pure, Except.pure, eq_comm]
  | cons x rest ih =>
      simp only [List.mapM_cons, bind_eq_ok, ih, List.forall₂_cons_left_iff]
      constructor
      · rintro ⟨y, hHead, zs, hRest, hList⟩
        exact ⟨y, zs, hHead, hRest, (Except.ok.inj hList).symm⟩
      · rintro ⟨y, zs, hHead, hRest, rfl⟩
        exact ⟨y, hHead, zs, hRest, rfl⟩

theorem exists_left {R : α → β → Prop} {xs : List α} {ys : List β} (h : List.Forall₂ R xs ys)
    {y : β} (hy : y ∈ ys) : ∃ x ∈ xs, R x y := by
  induction h with
  | nil => cases hy
  | cons hHead _ ih =>
      rcases List.mem_cons.mp hy with rfl | hy
      · exact ⟨_, List.mem_cons_self, hHead⟩
      · obtain ⟨x, hx, hR⟩ := ih hy
        exact ⟨x, List.mem_cons_of_mem _ hx, hR⟩

theorem exists_right {R : α → β → Prop} {xs : List α} {ys : List β} (h : List.Forall₂ R xs ys)
    {x : α} (hx : x ∈ xs) : ∃ y ∈ ys, R x y :=
  exists_left (R := fun y x => R x y) h.flip hx

end

end Gateway.Wire.Embed
