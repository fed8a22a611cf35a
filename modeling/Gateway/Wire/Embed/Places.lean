import Gateway.Wire.Embed.Answers

/-! The places of the vectors that a client gets. They are those of the inputs
where an upstream gives one vector for each. -/
namespace Gateway.Wire.Embed

open Json

section

variable {F : Type} (floats : Floats F)

/-- The number that an upstream writes on a row, or else its place. -/
def givenIndex (row : Value) (place : Nat) : Nat := ((row.get "index").bind Value.asU64).getD place

/-- The vectors an upstream gives, each with the input it is for. -/
def givenRows (upstream : EmbedFormat) (v : Value) : List (Nat × List F) :=
  match upstream with
  | .openaiEmbed | .voyageEmbed =>
      ((readRows floats givenIndex ((optArr v "data").getD [])).toOption).getD []
  | f =>
      match parseResponse floats f v with
      | .ok resp => resp.embeddings.zipIdx.map Prod.swap
      | .error _ => []

/-- The lists of vectors in a client's body: one for each encoding. -/
def received (surface : EmbedFormat) (body : Value) : List (List Value) :=
  match surface with
  | .openaiEmbed | .voyageEmbed =>
      [((optArr body "data").getD []).map fun row => (row.get "embedding").getD .null]
  | .geminiEmbed =>
      match optArr body "embeddings" with
      | some list => [list.map fun e => (e.get "values").getD .null]
      | none => [[((body.get "embedding").bind (·.get "values")).getD .null]]
  | .cohereEmbed =>
      let embeddings := (body.get "embeddings").getD .null
      ((optArr embeddings "float").toList ++ (optArr embeddings "base64").toList)
  | .ollamaEmbed => [(optArr body "embeddings").getD []]

/-- In every list a client has, there is a vector for each input, at its place: the
only one that the upstream gave for it. -/
def InPlace (upstream surface : EmbedFormat) (req : EmbedRequest) (v body : Value) : Prop :=
  received surface body ≠ [] ∧
    ∀ list ∈ received surface body, ∃ encode ∈ [plain floats, packed floats],
      list.map some = (List.range req.inputs.length).map fun i =>
        (Numbered.only (givenRows floats upstream v) i).map encode

/-- Some encoding is asked for. -/
def asksForVectors (surface : EmbedFormat) (req : EmbedRequest) : Prop :=
  surface = .cohereEmbed →
    "float".toList ∈ Cohere.requested req ∨ "base64".toList ∈ Cohere.requested req

variable {floats}

/-! ### What a client has -/

theorem dataList_rows (resp : EmbedResponse F) (req : EmbedRequest)
    (usage : List (String × Value)) :
    ((optArr (dataList floats resp req usage) "data").getD []).map
        (fun row => (row.get "embedding").getD .null) =
      resp.embeddings.map (encoding floats req) := by
  have hData : optArr (dataList floats resp req usage) "data" =
      some (resp.embeddings.zipIdx.map fun p => dataRow p.2 (encoding floats req p.1)) := by
    simp [dataList]
  rw [hData, Option.getD_some, List.map_map]
  have hRow : ((fun row : Value => (row.get "embedding").getD .null) ∘
      fun p : List F × Nat => dataRow p.2 (encoding floats req p.1)) =
      encoding floats req ∘ Prod.fst := by
    funext p
    simp [dataRow]
  refine (congrArg (resp.embeddings.zipIdx.map ·) hRow).trans ?_
  rw [← List.map_map, List.zipIdx_map_fst]

theorem encoding_mem (req : EmbedRequest) :
    encoding floats req ∈ [plain floats, packed floats] := by
  unfold encoding
  split_ifs <;> simp

theorem cohere_lists (resp : EmbedResponse F) (req : EmbedRequest) :
    received .cohereEmbed (Cohere.emitResponse floats resp req) =
      (if "float".toList ∈ Cohere.requested req then [resp.embeddings.map (plain floats)] else []) ++
        (if "base64".toList ∈ Cohere.requested req then [resp.embeddings.map (packed floats)]
          else []) := by
  have hEmbeddings : (Cohere.emitResponse floats resp req).get "embeddings" =
      some (Cohere.emitEmbeddings floats resp req) := by
    simp [Cohere.emitResponse]
  unfold received
  dsimp only
  rw [hEmbeddings, Option.getD_some]
  unfold Cohere.emitEmbeddings
  split_ifs <;> simp

/-- A client's lists are the vectors in their order, one way or the other. -/
theorem received_emitResponse {surface : EmbedFormat} {resp : EmbedResponse F}
    {req : EmbedRequest} {body : Value} (h : emitResponse floats surface resp req = .ok body) :
    (received surface body ≠ [] ↔ asksForVectors surface req) ∧
      ∀ list ∈ received surface body, ∃ encode ∈ [plain floats, packed floats],
        list = resp.embeddings.map encode := by
  cases surface with
  | openaiEmbed =>
      cases h
      simp only [received, Openai.emitResponse, dataList_rows]
      exact ⟨by simp [asksForVectors],
        fun list hList => ⟨_, encoding_mem req, List.mem_singleton.mp hList⟩⟩
  | voyageEmbed =>
      cases h
      simp only [received, Voyage.emitResponse, dataList_rows]
      exact ⟨by simp [asksForVectors],
        fun list hList => ⟨_, encoding_mem req, List.mem_singleton.mp hList⟩⟩
  | ollamaEmbed =>
      cases h
      have hList : received .ollamaEmbed (Ollama.emitResponse floats resp) =
          [resp.embeddings.map (plain floats)] := by
        simp [received, Ollama.emitResponse]
      rw [hList]
      exact ⟨by simp [asksForVectors], by simp⟩
  | cohereEmbed =>
      cases h
      rw [cohere_lists]
      constructor
      · rw [asksForVectors, imp_iff_right rfl]
        split_ifs with hFloat hPacked hPacked
        · exact iff_of_true (by simp) (.inl hFloat)
        · exact iff_of_true (by simp) (.inl hFloat)
        · exact iff_of_true (by simp) (.inr hPacked)
        · exact iff_of_false (by simp) (not_or.mpr ⟨hFloat, hPacked⟩)
      · intro list hList
        rcases List.mem_append.mp hList with hList | hList <;> split_ifs at hList
        · exact ⟨plain floats, by simp, List.mem_singleton.mp hList⟩
        · cases hList
        · exact ⟨packed floats, by simp, List.mem_singleton.mp hList⟩
        · cases hList
  | geminiEmbed =>
      have hList : received .geminiEmbed body = [resp.embeddings.map (plain floats)] := by
        unfold emitResponse Gemini.emitResponse at h
        dsimp only at h
        split_ifs at h
        · cases h
          simp [received, Function.comp_def]
        · split at h
          · next e hOne =>
              cases h
              simp [received, hOne]
          · cases h
      rw [hList]
      exact ⟨by simp [asksForVectors], by simp⟩

/-! ### What an upstream gives -/

/-- Rows with one index and with another, which agree wherever the numbers are
small. -/
theorem readRows_given {data : List Value} {rows : List (Nat × List F)}
    (h : readRows floats rowIndex data = .ok rows) :
    ∃ given, readRows floats givenIndex data = .ok given ∧
      List.Forall₂ (fun row own => row.2 = own.2 ∧ (own.1 < 2 ^ 32 → row.1 = own.1)) rows given := by
  unfold readRows at h ⊢
  generalize data.zipIdx = places at h ⊢
  induction places generalizing rows with
  | nil =>
      cases h
      exact ⟨[], rfl, .nil⟩
  | cons p rest ih =>
      obtain ⟨row, place⟩ := p
      rw [List.mapM_cons] at h
      obtain ⟨first, hFirst, h⟩ := bind_eq_ok.mp h
      obtain ⟨others, hOthers, h⟩ := bind_eq_ok.mp h
      obtain ⟨vector, hVector, hPair⟩ := bind_eq_ok.mp hFirst
      cases h
      cases hPair
      obtain ⟨given, hGiven, hAll⟩ := ih hOthers
      refine ⟨(givenIndex row place, vector) :: given, ?_, .cons ⟨rfl, fun hSmall => ?_⟩ hAll⟩
      · rw [List.mapM_cons]
        refine bind_eq_ok.mpr ⟨(givenIndex row place, vector), ?_, ?_⟩
        · exact bind_eq_ok.mpr ⟨vector, hVector, rfl⟩
        · exact bind_eq_ok.mpr ⟨given, hGiven, rfl⟩
      · -- a number keeps its low 32 bits only
        unfold givenIndex at hSmall
        unfold rowIndex givenIndex optU32
        cases hIndex : (row.get "index").bind Value.asU64 with
        | none => rfl
        | some n =>
            rw [hIndex] at hSmall
            exact Nat.mod_eq_of_lt hSmall

theorem sorted_zipIdx (vectors : List (List F)) :
    (Numbered.sorted (vectors.zipIdx.map Prod.swap)).map Prod.snd = vectors := by
  have hFst : (vectors.zipIdx.map Prod.swap).map Prod.fst = List.range vectors.length := by
    rw [List.map_map]
    exact (List.zipIdx_map_snd 0 vectors).trans List.range_eq_range'.symm
  have hSorted : (vectors.zipIdx.map Prod.swap).Pairwise fun a b => a.1 ≤ b.1 := by
    have hRange : ((vectors.zipIdx.map Prod.swap).map Prod.fst).Pairwise (· ≤ ·) := by
      rw [hFst]
      exact List.pairwise_le_range
    exact List.pairwise_map.mp hRange
  rw [Numbered.sorted, hSorted.insertionSort_eq, List.map_map]
  exact List.zipIdx_map_fst 0 vectors

/-- The vectors are all that were given, and in the order of their numbers where
those are small. -/
theorem embeddings_given {upstream : EmbedFormat} {v : Value} {resp : EmbedResponse F}
    (h : parseResponse floats upstream v = .ok resp) :
    resp.embeddings.length = (givenRows floats upstream v).length ∧
      ((∀ row ∈ givenRows floats upstream v, row.1 < 2 ^ 32) →
        resp.embeddings = (Numbered.sorted (givenRows floats upstream v)).map Prod.snd) := by
  have hNumbered {data : List Value} {rows : List (Nat × List F)}
      (hRows : readRows floats rowIndex data = .ok rows)
      (hResp : resp.embeddings = (Numbered.sorted rows).map Prod.snd) :
      resp.embeddings.length =
          ((readRows floats givenIndex data).toOption.getD []).length ∧
        ((∀ row ∈ (readRows floats givenIndex data).toOption.getD [], row.1 < 2 ^ 32) →
          resp.embeddings = (Numbered.sorted
            ((readRows floats givenIndex data).toOption.getD [])).map Prod.snd) := by
    obtain ⟨given, hGiven, hAll⟩ := readRows_given hRows
    rw [hGiven, hResp]
    constructor
    · rw [List.length_map, Numbered.sorted_perm.length_eq]
      exact hAll.length_eq
    · intro hSmall
      have hSame : rows = given := by
        rw [← List.forall₂_eq_eq_eq]
        clear hRows hResp hGiven
        induction hAll with
        | nil => exact .nil
        | @cons row own _ _ hHead _ ih =>
            refine .cons (Prod.ext (hHead.2 (hSmall own List.mem_cons_self)) hHead.1) (ih ?_)
            exact fun other hOther => hSmall other (List.mem_cons_of_mem _ hOther)
      rw [hSame]
      rfl
  have hPlain (hGiven : givenRows floats upstream v = resp.embeddings.zipIdx.map Prod.swap) :
      resp.embeddings.length = (givenRows floats upstream v).length ∧
        ((∀ row ∈ givenRows floats upstream v, row.1 < 2 ^ 32) →
          resp.embeddings = (Numbered.sorted (givenRows floats upstream v)).map Prod.snd) := by
    rw [hGiven]
    exact ⟨by simp, fun _ => (sorted_zipIdx _).symm⟩
  cases upstream with
  | openaiEmbed =>
      obtain ⟨rows, hRows, hResp⟩ := bind_eq_ok.mp h
      cases hResp
      exact hNumbered hRows rfl
  | voyageEmbed =>
      unfold parseResponse Voyage.parseResponse at h
      dsimp only at h
      cases hData : optArr v "data" with
      | none => rw [hData] at h; cases h
      | some data =>
          rw [hData] at h
          obtain ⟨rows, hRows, hResp⟩ := bind_eq_ok.mp h
          cases hResp
          simp only [givenRows, hData, Option.getD_some]
          exact hNumbered hRows rfl
  | geminiEmbed => exact hPlain (by simp only [givenRows, h])
  | cohereEmbed => exact hPlain (by simp only [givenRows, h])
  | ollamaEmbed => exact hPlain (by simp only [givenRows, h])

end

/-! ### Two inputs -/

/-- Numbers that need no rounding. -/
def unrounded : Floats Value where
  ofValue v := if v.asF64.isSome then v else .nat 0
  toValue := id
  ofBase64 _ := .error (.invalidRequest "bad base64 embedding".toList)
  toBase64 _ := []

def twoInputs : EmbedRequest where
  inputs := [⟨[.text "a".toList]⟩, ⟨[.text "b".toList]⟩]

def tenths (m : Nat) : Value := .number (.float false m (-1))

def numberedRow (index m : Nat) : Value :=
  obj [("index", .nat index), ("embedding", .array [tenths m])]

def rowsBody (rows : List Value) : Value := obj [("data", .array rows)]

end Gateway.Wire.Embed
