import Gateway.Server.Admin.Catalogue
import Gateway.Server.Discovery
import Gateway.Wire.Splitting

/-! The Gemini surface, where the model and the action stand in the path. A name
that is listed is read back from a path unless it has a colon. -/
namespace Gateway.Server

open Json

/-- `models/<model>:<action>`, with or without the first part. -/
def parseGeminiPath (path : Str) : Option (Str × Str) := do
  let rest := (Wire.stripPrefix "models/".toList path).getD path
  let (model, action) ← Wire.splitOnce ':' rest
  if model = [] ∨ action = [] then none else some (model, action)

/-- The name a model is listed under. -/
def geminiName (id : Str) : Str := "models/".toList ++ id

def geminiModel (id : Str) : Value :=
  obj [("name", .string (geminiName id)), ("baseModelId", .string id),
    ("supportedGenerationMethods", .array
      [.string "generateContent".toList, .string "streamGenerateContent".toList])]

def modelsGemini (c : Store.Catalog) (access : AccessPolicy) : Value :=
  obj [("models", .array ((modelNames c access).map geminiModel))]

/-- The surface of a call and its body, with what the path says of it. The body
comes as it was read, or with what was wrong with it. -/
def gemini (path : Str) (body : Except Str Value) : Except Error (UpstreamFormat × Value) :=
  match parseGeminiPath path with
  | none => .error (.badRequest ("unrecognized Gemini path: /v1beta/".toList ++ path))
  | some (model, action) =>
      match body with
      | .error e => .error (.badRequest ("invalid JSON body: ".toList ++ e))
      | .ok (.object fields) =>
          let fields := insertField "model".toList (.string model) fields
          if action = "embedContent".toList ∨ action = "batchEmbedContents".toList then
            .ok (.embed .geminiEmbed, .object (insertField "batch".toList
              (.bool (action = "batchEmbedContents".toList)) fields))
          else
            .ok (.chat .gemini, .object (insertField "stream".toList
              (.bool (action = "streamGenerateContent".toList)) fields))
      | .ok _ => .error (.badRequest "body is not a JSON object".toList)

theorem parseGeminiPath_eq_some {path model action : Str} :
    parseGeminiPath path = some (model, action) ↔
      (Wire.stripPrefix "models/".toList path).getD path = model ++ ':' :: action ∧
        ':' ∉ model ∧ model ≠ [] ∧ action ≠ [] := by
  unfold parseGeminiPath
  cases hSplit : Wire.splitOnce ':' ((Wire.stripPrefix "models/".toList path).getD path) with
  | none =>
      suffices ¬ ((Wire.stripPrefix "models/".toList path).getD path = model ++ ':' :: action ∧
          ':' ∉ model) by
        simp only [Option.bind_eq_bind, hSplit, Option.bind_none, reduceCtorEq, false_iff]
        exact fun h => this ⟨h.1, h.2.1⟩
      intro h
      rw [Wire.splitOnce_eq_some.mpr h] at hSplit
      cases hSplit
  | some pair =>
      obtain ⟨m, a⟩ := pair
      simp only [Option.bind_eq_bind, hSplit, Option.bind_some]
      constructor
      · intro h
        split_ifs at h with hEmpty
        cases h
        obtain ⟨hModel, hAction⟩ := not_or.mp hEmpty
        obtain ⟨hText, hNot⟩ := Wire.splitOnce_eq_some.mp hSplit
        exact ⟨hText, hNot, hModel, hAction⟩
      · rintro ⟨hText, hNot, hModel, hAction⟩
        rw [Wire.splitOnce_eq_some.mpr ⟨hText, hNot⟩] at hSplit
        cases hSplit
        exact if_neg (not_or.mpr ⟨hModel, hAction⟩)

/-- What a call is for is what its path names. -/
theorem gemini_model {path : Str} {body : Except Str Value} {surface : UpstreamFormat} {v : Value}
    (h : gemini path body = .ok (surface, v)) :
    ∃ model action, parseGeminiPath path = some (model, action) ∧
      Wire.optStr v "model" = some model := by
  unfold gemini at h
  cases hPath : parseGeminiPath path with
  | none => simp [hPath] at h
  | some pair =>
      obtain ⟨model, action⟩ := pair
      refine ⟨model, action, rfl, ?_⟩
      rw [hPath] at h
      have hModel (key : Str) (w : Value) (fields : List (Str × Value))
          (hKey : key ≠ "model".toList) :
          Wire.optStr (.object (insertField key w
            (insertField "model".toList (.string model) fields))) "model" = some model := by
        show Option.bind (lookupField "model".toList _) Value.asStr = some model
        rw [lookupField_insertField, if_neg hKey, lookupField_insertField, if_pos rfl]
        rfl
      dsimp only at h
      split at h
      · cases h
      · split_ifs at h
        · cases h
          exact hModel _ _ _ (by decide)
        · cases h
          exact hModel _ _ _ (by decide)
      · cases h

theorem validatePublicName_ne_nil {s m : Str} (h : validatePublicName s = .ok m) : m ≠ [] := by
  unfold validatePublicName at h
  dsimp only at h
  split_ifs at h with hEmpty
  cases h
  exact hEmpty

/-- The path of a listed model and an action names the two, exactly where the
model's name has no colon. -/
theorem listed_path_iff {s m a : Str} (hName : validatePublicName s = .ok m) (hAction : a ≠ []) :
    parseGeminiPath (geminiName m ++ ':' :: a) = some (m, a) ↔ ':' ∉ m := by
  have hRest : Wire.stripPrefix "models/".toList (geminiName m ++ ':' :: a) =
      some (m ++ ':' :: a) := Wire.stripPrefix_eq_some.mpr (List.append_assoc _ _ _)
  rw [parseGeminiPath_eq_some, hRest, Option.getD_some]
  constructor
  · exact fun h => h.2.1
  · exact fun hNot => ⟨rfl, hNot, validatePublicName_ne_nil hName, hAction⟩

theorem listed_path_llama :
    parseGeminiPath (geminiName "meta/llama".toList ++ ':' :: "generateContent".toList) =
      some ("meta/llama".toList, "generateContent".toList) := by
  have hName : validatePublicName "meta/llama".toList = .ok "meta/llama".toList := by
    decide +kernel
  exact (listed_path_iff hName (by simp)).mpr (by simp)

/-- A name with a colon is accepted, and its path names another model. -/
theorem colon_misread :
    validatePublicName "llama3:8b".toList = .ok "llama3:8b".toList ∧
      parseGeminiPath (geminiName "llama3:8b".toList ++ ':' :: "generateContent".toList) =
        some ("llama3".toList, "8b:generateContent".toList) := by
  decide +kernel

end Gateway.Server
