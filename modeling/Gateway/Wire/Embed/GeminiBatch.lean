import Gateway.Wire.Embed.Requests

/-! A batch of embedding requests from a client that speaks Gemini, sent on to an
upstream that speaks it too. In between there is one task and one size for all
requests of the batch. -/
namespace Gateway.Wire.Embed.Gemini

open Json
open OpenaiChat (optField notMem_optField)

/-- Text parts; other parts are skipped unless they carry a file. -/
def textParts : List Value → Except WireError (List EmbedPart)
  | [] => .ok []
  | p :: rest =>
      match optStr p "text" with
      | some text => do return .text text :: (← textParts rest)
      | none =>
          if (p.get "inlineData").isSome || (p.get "inline_data").isSome ||
              (p.get "fileData").isSome || (p.get "file_data").isSome then
            .error (.invalidRequest
              "gemini embeddings are text-only; image parts are not supported".toList)
          else textParts rest

def contentToInput (content : Option Value) : Except WireError EmbedInput :=
  match content.bind (optArr · "parts") with
  | none => .error (.missingField "content.parts".toList)
  | some parts =>
      match textParts parts with
      | .error e => .error e
      | .ok [] => .error (.invalidRequest "content has no text parts".toList)
      | .ok out => .ok ⟨out⟩

/-- At the top of a request, or in its configuration. -/
def givenTask (v : Value) : Option Str :=
  let config := v.get "embedContentConfig"
  (optStr v "taskType").or ((config.bind (optStr · "taskType")).or
    (config.bind (optStr · "task_type")))

def taskTypeOf (v : Value) : Option Str := (givenTask v).bind geminiToInputType

def dimsOf (v : Value) : Option Nat :=
  (optU32 v "outputDimensionality").or
    ((v.get "embedContentConfig").bind (optU32 · "outputDimensionality"))

/-- What a body asks for. The task and the size of a batch are the first that one
of its requests gives. -/
def readInputs (v : Value) : Except WireError (List EmbedInput × Option Str × Option Nat) :=
  match optArr v "requests" with
  | some requests => do
      let inputs ← requests.mapM fun r => contentToInput (r.get "content")
      return (inputs, requests.findSome? taskTypeOf, requests.findSome? dimsOf)
  | none =>
      if (v.get "content").isSome then do
        return ([← contentToInput (v.get "content")], taskTypeOf v, dimsOf v)
      else .error (.missingField "content (or requests)".toList)

def parseRequest (v : Value) : Except WireError EmbedRequest :=
  match v with
  | .object _ => do
      let (inputs, inputType, outputDimensions) ← readInputs v
      if inputs.isEmpty then .error (.invalidRequest "requests must not be empty".toList)
      else
        return { model := (optStr v "model").getD []
                 inputs := inputs
                 inputType := inputType
                 outputDimensions := outputDimensions
                 geminiBatch := optBool v "batch" }
  | _ => .error (.invalidRequest "body is not a JSON object".toList)

/-- A client's body as it is sent on. -/
def relayed (v : Value) (opts : EmbedEmitOptions) : Except WireError Value :=
  parseRequest v >>= fun req => emitBody req opts

/-- The task of a request, by the name that the upstream is told. -/
def taskFor (r : Value) : Option Str := (taskTypeOf r).bind inputTypeToGemini

theorem findSome_eq_of_same {α β γ : Type} {f : α → Option β} {g : β → Option γ} {xs : List α}
    (h : ∀ a ∈ xs, ∀ b ∈ xs, (f a).bind g = (f b).bind g) {a : α} (ha : a ∈ xs) :
    (xs.findSome? f).bind g = (f a).bind g := by
  cases hFirst : xs.findSome? f with
  | none => rw [List.findSome?_eq_none_iff.mp hFirst a ha]
  | some b =>
      obtain ⟨c, hc, hb⟩ := List.exists_of_findSome?_eq_some hFirst
      rw [h a ha c hc, hb]

section

variable {req : EmbedRequest} {opts : EmbedEmitOptions} {i : EmbedInput} {sent : Value}

theorem givenTask_of {v : Value} {task : Option Str} (hTop : optStr v "taskType" = task)
    (hNone : v.get "embedContentConfig" = none) : givenTask v = task := by
  rw [givenTask, hTop, hNone]
  cases task <;> rfl

theorem dimsOf_of {v : Value} {dims : Option Nat}
    (hTop : v.get "outputDimensionality" = dims.map .nat)
    (hNone : v.get "embedContentConfig" = none) : dimsOf v = dims.map (· % 2 ^ 32) := by
  rw [dimsOf, optU32, hTop, hNone]
  cases dims <;> rfl

/-- Each request is told the task of the batch, and the size. -/
theorem settings_requestItem (h : requestItem req opts i = .ok sent) :
    givenTask sent = req.inputType.bind inputTypeToGemini ∧
      dimsOf sent = req.outputDimensions.map (· % 2 ^ 32) := by
  unfold requestItem at h
  split_ifs at h
  cases h
  generalize req.inputType.bind inputTypeToGemini = task
  constructor
  · refine givenTask_of ?_ ?_
    · cases task <;> cases req.outputDimensions <;> simp [optField]
    · cases task <;> cases req.outputDimensions <;> simp [optField]
  · refine dimsOf_of ?_ ?_
    · cases task <;> cases req.outputDimensions <;> simp [optField]
    · cases task <;> cases req.outputDimensions <;> simp [optField]

end

theorem dimsOf_lt {r : Value} {n : Nat} (h : dimsOf r = some n) : n < 2 ^ 32 := by
  have hRead (v : Value) (key : String) (h : optU32 v key = some n) : n < 2 ^ 32 := by
    obtain ⟨m, -, rfl⟩ := Option.map_eq_some_iff.mp h
    exact Nat.mod_lt _ (by decide)
  unfold dimsOf at h
  rcases Option.or_eq_some_iff.mp h with h | ⟨-, h⟩
  · exact hRead _ _ h
  · obtain ⟨config, -, h⟩ := Option.bind_eq_some_iff.mp h
    exact hRead _ _ h

/-- What becomes of a batch. -/
theorem relayed_batch {v body : Value} {opts : EmbedEmitOptions} {requests : List Value}
    (hRequests : optArr v "requests" = some requests) (hRelayed : relayed v opts = .ok body) :
    ∃ out, optArr body "requests" = some out ∧ out.length = requests.length ∧
      ∀ sent ∈ out,
        givenTask sent = (requests.findSome? taskTypeOf).bind inputTypeToGemini ∧
          dimsOf sent = requests.findSome? dimsOf := by
  obtain ⟨req, hParse, hEmit⟩ := bind_eq_ok.mp hRelayed
  obtain ⟨out, hOut, hBody⟩ := bind_eq_ok.mp hEmit
  cases hBody
  have hReq : req.inputs.length = requests.length ∧
      req.inputType = requests.findSome? taskTypeOf ∧
        req.outputDimensions = requests.findSome? dimsOf := by
    unfold parseRequest at hParse
    cases v with
    | object fields =>
        obtain ⟨⟨inputs, inputType, dims⟩, hInputs, hParse⟩ := bind_eq_ok.mp hParse
        unfold readInputs at hInputs
        rw [hRequests] at hInputs
        obtain ⟨inputs', hMap, hPair⟩ := bind_eq_ok.mp hInputs
        cases hPair
        dsimp only at hParse
        split_ifs at hParse
        cases hParse
        exact ⟨(mapM_eq_ok.mp hMap).length_eq.symm, rfl, rfl⟩
    | _ => cases hParse
  obtain ⟨hLength, hTask, hDims⟩ := hReq
  have hForall := mapM_eq_ok.mp hOut
  refine ⟨out, by simp, hForall.length_eq.symm.trans hLength, fun sent hSent => ?_⟩
  obtain ⟨i, -, hItem⟩ := exists_left hForall hSent
  obtain ⟨hGiven, hSize⟩ := settings_requestItem hItem
  refine ⟨hTask ▸ hGiven, ?_⟩
  rw [hSize, hDims]
  cases hFirst : requests.findSome? dimsOf with
  | none => rfl
  | some n =>
      obtain ⟨r, -, hr⟩ := List.exists_of_findSome?_eq_some hFirst
      rw [Option.map_some, Nat.mod_eq_of_lt (dimsOf_lt hr)]

/-- The requests of a batch give the same task, as the upstream knows it, and
the same size. -/
def Agree (requests : List Value) : Prop :=
  ∀ a ∈ requests, ∀ b ∈ requests, taskFor a = taskFor b ∧ dimsOf a = dimsOf b

/-- Each request of a batch keeps its own settings, exactly where all of them
agree. -/
theorem batch_settings_iff {v body : Value} {opts : EmbedEmitOptions} {requests : List Value}
    (hRequests : optArr v "requests" = some requests) (hRelayed : relayed v opts = .ok body) :
    (∃ out, optArr body "requests" = some out ∧
      List.Forall₂ (fun r sent => givenTask sent = taskFor r ∧ dimsOf sent = dimsOf r)
        requests out) ↔ Agree requests := by
  obtain ⟨out, hOut, hLength, hSettings⟩ := relayed_batch hRequests hRelayed
  constructor
  · rintro ⟨out', hOut', hKept⟩
    rw [hOut] at hOut'
    cases hOut'
    have hOwn : ∀ r ∈ requests,
        taskFor r = (requests.findSome? taskTypeOf).bind inputTypeToGemini ∧
          dimsOf r = requests.findSome? dimsOf := by
      intro r hr
      obtain ⟨sent, hSent, hTask, hDims⟩ := exists_right hKept hr
      obtain ⟨hGiven, hSize⟩ := hSettings sent hSent
      exact ⟨hTask.symm.trans hGiven, hDims.symm.trans hSize⟩
    intro a ha b hb
    exact ⟨(hOwn a ha).1.trans (hOwn b hb).1.symm, (hOwn a ha).2.trans (hOwn b hb).2.symm⟩
  · intro hAgree
    refine ⟨out, hOut, List.forall₂_iff_get.mpr ⟨hLength.symm, fun n hr hs => ?_⟩⟩
    obtain ⟨hGiven, hSize⟩ := hSettings _ (out.get_mem ⟨n, hs⟩)
    have hMem := requests.get_mem ⟨n, hr⟩
    refine ⟨hGiven.trans ?_, hSize.trans ?_⟩
    · exact findSome_eq_of_same (fun a ha b hb => (hAgree a ha b hb).1) hMem
    · have hSame := findSome_eq_of_same (f := dimsOf) (g := some)
        (fun a ha b hb => by simp [(hAgree a ha b hb).2]) hMem
      simpa using hSame

def batchItem (text task : String) : Value :=
  obj [("content", obj [("parts", .array [obj [("text", .string text.toList)]])]),
    ("taskType", .string task.toList), ("outputDimensionality", .nat 256)]

def batchOf (items : List Value) : Value :=
  obj [("model", .string "m".toList), ("batch", .bool true), ("requests", .array items)]

/-- Two questions are sent on as queries. -/
theorem batch_settings_questions :
    ∃ body out, relayed (batchOf [batchItem "a" "question_answering",
        batchItem "b" "RETRIEVAL_QUERY"]) ⟨"u".toList⟩ = .ok body ∧
      optArr body "requests" = some out ∧
      List.Forall₂ (fun r sent => givenTask sent = taskFor r ∧ dimsOf sent = dimsOf r)
        [batchItem "a" "question_answering", batchItem "b" "RETRIEVAL_QUERY"] out := by
  have hRelayed : (relayed (batchOf [batchItem "a" "question_answering",
      batchItem "b" "RETRIEVAL_QUERY"]) ⟨"u".toList⟩).isOk = true := by decide +kernel
  cases hBody : relayed (batchOf [batchItem "a" "question_answering",
      batchItem "b" "RETRIEVAL_QUERY"]) ⟨"u".toList⟩ with
  | error e => rw [hBody] at hRelayed; cases hRelayed
  | ok body =>
      have hAgree : Agree [batchItem "a" "question_answering", batchItem "b" "RETRIEVAL_QUERY"] := by
        unfold Agree
        decide +kernel
      obtain ⟨out, hOut, hKept⟩ := (batch_settings_iff (by simp [batchOf]) hBody).mpr hAgree
      exact ⟨body, out, rfl, hOut, hKept⟩

/-- A document that comes after a query in its batch is sent on as a query. -/
theorem tasks_merged :
    (((relayed (batchOf [batchItem "a" "RETRIEVAL_QUERY", batchItem "b" "RETRIEVAL_DOCUMENT"])
      ⟨"u".toList⟩).toOption.bind (optArr · "requests")).map (·.map givenTask)) =
        some [some "RETRIEVAL_QUERY".toList, some "RETRIEVAL_QUERY".toList] ∧
      [batchItem "a" "RETRIEVAL_QUERY", batchItem "b" "RETRIEVAL_DOCUMENT"].map givenTask =
        [some "RETRIEVAL_QUERY".toList, some "RETRIEVAL_DOCUMENT".toList] := by
  decide +kernel

end Gateway.Wire.Embed.Gemini
