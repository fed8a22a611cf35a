import Gateway.Wire.Gemini.Request
import Gateway.Wire.OpenaiResponses.Request

/-! The names by which a Gemini upstream matches results to calls, against the
ids by which every other format does. -/
namespace Gateway.Wire.Gemini

open Json
open OpenaiChat (optField)

/-! ### Calls and results of a history -/

/-- The blocks of the messages that are turns of the conversation. -/
def turnBlocks (messages : List Message) : List ContentBlock :=
  messages.flatMap fun m => if m.role = .system ∨ m.role = .developer then [] else m.content

/-- The call that each result answers: the latest one before it with its id.
`calls` are the calls so far, the latest first. -/
def answeredCalls (calls : List (Str × Str)) : List ContentBlock → List (Option (Str × Str))
  | [] => []
  | .toolUse id name _ :: rest => answeredCalls ((id, name) :: calls) rest
  | .toolResult id _ _ :: rest => calls.find? (·.1 = id) :: answeredCalls calls rest
  | _ :: rest => answeredCalls calls rest

/-- Every result answers an earlier call. -/
def AllAnswered (messages : List Message) : Prop :=
  ∀ answered ∈ answeredCalls [] (turnBlocks messages), answered.isSome

instance (messages : List Message) : Decidable (AllAnswered messages) :=
  inferInstanceAs (Decidable (∀ answered ∈ answeredCalls [] (turnBlocks messages), answered.isSome))

/-! ### Calls and results of a request -/

/-- The parts of an emitted request, in order. -/
def partsOf (body : Value) : List Value :=
  ((optArr body "contents").getD []).flatMap fun c => (optArr c "parts").getD []

def callName (part : Value) : Option Str := (part.get "functionCall").bind (optStr · "name")

def responseName (part : Value) : Option Str := (part.get "functionResponse").bind (optStr · "name")

/-- The name of the call that each result of a request should answer. -/
def answeredNames (messages : List Message) : List Str :=
  ((answeredCalls [] (turnBlocks messages)).filterMap id).map Prod.snd

def callNames (blocks : List ContentBlock) : List Str :=
  blocks.filterMap fun
    | .toolUse _ name _ => some name
    | _ => none

def resultIds (blocks : List ContentBlock) : List Str :=
  blocks.filterMap fun
    | .toolResult id _ _ => some id
    | _ => none

theorem contents_emitBody (req : ChatRequest) (opts : EmitOptions) :
    optArr (emitBody req opts) "contents" = some (req.messages.filterMap emitContent) := by
  unfold emitBody optArr
  dsimp only
  rw [List.append_assoc, List.append_assoc, get_obj_append]
  · rw [get_obj, List.foldl_append]
    rfl
  · simp only [List.map_append, List.mem_append, not_or]
    refine ⟨?_, OpenaiChat.notMem_optField (by decide) _, ?_⟩ <;> split_ifs <;> simp

theorem partsOf_emitBody (req : ChatRequest) (opts : EmitOptions) :
    partsOf (emitBody req opts) = (turnBlocks req.messages).filterMap emitPart := by
  rw [partsOf, contents_emitBody, Option.getD_some, turnBlocks]
  induction req.messages with
  | nil => rfl
  | cons m rest ih =>
      rw [List.flatMap_cons, List.filterMap_append, ← ih, List.filterMap_cons]
      obtain ⟨role, content⟩ := m
      cases role <;> simp [emitContent]

theorem names_emitPart (blocks : List ContentBlock) :
    (blocks.filterMap emitPart).filterMap callName = callNames blocks ∧
      (blocks.filterMap emitPart).filterMap responseName = resultIds blocks := by
  unfold callNames resultIds
  rw [List.filterMap_filterMap, List.filterMap_filterMap]
  constructor
  · refine List.filterMap_congr fun b _ => ?_
    cases b with
    | image mediaType data url => cases data <;> cases url <;> simp [emitPart, callName]
    | _ => simp [emitPart, callName]
  · refine List.filterMap_congr fun b _ => ?_
    cases b with
    | image mediaType data url => cases data <;> cases url <;> simp [emitPart, responseName]
    | _ => simp [emitPart, responseName]

/-- The calls that results answer have the results' ids. -/
theorem answered_ids {calls : List (Str × Str)} {blocks : List ContentBlock}
    (hAll : ∀ answered ∈ answeredCalls calls blocks, answered.isSome) :
    resultIds blocks = ((answeredCalls calls blocks).filterMap id).map Prod.fst := by
  induction blocks generalizing calls with
  | nil => rfl
  | cons b rest ih =>
      cases b with
      | toolUse callId name input => exact ih hAll
      | toolResult resultId content isError =>
          obtain ⟨hHead, hRest⟩ := List.forall_mem_cons.mp hAll
          obtain ⟨call, hCall⟩ := Option.isSome_iff_exists.mp hHead
          have hId : call.1 = resultId := by simpa using List.find?_some hCall
          have hIds := ih hRest
          simp only [resultIds, answeredCalls, List.filterMap_cons, hCall, id, List.map_cons,
            hId] at hIds ⊢
          rw [hIds]
      | _ => exact ih hAll

/-- The results of a Gemini request carry the names of the calls they answer
exactly when the id of each answered call is its name. -/
theorem response_names_iff (req : ChatRequest) (opts : EmitOptions)
    (hAll : AllAnswered req.messages) :
    (partsOf (emitBody req opts)).filterMap callName = callNames (turnBlocks req.messages) ∧
      ((partsOf (emitBody req opts)).filterMap responseName = answeredNames req.messages ↔
        ∀ call ∈ (answeredCalls [] (turnBlocks req.messages)).filterMap id, call.1 = call.2) := by
  obtain ⟨hCalls, hResults⟩ := names_emitPart (turnBlocks req.messages)
  rw [partsOf_emitBody]
  refine ⟨hCalls, ?_⟩
  rw [hResults, answered_ids hAll, answeredNames, List.map_inj_left]

/-- A conversation with one exchange. -/
def exchangeRequest (id name : String) : ChatRequest :=
  { messages := [⟨.assistant, [.toolUse id.toList name.toList (obj [])]⟩,
      ⟨.tool, [.toolResult id.toList [.text "ok".toList] false]⟩] }

theorem response_names_same :
    (partsOf (emitBody (exchangeRequest "f" "f") { targetModel := [] })).filterMap callName =
        callNames (turnBlocks (exchangeRequest "f" "f").messages) ∧
      ((partsOf (emitBody (exchangeRequest "f" "f") { targetModel := [] })).filterMap responseName =
          answeredNames (exchangeRequest "f" "f").messages ↔
        ∀ call ∈ (answeredCalls [] (turnBlocks (exchangeRequest "f" "f").messages)).filterMap id,
          call.1 = call.2) :=
  response_names_iff (exchangeRequest "f" "f") { targetModel := [] } (by decide)

/-- A Responses history with one exchange. -/
def exchangeBody : Value :=
  obj [("input", .array [
    obj [("type", .string "function_call".toList), ("call_id", .string "call_1".toList),
      ("name", .string "f".toList), ("arguments", .string [])],
    obj [("type", .string "function_call_output".toList), ("call_id", .string "call_1".toList),
      ("output", .string "ok".toList)]])]

/-- The result of a call of `f` is sent under the call's id. -/
theorem response_named_by_id :
    ¬ ∀ (bytes : List UInt8) (req : ChatRequest) (opts : EmitOptions),
      OpenaiResponses.parseRequest bytes = .ok req → AllAnswered req.messages →
        (partsOf (emitBody req opts)).filterMap responseName = answeredNames req.messages := by
  intro h
  have hBody : fromSlice (Text.toUtf8 exchangeBody.render) = some exchangeBody := by
    decide +kernel
  have hParsed : OpenaiResponses.parseRequest (Text.toUtf8 exchangeBody.render) =
      .ok (OpenaiResponses.requestOf exchangeBody [] none) := by
    rw [OpenaiResponses.parseRequest, hBody]
    rfl
  have hNames := h _ _ { targetModel := [] } hParsed (by decide +kernel)
  rw [partsOf_emitBody, (names_emitPart _).2] at hNames
  revert hNames
  decide +kernel

end Gateway.Wire.Gemini
