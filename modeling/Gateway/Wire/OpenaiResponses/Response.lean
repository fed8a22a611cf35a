import Gateway.Wire.OpenaiResponses.Request

/-! The Responses response object, read into the intermediate representation
and written from it. -/
namespace Gateway.Wire.OpenaiResponses

open Json

/-- The blocks of one output item; items of other types add none. -/
def outputBlocks (item : Value) : List ContentBlock :=
  match optStr item "type" with
  | none => []
  | some t =>
      if t = "message".toList then parseContentParts (item.get "content")
      else if t = "function_call".toList then
        [.toolUse (((optStr item "call_id").or (optStr item "id")).getD [])
          ((optStr item "name").getD []) (parseArguments (optStr item "arguments"))]
      else if t = "reasoning".toList then
        let text := (((optArr item "summary").getD []).filterMap (optStr · "text")).flatten
        if text.isEmpty then [] else [.thinking text none]
      else []

theorem outputBlocks_message {item : Value} (h : optStr item "type" = some "message".toList) :
    outputBlocks item = parseContentParts (item.get "content") := by
  simp only [outputBlocks, h, if_true]

theorem outputBlocks_functionCall {item : Value}
    (h : optStr item "type" = some "function_call".toList) :
    outputBlocks item = [.toolUse (((optStr item "call_id").or (optStr item "id")).getD [])
      ((optStr item "name").getD []) (parseArguments (optStr item "arguments"))] := by
  have hNotMessage : "function_call".toList ≠ "message".toList := by decide
  simp only [outputBlocks, h, if_neg hNotMessage, if_true]

/-- Items of other types give thinking at most. -/
theorem outputBlocks_other {item : Value} (hMessage : optStr item "type" ≠ some "message".toList)
    (hCall : optStr item "type" ≠ some "function_call".toList) :
    ∀ b ∈ outputBlocks item, ∃ text, b = .thinking text none := by
  unfold outputBlocks
  intro b hb
  cases hType : optStr item "type" with
  | none => simp [hType] at hb
  | some t =>
      have hNotMessage : t ≠ "message".toList := fun h => hMessage (hType.trans (congrArg some h))
      have hNotCall : t ≠ "function_call".toList := fun h => hCall (hType.trans (congrArg some h))
      simp only [hType, if_neg hNotMessage, if_neg hNotCall] at hb
      split_ifs at hb
      · cases hb
      · exact ⟨_, List.mem_singleton.mp hb⟩
      · cases hb

def outputItems (v : Value) : List Value := (optArr v "output").getD []

def isFunctionCall (item : Value) : Bool := optStr item "type" = some "function_call".toList

def stopReasonOf (v : Value) : StopReason :=
  if optStr v "status" = some "incomplete".toList then
    let reason := (v.get "incomplete_details").bind (optStr · "reason")
    if reason = some "max_output_tokens".toList then .maxTokens
    else .other (reason.getD "incomplete".toList)
  else if (outputItems v).any isFunctionCall then .toolUse
  else .endTurn

def responseOf (v : Value) : ChatResponse where
  id := (optStr v "id").getD []
  model := (optStr v "model").getD []
  content := (outputItems v).flatMap outputBlocks
  stopReason := stopReasonOf v
  usage := parseUsage (v.get "usage")
  promptCacheKey := optStr v "prompt_cache_key"
  promptCacheRetention := optStr v "prompt_cache_retention"

def parseResponse (bytes : List UInt8) : Except WireError ChatResponse :=
  match fromSlice bytes with
  | none => .error .json
  | some v => .ok (responseOf v)

/-! ### Emission -/

/-- The items written so far, and the text that waits for its message. -/
structure Writing where
  output : List Value := []
  textParts : List Value := []

def Writing.flush (w : Writing) : Writing :=
  if w.textParts.isEmpty then w
  else
    { output := w.output ++ [obj [("type", .string "message".toList),
        ("role", .string "assistant".toList), ("content", .array w.textParts)]] }

def Writing.write (w : Writing) : ContentBlock → Writing
  | .text t | .cachedText t _ =>
      { w with textParts := w.textParts ++
          [obj [("type", .string "output_text".toList), ("text", .string t)]] }
  | .toolUse id name input =>
      { w.flush with output := w.flush.output ++ [obj [("type", .string "function_call".toList),
          ("call_id", .string id), ("name", .string name), ("arguments", .string input.render),
          ("status", .string "completed".toList)]] }
  | _ => w

/-- The status is always `completed`. -/
def emitResponse (resp : ChatResponse) : Value :=
  obj ([("id", .string resp.id), ("object", .string "response".toList),
    ("model", .string resp.model), ("status", .string "completed".toList),
    ("output", .array (resp.content.foldl Writing.write {}).flush.output),
    ("usage", usageValue resp.usage)] ++
    cacheFields resp.promptCacheKey resp.promptCacheRetention)

end Gateway.Wire.OpenaiResponses
