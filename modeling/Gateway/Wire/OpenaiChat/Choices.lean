import Gateway.Wire.Said
import Gateway.Wire.OpenaiChat.Response

/-! Streams whose chunks belong to several choices. Every chunk carries its
choice in the first place, whatever the choice's index, and that is the place
the decoder reads. -/
namespace Gateway.Wire.OpenaiChat

open Json

/-! ### What a chunk says -/

/-- Content, or the end. -/
def isSpoken : StreamEvent → Bool
  | .messageStart _ | .usageDelta _ => false
  | _ => true

/-- What the choice of a chunk says. -/
def spoken (v : Value) : List StreamEvent := contentEvents v ++ doneEvents v

def choices (v : Value) : List Value := (optArr v "choices").getD []

def choiceIndex (choice : Value) : Nat := ((choice.get "index").bind Value.asU64).getD 0

/-- The chunk is of the choice with this index. -/
def isOf (index : Nat) (v : Value) : Bool := (firstChoice v).map choiceIndex = some index

/-- The calls that a run of events starts, by their ids and names. -/
def started : List StreamEvent → List (Str × Str) :=
  List.filterMap fun
    | .toolUseStart id name => some (id, name)
    | _ => none

def ends : List StreamEvent → List StopReason :=
  List.filterMap fun
    | .done reason => some reason
    | _ => none

/-! ### The stream -/

/-- The documents of a stream; the sentinel is none. -/
def lineValue (line : Str) : Option Value :=
  (sseData line).bind fun data => if data = "[DONE]".toList then none else fromStr data

def decodeLines (lines : List Str) : List StreamEvent :=
  (Transducer.run (fun s line => decodeSse line s) {} lines).1

theorem isSpoken_of_mem {v : Value} {e : StreamEvent} (he : e ∈ spoken v) : isSpoken e = true := by
  rcases List.mem_append.mp he with hContent | hDone
  · unfold contentEvents decodeDelta at hContent
    split at hContent
    · rename_i choice hChoice
      rcases List.mem_append.mp hContent with hText | hCalls
      · rcases List.mem_append.mp hText with hThinking | hText
        · obtain ⟨text, -, rfl⟩ := List.mem_map.mp hThinking
          rfl
        · obtain ⟨text, -, rfl⟩ := List.mem_map.mp hText
          rfl
      · obtain ⟨call, -, hCall⟩ := List.mem_flatMap.mp hCalls
        rcases List.mem_append.mp hCall with hStart | hFragment
        · obtain ⟨id, -, rfl⟩ := List.mem_map.mp hStart
          rfl
        · obtain ⟨fragment, -, rfl⟩ := List.mem_map.mp hFragment
          rfl
    · cases hContent
  · unfold doneEvents at hDone
    split at hDone
    · rw [List.mem_singleton.mp hDone]
      rfl
    · cases hDone

theorem filter_decodeValue (v : Value) (s : SseState) :
    (decodeValue v s).1.filter isSpoken = spoken v := by
  have hStart : (startEvents v s).filter isSpoken = [] := by
    unfold startEvents
    split_ifs <;> rfl
  have hUsage : (usageEvents v).filter isSpoken = [] := by
    unfold usageEvents
    split
    · split_ifs <;> rfl
    · rfl
  have hContent : (contentEvents v).filter isSpoken = contentEvents v :=
    List.filter_eq_self.mpr fun e he => isSpoken_of_mem (List.mem_append_left _ he)
  have hDone : (doneEvents v).filter isSpoken = doneEvents v :=
    List.filter_eq_self.mpr fun e he => isSpoken_of_mem (List.mem_append_right _ he)
  simp only [decodeValue, List.filter_append, hStart, hUsage, hContent, hDone, List.nil_append,
    List.append_nil, spoken]

theorem filter_decodeSse (line : Str) (s : SseState) :
    (decodeSse line s).1.filter isSpoken = (lineValue line).toList.flatMap spoken := by
  unfold decodeSse lineValue
  cases sseData line with
  | none => rfl
  | some data =>
      rw [Option.bind_some]
      dsimp only
      split_ifs
      · rfl
      · cases fromStr data with
        | none => rfl
        | some v =>
            rw [Option.toList_some, List.flatMap_singleton]
            exact filter_decodeValue v s

theorem filter_decodeLines (lines : List Str) :
    (decodeLines lines).filter isSpoken = (lines.filterMap lineValue).flatMap spoken := by
  suffices ∀ s, ((Transducer.run (fun s line => decodeSse line s) s lines).1).filter isSpoken =
      (lines.filterMap lineValue).flatMap spoken from this {}
  intro s
  induction lines generalizing s with
  | nil => rfl
  | cons line rest ih =>
      rw [Transducer.run_cons, List.filter_append, ih, filter_decodeSse, List.filterMap_cons]
      cases lineValue line with
      | none => rfl
      | some v => rw [Option.toList_some, List.flatMap_singleton, List.flatMap_cons]

theorem started_filter (events : List StreamEvent) :
    started (events.filter isSpoken) = started events := by
  induction events with
  | nil => rfl
  | cons e rest ih =>
      cases e with
      | toolUseStart id name => exact congrArg ((id, name) :: ·) ih
      | _ => exact ih

theorem ends_filter (events : List StreamEvent) : ends (events.filter isSpoken) = ends events := by
  induction events with
  | nil => rfl
  | cons e rest ih =>
      cases e with
      | done reason => exact congrArg (reason :: ·) ih
      | _ => exact ih

theorem textOf_filter (events : List StreamEvent) :
    (events.filter isSpoken).flatMap StreamEvent.textOf = events.flatMap StreamEvent.textOf := by
  induction events with
  | nil => rfl
  | cons e rest ih =>
      cases e with
      | textDelta text => exact congrArg (text ++ ·) ih
      | _ => exact ih

/-- To leave out elements changes what a list gives unless they give nothing. -/
theorem flatMap_eq_filter_iff {α β : Type} (f : α → List β) (p : α → Bool) (l : List α) :
    l.flatMap f = (l.filter p).flatMap f ↔ ∀ a ∈ l, p a = false → f a = [] := by
  have hShorter (l : List α) : ((l.filter p).flatMap f).length ≤ (l.flatMap f).length := by
    induction l with
    | nil => rfl
    | cons a rest ih =>
        cases hKept : p a <;> simp only [List.filter_cons, hKept, List.flatMap_cons,
          List.length_append, Bool.false_eq_true, if_false, if_true]
        · omega
        · omega
  induction l with
  | nil => simp
  | cons a rest ih =>
      rw [List.forall_mem_cons]
      cases hKept : p a with
      | true => simp [hKept, ih]
      | false =>
          have hRest := hShorter rest
          rw [List.filter_cons, hKept, if_neg Bool.false_ne_true, List.flatMap_cons]
          constructor
          · intro hAll
            have hLength := congrArg List.length hAll
            have hNone : f a = [] := by
              rw [List.length_append] at hLength
              exact List.length_eq_zero_iff.mp (by omega)
            rw [hNone] at hAll
            exact ⟨fun _ => hNone, ih.mp hAll⟩
          · rintro ⟨hNone, hAll⟩
            rw [hNone rfl]
            exact ih.mpr hAll

/-! ### The first choice -/

/-- What the chunks of a choice say. -/
def spokenOf (choice : Value) (values : List Value) : List StreamEvent :=
  (values.filter (isOf (choiceIndex choice))).flatMap spoken

/-- The documents of a stream, of one choice each, deliver a choice: those of
its index make up its message, and one of them gives its finish reason. -/
structure Delivers (choice : Value) (values : List Value) : Prop where
  single : ∀ v ∈ values, (choices v).length ≤ 1
  text : (spokenOf choice values).flatMap StreamEvent.textOf =
    (optStr ((choice.get "message").getD .null) "content").getD []
  calls : started (spokenOf choice values) =
    ((optArr ((choice.get "message").getD .null) "tool_calls").getD []).map fun c =>
      ((optStr c "id").getD [], (optStr ((c.get "function").getD .null) "name").getD [])
  ending : ends (spokenOf choice values) = [finishToStop (optStr choice "finish_reason")]

/-- The events carry the choice and no more, and say what the parsed response
does. -/
structure Carries (choice : Value) (values : List Value) (events : List StreamEvent)
    (parsed : ChatResponse) : Prop where
  content : events.filter isSpoken = spokenOf choice values
  text : events.flatMap StreamEvent.textOf = joinText parsed.content
  calls : started events = (parsed.content.filterMap ContentBlock.asCall).map fun c => (c.1, c.2.1)
  ending : ends events = [parsed.stopReason]

theorem joinText_messageBlocks (message : Value) :
    joinText (messageBlocks message) = (optStr message "content").getD [] := by
  have hText : joinText ((nonEmpty (optStr message "content")).map .text) =
      (optStr message "content").getD [] := by
    rcases optStr message "content" with _ | _ | ⟨c, rest⟩ <;>
      simp [nonEmpty, joinText, ContentBlock.asText]
  have hCalls (calls : List Value) : joinText (calls.map parseCall) = [] := by
    simp [joinText, List.filterMap_map, Function.comp_def, parseCall, ContentBlock.asText]
  rw [messageBlocks, joinText_append, hText, hCalls, List.append_nil]

theorem calls_messageBlocks (message : Value) :
    ((messageBlocks message).filterMap ContentBlock.asCall).map (fun c => (c.1, c.2.1)) =
      ((optArr message "tool_calls").getD []).map fun c =>
        ((optStr c "id").getD [], (optStr ((c.get "function").getD .null) "name").getD []) := by
  have hText : ((nonEmpty (optStr message "content")).map ContentBlock.text).filterMap
      ContentBlock.asCall = [] := by
    rcases optStr message "content" with _ | _ | ⟨c, rest⟩ <;> rfl
  rw [messageBlocks, List.filterMap_append, hText, List.nil_append, List.filterMap_map]
  simp [Function.comp_def, parseCall, ContentBlock.asCall]

/-- The events of a stream carry the choice that the buffered parser reads, the
first, exactly when the chunks of other choices say nothing. -/
theorem carries_first_choice_iff (lines : List Str) (bytes : List UInt8) (body choice : Value)
    (hBody : fromSlice bytes = some body) (hFirst : firstChoice body = some choice)
    (hDelivers : Delivers choice (lines.filterMap lineValue)) :
    ∃ parsed, parseResponse bytes = .ok parsed ∧
      (Carries choice (lines.filterMap lineValue) (decodeLines lines) parsed ↔
        ∀ v ∈ lines.filterMap lineValue, isOf (choiceIndex choice) v = false → spoken v = []) := by
  refine ⟨responseOf body choice, by rw [parseResponse, hBody]; simp only [hFirst], ?_⟩
  rw [← flatMap_eq_filter_iff spoken, ← filter_decodeLines]
  constructor
  · exact fun h => h.content
  · intro hContent
    have hSpoken : (decodeLines lines).filter isSpoken = spokenOf choice (lines.filterMap lineValue) :=
      hContent
    refine ⟨hSpoken, ?_, ?_, ?_⟩
    · rw [← textOf_filter, hSpoken, hDelivers.text]
      exact (joinText_messageBlocks _).symm
    · rw [← started_filter, hSpoken, hDelivers.calls]
      exact (calls_messageBlocks _).symm
    · rw [← ends_filter, hSpoken, hDelivers.ending]
      rfl

def chunk (index : Nat) (text : String) : Value :=
  obj [("choices", .array [obj [("index", .nat index), ("delta", obj [("content",
    .string text.toList)]), ("finish_reason", .string "stop".toList)]])]

def choiceOf (index : Nat) (text : String) : Value :=
  obj [("index", .nat index), ("message", obj [("content", .string text.toList)]),
    ("finish_reason", .string "stop".toList)]

def linesOf (values : List Value) : List Str := values.map fun v => "data: ".toList ++ v.render

def bodyOf (choices : List Value) : Value := obj [("choices", .array choices)]

/-- A stream of one choice. -/
theorem carries_only_choice :
    ∃ parsed, parseResponse (Text.toUtf8 (bodyOf [choiceOf 0 "Hi"]).render) = .ok parsed ∧
      (Carries (choiceOf 0 "Hi") ((linesOf [chunk 0 "Hi"]).filterMap lineValue)
          (decodeLines (linesOf [chunk 0 "Hi"])) parsed ↔
        ∀ v ∈ (linesOf [chunk 0 "Hi"]).filterMap lineValue,
          isOf (choiceIndex (choiceOf 0 "Hi")) v = false → spoken v = []) := by
  have hValues : (linesOf [chunk 0 "Hi"]).filterMap lineValue = [chunk 0 "Hi"] := by decide +kernel
  refine carries_first_choice_iff _ _ (bodyOf [choiceOf 0 "Hi"]) _ (by decide +kernel) rfl ?_
  rw [hValues]
  exact ⟨by decide, by decide, by decide, by decide⟩

/-- A second choice speaks up among the first one's chunks. -/
theorem second_choice_heard :
    ends (decodeLines (linesOf [chunk 0 "Hi", chunk 1 "Yo"])) = [.endTurn, .endTurn] ∧
      ¬ ∀ lines bytes body choice, fromSlice bytes = some body → firstChoice body = some choice →
        Delivers choice (lines.filterMap lineValue) →
          ∃ parsed, parseResponse bytes = .ok parsed ∧
            Carries choice (lines.filterMap lineValue) (decodeLines lines) parsed := by
  have hValues : (linesOf [chunk 0 "Hi", chunk 1 "Yo"]).filterMap lineValue =
      [chunk 0 "Hi", chunk 1 "Yo"] := by decide +kernel
  have hBody : fromSlice (Text.toUtf8 (bodyOf [choiceOf 0 "Hi", choiceOf 1 "Yo"]).render) =
      some (bodyOf [choiceOf 0 "Hi", choiceOf 1 "Yo"]) := by decide +kernel
  have hEnds : ends (decodeLines (linesOf [chunk 0 "Hi", chunk 1 "Yo"])) =
      [.endTurn, .endTurn] := by
    rw [← ends_filter, filter_decodeLines, hValues]
    decide
  refine ⟨hEnds, fun h => ?_⟩
  obtain ⟨parsed, -, hCarries⟩ := h _ _ _ (choiceOf 0 "Hi") hBody rfl <| by
    rw [hValues]
    exact ⟨by decide, by decide, by decide, by decide⟩
  rw [hCarries.ending] at hEnds
  exact absurd (congrArg List.length hEnds) (Nat.lt_succ_self 1).ne

end Gateway.Wire.OpenaiChat
