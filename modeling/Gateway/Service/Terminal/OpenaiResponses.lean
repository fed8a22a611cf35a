import Gateway.Service.Dialect
import Gateway.Service.Terminal.Gate
import Gateway.Wire.Marker

/-! Where the Responses encoder writes the text that is taken for the end. An
item's text goes out again when the item closes. -/
namespace Gateway.Wire.OpenaiResponses

open Json

def completedMarker : Str := "response.completed".toList

theorem completedMarker_marker : Marker completedMarker where
  inString := ⟨by decide, 'o', by decide, by decide⟩
  noBreak := by decide
  noBrace := by decide
  notLead := by decide

/-- A string that would be taken for the end. -/
abbrev Marked (s : Str) : Prop := completedMarker <:+: escape s

/-- A carriage return is written as an escape that ends in the marker's first
letter. -/
theorem marked_iff (s : Str) :
    Marked s ↔ completedMarker <:+: s ∨ '\r' :: "esponse.completed".toList <:+: s := by
  have hEnding : endingIn 'r' = ['\r'] := by decide
  rw [Marked, show completedMarker = 'r' :: "esponse.completed".toList from rfl,
    infix_escape_iff_endingIn (by decide) (by decide) (Text.forall_mem_of_all (by decide)),
    hEnding]
  simp

theorem unmarked_of_noDot {s : Str} (h : '.' ∉ s) : ¬ Marked s := by
  rw [marked_iff]
  rintro (hInfix | hInfix)
  · exact h (hInfix.subset (by decide))
  · exact h (hInfix.subset (by decide))

theorem dot_notMem_digits (n : Nat) : '.' ∉ digits n :=
  fun h => absurd (Nat.isDigit_of_mem_toDigits (by decide) (by decide) h) (by decide)

theorem itemId_unmarked {lead : String} (h : '.' ∉ lead.toList) (index : Nat) :
    ¬ Marked (itemId lead index) := by
  refine unmarked_of_noDot ?_
  rw [itemId, List.mem_append, not_or]
  exact ⟨h, dot_notMem_digits index⟩

/-- The strings an item repeats when it closes. -/
def OpenItem.strings : OpenItem → List Str
  | .message id _ text | .reasoning id _ text => [id, text]
  | .tool id _ callId name args => [id, callId, name, args]

def EmitState.openStrings (s : EmitState) : List Str := (s.open.map OpenItem.strings).getD []

/-- The strings of a prompt-cache echo. -/
def cacheStrings (key retention : Option Str) : List Str :=
  match key with
  | none => []
  | some key => [key, retention.getD "24h".toList]

/-- The strings an event puts on the stream. -/
def carried (s : EmitState) : StreamEvent → List Str
  | .messageStart model => s.respId :: model :: cacheStrings s.promptCacheKey s.promptCacheRetention
  | .textDelta text =>
      match s.open with
      | some (.message id _ _) => [id, text]
      | _ => s.openStrings ++ [text]
  | .thinkingDelta text =>
      match s.open with
      | some (.reasoning id _ _) => [id, text]
      | _ => s.openStrings ++ [text]
  | .toolUseStart id name => s.openStrings ++ [id, name]
  | .toolUseDelta fragment =>
      match s.open with
      | some (.tool id _ _ _ _) => [id, fragment]
      | _ => []
  | .usageDelta _ => []
  | .done _ => s.openStrings

/-- `response.completed` always waits for usage. -/
def EmitState.gate (s : EmitState) : Gate := ⟨true, s.usage.isSome, s.pendingCompleted⟩

/-- A member with a marked string. -/
def Tells (data : List (String × Value)) : Prop :=
  ∃ f ∈ data, Marked f.1.toList ∨ Carries Marked f.2

@[simp] theorem tells_nil : ¬ Tells [] := by simp [Tells]

@[simp] theorem tells_cons (key : String) (v : Value) (data : List (String × Value)) :
    Tells ((key, v) :: data) ↔ (Marked key.toList ∨ Carries Marked v) ∨ Tells data := by
  simp only [Tells, List.mem_cons, exists_eq_or_imp]

theorem carries_obj_iff_tells {data : List (String × Value)}
    (distinct : (data.map Prod.fst).Nodup) : Carries Marked (obj data) ↔ Tells data :=
  carries_obj Marked distinct

/-- An event, by name and members, that has the marker. -/
def Published (ev : String × List (String × Value)) : Prop :=
  completedMarker <:+: "event: ".toList ++ ev.1.toList ∨ Marked ev.1.toList ∨ Tells ev.2

/-- The members of an event have different names. -/
def Distinct (ev : String × List (String × Value)) : Prop :=
  ("type" :: ev.2.map Prod.fst ++ ["sequence_number"]).Nodup

theorem shows_writeEvent (s : EmitState) {name : String} {data : List (String × Value)}
    (distinct : Distinct (name, data)) :
    Shows completedMarker (writeEvent s name data).1 ↔ Published (name, data) := by
  have hType : ¬ Marked "type".toList := by decide
  have hNumber : ¬ Marked "sequence_number".toList := by decide
  rw [writeEvent, shows_cons, infix_named_iff completedMarker_marker _ (by simpa [Distinct] using
    distinct)]
  simp only [Published, Tells, List.mem_append, List.mem_cons, or_and_right, exists_or,
    exists_eq_left, carries_string, carries_nat, hType, hNumber]
  simp

theorem shows_writeEvents (s : EmitState) {events : List (String × List (String × Value))}
    (distinct : ∀ ev ∈ events, Distinct ev) :
    Shows completedMarker (writeEvents s events).1 ↔ ∃ ev ∈ events, Published ev := by
  unfold writeEvents
  induction events generalizing s with
  | nil => simp
  | cons ev rest ih =>
      rw [Transducer.run_cons, shows_append, shows_writeEvent s (distinct ev (by simp)),
        ih _ (fun e he => distinct e (List.mem_cons_of_mem _ he))]
      simp

theorem published_closing (item : OpenItem) :
    (∃ ev ∈ item.closing ++ [("response.output_item.done",
        [("output_index", .nat item.index), ("item", item.completed)])], Published ev) ↔
      ∃ t ∈ item.strings, Marked t := by
  cases item with
  | message id index text =>
      simp +decide [OpenItem.closing, OpenItem.completed, OpenItem.strings, Published, messageItem,
        carries_obj_iff_tells, carries_array]
  | reasoning id index text =>
      simp +decide [OpenItem.closing, OpenItem.completed, OpenItem.strings, Published,
        reasoningItem, carries_obj_iff_tells, carries_array]
  | tool id index callId name args =>
      simp +decide [OpenItem.closing, OpenItem.completed, OpenItem.strings, Published,
        functionCallItem, carries_obj_iff_tells]
      tauto

theorem distinct_closing (item : OpenItem) :
    ∀ ev ∈ item.closing ++ [("response.output_item.done",
      [("output_index", .nat item.index), ("item", item.completed)])], Distinct ev := by
  cases item <;> simp [OpenItem.closing, Distinct]

theorem shows_closeOpen (s : EmitState) :
    Shows completedMarker (closeOpen s).1 ↔ ∃ t ∈ s.openStrings, Marked t := by
  unfold closeOpen EmitState.openStrings
  cases s.open with
  | none => simp
  | some item =>
      rw [shows_writeEvents _ (distinct_closing item), published_closing]
      rfl

/-- Opening an item shows the marker only through the item it closes. -/
theorem shows_ensureMessage (s : EmitState) :
    Shows completedMarker (ensureMessage s).1 ↔
      (∀ id index text, s.open ≠ some (.message id index text)) ∧
        ∃ t ∈ s.openStrings, Marked t := by
  have hId (index : Nat) : ¬ Marked (itemId "msg_" index) := itemId_unmarked (by decide) index
  unfold ensureMessage
  split
  · rename_i id index text hOpen
    simp [hOpen]
  · rename_i hOpen
    rw [shows_append, shows_closeOpen, shows_writeEvents _ (by simp [Distinct])]
    simp +decide [Published, carries_obj_iff_tells, carries_array, hId]
    exact fun _ _ _ => hOpen

theorem shows_ensureReasoning (s : EmitState) :
    Shows completedMarker (ensureReasoning s).1 ↔
      (∀ id index text, s.open ≠ some (.reasoning id index text)) ∧
        ∃ t ∈ s.openStrings, Marked t := by
  have hId (index : Nat) : ¬ Marked (itemId "rs_" index) := itemId_unmarked (by decide) index
  unfold ensureReasoning
  split
  · rename_i id index text hOpen
    simp [hOpen]
  · rename_i hOpen
    rw [shows_append, shows_closeOpen, shows_writeEvents _ (by simp [Distinct])]
    simp +decide [Published, carries_obj_iff_tells, carries_array, hId]
    exact fun _ _ _ => hOpen

theorem shows_writeCompleted (s : EmitState) : Shows completedMarker (writeCompleted s).1 := by
  rw [writeCompleted, shows_writeEvent s (by simp [Distinct])]
  exact Or.inl (by decide : completedMarker <:+: "event: ".toList ++ "response.completed".toList)

theorem shows_finish (s : EmitState) :
    Shows completedMarker s.finish.1 ↔ s.pendingCompleted = true := by
  unfold EmitState.finish
  split_ifs with h
  · simp [shows_writeCompleted, h]
  · simpa using h

theorem carries_responseObj (s : EmitState) (status : String) (hStatus : ¬ Marked status.toList) :
    Carries Marked (s.responseObj status []) ↔
      ∃ t ∈ s.respId :: s.model :: cacheStrings s.promptCacheKey s.promptCacheRetention,
        Marked t := by
  have hUsage : ¬ Carries Marked ((s.usage.map usageValue).getD .null) := by
    cases s.usage with
    | none => simp
    | some u => simp +decide [usageValue, carries_obj_iff_tells]
  unfold EmitState.responseObj cacheFields cacheStrings
  cases s.promptCacheKey with
  | none =>
      rw [List.append_nil, carries_obj_iff_tells (by simp)]
      simp +decide [carries_array, hUsage, hStatus]
  | some key =>
      rw [carries_obj_iff_tells (by simp)]
      simp +decide [carries_array, hUsage, hStatus]

theorem shows_opening (s : EmitState) (v : Value) :
    Shows completedMarker (writeEvents s [("response.created", [("response", v)]),
      ("response.in_progress", [("response", v)])]).1 ↔ Carries Marked v := by
  rw [shows_writeEvents _ (by simp [Distinct])]
  simp +decide [Published]

theorem marked_respId (s : EmitState) :
    Marked (if s.respId.isEmpty then "resp_stream".toList else s.respId) ↔ Marked s.respId := by
  split_ifs with h
  · rw [List.isEmpty_iff.mp h]
    decide
  · rfl

theorem carried_textDelta_of_other {s : EmitState} (text : Str)
    (h : ∀ id index acc, s.open ≠ some (.message id index acc)) :
    carried s (.textDelta text) = s.openStrings ++ [text] := by
  simp only [carried]

theorem carried_thinkingDelta_of_other {s : EmitState} (text : Str)
    (h : ∀ id index acc, s.open ≠ some (.reasoning id index acc)) :
    carried s (.thinkingDelta text) = s.openStrings ++ [text] := by
  simp only [carried]

theorem shows_textDelta (s : EmitState) (text : Str) :
    Shows completedMarker (encodeEvent s (.textDelta text)).1 ↔
      ∃ t ∈ carried s (.textDelta text), Marked t := by
  by_cases hMessage : ∃ id index acc, s.open = some (.message id index acc)
  · obtain ⟨id, index, acc, hOpen⟩ := hMessage
    simp only [encodeEvent, ensureMessage_of_message hOpen, hOpen, List.nil_append]
    rw [shows_writeEvent _ (by simp [Distinct])]
    simp +decide [Published, carried, hOpen, carries_array]
  · push Not at hMessage
    have hId : ¬ Marked (itemId "msg_" s.nextIndex) := itemId_unmarked (by decide) _
    simp only [encodeEvent, ensureMessage_open_of_other hMessage]
    rw [shows_append, shows_ensureMessage, shows_writeEvent _ (by simp [Distinct]),
      carried_textDelta_of_other text hMessage]
    simp +decide [Published, hId, hMessage, carries_array, or_and_right, exists_or]

theorem shows_thinkingDelta (s : EmitState) (text : Str) :
    Shows completedMarker (encodeEvent s (.thinkingDelta text)).1 ↔
      ∃ t ∈ carried s (.thinkingDelta text), Marked t := by
  by_cases hReasoning : ∃ id index acc, s.open = some (.reasoning id index acc)
  · obtain ⟨id, index, acc, hOpen⟩ := hReasoning
    simp only [encodeEvent, ensureReasoning_of_reasoning hOpen, hOpen, List.nil_append]
    rw [shows_writeEvent _ (by simp [Distinct])]
    simp +decide [Published, carried, hOpen]
  · push Not at hReasoning
    have hId : ¬ Marked (itemId "rs_" s.nextIndex) := itemId_unmarked (by decide) _
    simp only [encodeEvent, ensureReasoning_open_of_other hReasoning]
    rw [shows_append, shows_ensureReasoning, shows_writeEvent _ (by simp [Distinct]),
      carried_thinkingDelta_of_other text hReasoning]
    simp +decide [Published, hId, hReasoning, or_and_right, exists_or]

theorem shows_toolUseDelta (s : EmitState) (fragment : Str) :
    Shows completedMarker (encodeEvent s (.toolUseDelta fragment)).1 ↔
      ∃ t ∈ carried s (.toolUseDelta fragment), Marked t := by
  simp only [encodeEvent, carried]
  split
  · rename_i hOpen
    rw [shows_writeEvent _ (by simp [Distinct])]
    simp +decide [Published, hOpen]
  · simp

/-- An event shows the marker when it releases `response.completed` or puts a
marked string on the stream. -/
theorem shows_encodeEvent (s : EmitState) (e : StreamEvent) :
    Shows completedMarker (encodeEvent s e).1 ↔
      s.gate.opens e = true ∨ ∃ t ∈ carried s e, Marked t := by
  cases e with
  | messageStart model =>
      simp only [encodeEvent, carried, Gate.opens]
      rw [shows_opening, carries_responseObj _ _ (by decide)]
      simp only [List.mem_cons, exists_eq_or_imp, marked_respId, Bool.false_eq_true, false_or]
  | textDelta text => simp [shows_textDelta, Gate.opens]
  | thinkingDelta text => simp [shows_thinkingDelta, Gate.opens]
  | toolUseStart id name =>
      have hId (index : Nat) : ¬ Marked (itemId "fc_" index) := itemId_unmarked (by decide) index
      simp only [encodeEvent]
      rw [shows_append, shows_closeOpen, shows_writeEvent _ (by simp [Distinct])]
      simp +decide [Published, carries_obj_iff_tells, hId, carried, Gate.opens, or_and_right, exists_or]
  | toolUseDelta fragment => simp [shows_toolUseDelta, Gate.opens]
  | usageDelta usage => simp [encodeEvent, shows_finish, carried, EmitState.gate, Gate.opens]
  | done reason =>
      simp only [encodeEvent, closeOpen_usage, EmitState.gate, Gate.opens, carried]
      cases s.usage with
      | none => simp [shows_closeOpen]
      | some u => simp [shows_writeCompleted]

/-! ### The terminal event -/

/-- The frame that ends an answer. -/
def isTerminal (f : Frame) : Bool := f.event = some "response.completed"

theorem any_writeEvents (s : EmitState) (events : List (String × List (String × Value))) :
    (writeEvents s events).1.any isTerminal = events.any (fun ev => ev.1 = "response.completed") := by
  unfold writeEvents
  induction events generalizing s with
  | nil => rfl
  | cons ev rest ih =>
      rw [Transducer.run_cons, List.any_append, ih]
      simp [writeEvent, isTerminal, Frame.named]

theorem any_writeEvent (s : EmitState) (name : String) (data : List (String × Value)) :
    (writeEvent s name data).1.any isTerminal = decide (name = "response.completed") := by
  simp [writeEvent, isTerminal, Frame.named]

theorem any_closeOpen (s : EmitState) : (closeOpen s).1.any isTerminal = false := by
  unfold closeOpen
  cases s.open with
  | none => rfl
  | some item =>
      simp only [any_writeEvents]
      cases item <;> simp [OpenItem.closing]

theorem any_ensureMessage (s : EmitState) : (ensureMessage s).1.any isTerminal = false := by
  unfold ensureMessage
  split
  · rfl
  · rw [List.any_append, any_closeOpen, any_writeEvents]
    rfl

theorem any_ensureReasoning (s : EmitState) : (ensureReasoning s).1.any isTerminal = false := by
  unfold ensureReasoning
  split
  · rfl
  · rw [List.any_append, any_closeOpen, any_writeEvents]
    rfl

theorem any_finish (s : EmitState) : s.finish.1.any isTerminal = s.pendingCompleted := by
  unfold EmitState.finish
  split_ifs with h
  · rw [writeCompleted, any_writeEvent, h]
    rfl
  · simp [h]

/-- The encoder ends an answer where it releases `response.completed`. -/
theorem any_encodeEvent (s : EmitState) (e : StreamEvent) :
    (encodeEvent s e).1.any isTerminal = s.gate.opens e := by
  cases e with
  | messageStart model =>
      simp only [encodeEvent, any_writeEvents]
      rfl
  | textDelta text =>
      simp only [encodeEvent]
      split
      · rw [List.any_append, any_ensureMessage, any_writeEvent]
        rfl
      · exact any_ensureMessage s
  | thinkingDelta text =>
      simp only [encodeEvent]
      split
      · rw [List.any_append, any_ensureReasoning, any_writeEvent]
        rfl
      · exact any_ensureReasoning s
  | toolUseStart id name =>
      simp only [encodeEvent]
      rw [List.any_append, any_closeOpen, any_writeEvent]
      rfl
  | toolUseDelta fragment =>
      simp only [encodeEvent]
      split
      · rw [any_writeEvent]
        rfl
      · rfl
  | usageDelta usage => simp [encodeEvent, any_finish, EmitState.gate, Gate.opens]
  | done reason =>
      simp only [encodeEvent, closeOpen_usage, EmitState.gate, Gate.opens]
      cases s.usage with
      | none => exact any_closeOpen s
      | some u =>
          simp only [List.any_append, any_closeOpen, writeCompleted, any_writeEvent]
          rfl

@[simp] theorem writeEvents_gate (s : EmitState)
    (events : List (String × List (String × Value))) : (writeEvents s events).2.gate = s.gate := by
  induction events generalizing s with
  | nil => rfl
  | cons e es ih => exact ih _

@[simp] theorem closeOpen_gate (s : EmitState) : (closeOpen s).2.gate = s.gate := by
  unfold closeOpen
  cases s.open with
  | none => rfl
  | some item => exact writeEvents_gate _ _

theorem ensureMessage_gate (s : EmitState) : (ensureMessage s).2.gate = s.gate := by
  unfold ensureMessage
  split
  · rfl
  · exact (writeEvents_gate _ _).trans (closeOpen_gate s)

theorem ensureReasoning_gate (s : EmitState) : (ensureReasoning s).2.gate = s.gate := by
  unfold ensureReasoning
  split
  · rfl
  · exact (writeEvents_gate _ _).trans (closeOpen_gate s)

theorem gate_encodeEvent (s : EmitState) (e : StreamEvent) :
    (encodeEvent s e).2.gate = s.gate.after e := by
  cases e with
  | messageStart model => exact writeEvents_gate _ _
  | textDelta text =>
      simp only [encodeEvent]
      split
      · exact ensureMessage_gate s
      · exact ensureMessage_gate s
  | thinkingDelta text =>
      simp only [encodeEvent]
      split
      · exact ensureReasoning_gate s
      · exact ensureReasoning_gate s
  | toolUseStart id name => exact closeOpen_gate s
  | toolUseDelta fragment =>
      simp only [encodeEvent]
      split <;> rfl
  | usageDelta usage =>
      simp only [encodeEvent, EmitState.finish, Gate.after, EmitState.gate]
      split_ifs with h <;> simp_all [writeCompleted, writeEvent]
  | done reason =>
      have hGate := closeOpen_gate s
      simp only [EmitState.gate, Gate.mk.injEq] at hGate
      simp only [encodeEvent, closeOpen_usage, EmitState.gate, Gate.after]
      cases hUsage : s.usage <;> simp_all [writeCompleted, writeEvent]

end Gateway.Wire.OpenaiResponses
