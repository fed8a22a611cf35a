import Gateway.Service.Dialect
import Gateway.Wire.Marker

/-! Where the Messages encoder writes the text that is taken for the end. -/
namespace Gateway.Wire.Anthropic

open Json

def stopMarker : Str := "message_stop".toList

theorem stopMarker_marker : Marker stopMarker where
  inString := ⟨by decide, '_', by decide, by decide⟩
  noBreak := by decide
  noBrace := by decide
  notLead := by decide

/-- A string that would be taken for the end. -/
abbrev Marked (s : Str) : Prop := stopMarker <:+: escape s

theorem marked_iff (s : Str) : Marked s ↔ stopMarker <:+: s := by
  have hEnding : endingIn 'm' = [] := by decide
  rw [Marked, show stopMarker = 'm' :: "essage_stop".toList from rfl,
    infix_escape_iff_endingIn (by decide) (by decide) (Text.forall_mem_of_all (by decide)),
    hEnding]
  simp

/-- The strings an event puts on the stream, the model of an opening event it
calls for included. -/
def carried (s : EmitState) (e : StreamEvent) : List Str :=
  let opening := if s.started then [] else [s.model]
  match e with
  | .messageStart model => [model]
  | .textDelta text | .thinkingDelta text | .toolUseDelta text => opening ++ [text]
  | .toolUseStart id name => opening ++ [id, name]
  | .usageDelta _ => []
  | .done reason => opening ++ [stopReasonStr reason]

theorem shows_emitMessageStart (s : EmitState) :
    Shows stopMarker (emitMessageStart s).1 ↔ Marked s.model := by
  rw [emitMessageStart, shows_cons, infix_named_iff stopMarker_marker _ (by simp)]
  simp +decide [carries_obj, carries_array]

theorem shows_ensureStarted (s : EmitState) :
    Shows stopMarker (ensureStarted s).1 ↔ s.started = false ∧ Marked s.model := by
  unfold ensureStarted
  split_ifs with h
  · simp [h]
  · simp [shows_emitMessageStart, h]

theorem shows_closeOpen (s : EmitState) : ¬ Shows stopMarker (closeOpen s).1 := by
  unfold closeOpen
  split
  · simp
  · rw [shows_cons, infix_named_iff stopMarker_marker _ (by simp)]
    simp +decide

theorem marked_blockStart (index : Nat) (block : Value) :
    stopMarker <:+: (blockStart index block).text ↔ Carries Marked block := by
  rw [blockStart, infix_named_iff stopMarker_marker _ (by simp)]
  simp +decide

theorem marked_deltaFrame (index : Nat) (delta : Value) :
    stopMarker <:+: (deltaFrame index delta).text ↔ Carries Marked delta := by
  rw [deltaFrame, infix_named_iff stopMarker_marker _ (by simp)]
  simp +decide

theorem opening_unmarked (kind : BlockKind) : ¬ Carries Marked kind.opening := by
  cases kind <;> simp +decide [BlockKind.opening, carries_obj]

theorem shows_ensureBlock (s : EmitState) (kind : BlockKind) :
    Shows stopMarker (ensureBlock s kind).1 ↔ s.started = false ∧ Marked s.model := by
  simp only [ensureBlock]
  split_ifs
  · exact shows_ensureStarted s
  · simp [shows_ensureStarted, shows_closeOpen, marked_blockStart, opening_unmarked]

theorem shows_writeDelta (s : EmitState) (kind : BlockKind) (delta : Value) :
    Shows stopMarker (writeDelta s kind delta).1 ↔
      (s.started = false ∧ Marked s.model) ∨ Carries Marked delta := by
  simp [writeDelta, shows_ensureBlock, marked_deltaFrame]

/-- An event shows the marker when it ends the answer or puts a marked string
on the stream. -/
theorem shows_encodeEvent (s : EmitState) (e : StreamEvent) :
    Shows stopMarker (encodeEvent s e).1 ↔ e.isDone = true ∨ ∃ t ∈ carried s e, Marked t := by
  have hOpening : (∃ t ∈ (if s.started then [] else [s.model]), Marked t) ↔
      s.started = false ∧ Marked s.model := by
    cases s.started <;> simp
  cases e with
  | messageStart model => simp [encodeEvent, shows_emitMessageStart, carried, StreamEvent.isDone]
  | textDelta text =>
      simp only [encodeEvent, shows_writeDelta, carried, List.mem_append, or_and_right, exists_or,
        hOpening]
      simp +decide [carries_obj, StreamEvent.isDone]
  | thinkingDelta text =>
      simp only [encodeEvent, shows_writeDelta, carried, List.mem_append, or_and_right, exists_or,
        hOpening]
      simp +decide [carries_obj, StreamEvent.isDone]
  | toolUseDelta fragment =>
      simp only [encodeEvent, shows_writeDelta, carried, List.mem_append, or_and_right, exists_or,
        hOpening]
      simp +decide [carries_obj, StreamEvent.isDone]
  | toolUseStart id name =>
      simp only [encodeEvent, shows_append, shows_ensureStarted, shows_closeOpen, shows_cons,
        marked_blockStart, carried, List.mem_append, or_and_right, exists_or, hOpening]
      simp +decide [carries_obj, StreamEvent.isDone]
  | usageDelta usage => simp [encodeEvent, carried, StreamEvent.isDone]
  | done reason =>
      have hStop : stopMarker <:+:
          (Frame.named "message_stop" (obj [("type", .string "message_stop".toList)])).text := by
        rw [infix_named_iff stopMarker_marker _ (by simp)]
        exact Or.inl (by decide)
      exact iff_of_true ⟨_, by simp [encodeEvent], hStop⟩ (Or.inl rfl)

/-! ### The terminal event -/

/-- The frame that ends an answer. -/
def isTerminal (f : Frame) : Bool := f.event = some "message_stop"

theorem any_ensureStarted (s : EmitState) : (ensureStarted s).1.any isTerminal = false := by
  unfold ensureStarted
  split_ifs <;> simp [emitMessageStart, isTerminal, Frame.named]

theorem any_closeOpen (s : EmitState) : (closeOpen s).1.any isTerminal = false := by
  unfold closeOpen
  split <;> simp [isTerminal, Frame.named]

theorem any_writeDelta (s : EmitState) (kind : BlockKind) (delta : Value) :
    (writeDelta s kind delta).1.any isTerminal = false := by
  simp only [writeDelta, ensureBlock]
  split_ifs <;>
    simp [any_ensureStarted, any_closeOpen, isTerminal, blockStart, deltaFrame, Frame.named]

/-- The encoder ends an answer where the events do. -/
theorem any_encodeEvent (s : EmitState) (e : StreamEvent) :
    (encodeEvent s e).1.any isTerminal = e.isDone := by
  cases e with
  | messageStart model => simp [encodeEvent, emitMessageStart, isTerminal, Frame.named,
      StreamEvent.isDone]
  | textDelta text => exact any_writeDelta ..
  | thinkingDelta text => exact any_writeDelta ..
  | toolUseStart id name => simp [encodeEvent, any_ensureStarted, any_closeOpen, isTerminal,
      blockStart, Frame.named, StreamEvent.isDone]
  | toolUseDelta fragment => exact any_writeDelta ..
  | usageDelta usage => rfl
  | done reason => simp [encodeEvent, isTerminal, Frame.named, StreamEvent.isDone]

end Gateway.Wire.Anthropic
