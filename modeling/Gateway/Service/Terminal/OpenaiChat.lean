import Gateway.Service.Dialect
import Gateway.Service.Terminal.Gate
import Gateway.Wire.Marker

/-! Where the Chat Completions encoder writes the text that is taken for the
end. Every chunk repeats the model's name. -/
namespace Gateway.Wire.OpenaiChat

open Json

def doneMarker : Str := "data: [DONE]".toList

theorem doneMarker_marker : Marker doneMarker where
  inString := ⟨by decide, 'd', by decide, by decide⟩
  noBreak := by decide
  noBrace := by decide
  notLead := by decide

/-- A string that would be taken for the end. -/
abbrev Marked (s : Str) : Prop := doneMarker <:+: escape s

/-- The control character U+001D is written as an escape that ends in the
marker's first letter. -/
theorem marked_iff (s : Str) :
    Marked s ↔ doneMarker <:+: s ∨ '\x1d' :: "ata: [DONE]".toList <:+: s := by
  have hEnding : endingIn 'd' = ['\x1d'] := by decide
  rw [Marked, show doneMarker = 'd' :: "ata: [DONE]".toList from rfl,
    infix_escape_iff_endingIn (by decide) (by decide) (Text.forall_mem_of_all (by decide)),
    hEnding]
  simp

/-- The strings an event puts on the stream. -/
def carried (s : EmitState) : StreamEvent → List Str
  | .messageStart model => [model]
  | .textDelta text | .thinkingDelta text | .toolUseDelta text => [s.model, text]
  | .toolUseStart id name => [s.model, id, name]
  | .usageDelta _ => if s.pendingDone then [s.model] else []
  | .done reason => [s.model, stopToFinish reason]

/-- The sentinel waits for usage where the client asked for it. -/
def EmitState.gate (s : EmitState) : Gate := ⟨s.includeUsage, s.usage.isSome, s.pendingDone⟩

theorem marked_writeChunk (s : EmitState) (delta : Value) (finish : Option Str) :
    doneMarker <:+: (writeChunk s delta finish).text ↔
      Marked s.model ∨ Carries Marked delta ∨ ∃ r, finish = some r ∧ Marked r := by
  rw [writeChunk, envelope, infix_data_iff doneMarker_marker (by simp)]
  cases finish <;> simp +decide [carries_obj, carries_array]

theorem emitUsage_unmarked (u : Usage) : ¬ Carries Marked (emitUsage u) := by
  unfold emitUsage
  split_ifs <;> simp +decide [carries_obj]

theorem marked_writeUsageChunk (s : EmitState) (u : Usage) :
    doneMarker <:+: (writeUsageChunk s u).text ↔ Marked s.model := by
  rw [writeUsageChunk, envelope, infix_data_iff doneMarker_marker (by simp)]
  simp +decide [carries_array, emitUsage_unmarked]

theorem marked_sentinel : doneMarker <:+: Frame.sentinel.text := by decide

theorem shows_ensureStarted (s : EmitState) :
    Shows doneMarker (ensureStarted s).1 ↔ s.started = false ∧ Marked s.model := by
  unfold ensureStarted
  split_ifs with h
  · simp [h]
  · simp +decide [marked_writeChunk, carries_obj, h]

@[simp] theorem ensureStarted_model (s : EmitState) : (ensureStarted s).2.model = s.model := by
  unfold ensureStarted
  split_ifs <;> rfl

@[simp] theorem ensureStarted_includeUsage (s : EmitState) :
    (ensureStarted s).2.includeUsage = s.includeUsage := by
  unfold ensureStarted
  split_ifs <;> rfl

@[simp] theorem ensureStarted_usage (s : EmitState) : (ensureStarted s).2.usage = s.usage := by
  unfold ensureStarted
  split_ifs <;> rfl

theorem shows_writeDelta (s : EmitState) (delta : Value) :
    Shows doneMarker (writeDelta s delta).1 ↔ Marked s.model ∨ Carries Marked delta := by
  simp only [writeDelta, shows_append, shows_ensureStarted, shows_cons, marked_writeChunk,
    ensureStarted_model]
  simp
  tauto

theorem indexValue_unmarked (i : Int) : ¬ Carries Marked (indexValue i) := by
  unfold indexValue
  split_ifs <;> simp

theorem shows_finish (s : EmitState) : Shows doneMarker s.finish.1 ↔ s.pendingDone = true := by
  unfold EmitState.finish
  split_ifs with h
  · simp [marked_sentinel, h]
  · simpa using h

/-- An event shows the marker when it releases the sentinel or puts a marked
string on the stream. -/
theorem shows_encodeEvent (s : EmitState) (e : StreamEvent) :
    Shows doneMarker (encodeEvent s e).1 ↔ s.gate.opens e = true ∨ ∃ t ∈ carried s e, Marked t := by
  cases e with
  | messageStart model =>
      simp +decide [encodeEvent, marked_writeChunk, carried, Gate.opens, carries_obj]
  | textDelta text =>
      simp +decide [encodeEvent, shows_writeDelta, carried, Gate.opens, carries_obj]
  | thinkingDelta text =>
      simp +decide [encodeEvent, shows_writeDelta, carried, Gate.opens, carries_obj]
  | toolUseStart id name =>
      simp only [encodeEvent, shows_append, shows_ensureStarted, shows_cons, marked_writeChunk,
        ensureStarted_model]
      simp +decide [carried, Gate.opens, carries_obj, carries_array, indexValue_unmarked]
      tauto
  | toolUseDelta fragment =>
      simp +decide [encodeEvent, shows_writeDelta, carried, Gate.opens, carries_obj, carries_array,
        indexValue_unmarked]
  | usageDelta usage =>
      by_cases h : s.pendingDone <;> simp [encodeEvent, shows_finish, carried, EmitState.gate, Gate.opens, h]
  | done reason =>
      have hClosing : Shows doneMarker ((ensureStarted s).1 ++
          [writeChunk (ensureStarted s).2 (obj []) (some (stopToFinish reason))]) ↔
          ∃ t ∈ [s.model, stopToFinish reason], Marked t := by
        simp only [shows_append, shows_ensureStarted, shows_cons, marked_writeChunk,
          ensureStarted_model]
        simp [carries_obj]
        tauto
      simp only [encodeEvent, ensureStarted_includeUsage, ensureStarted_usage, EmitState.gate, Gate.opens, carried]
      cases hInclude : s.includeUsage with
      | false => simp [marked_sentinel]
      | true =>
          cases hUsage : s.usage with
          | none => simpa using hClosing
          | some u => simp [marked_sentinel]

/-! ### The terminal event -/

/-- The frame that ends an answer. -/
def isTerminal (f : Frame) : Bool := f.payload = .done

@[simp] theorem isTerminal_data (v : Value) : isTerminal (.data v) = false := rfl

@[simp] theorem isTerminal_sentinel : isTerminal .sentinel = true := rfl

@[simp] theorem isTerminal_writeChunk (s : EmitState) (delta : Value) (finish : Option Str) :
    isTerminal (writeChunk s delta finish) = false := rfl

@[simp] theorem any_ensureStarted (s : EmitState) : (ensureStarted s).1.any isTerminal = false := by
  unfold ensureStarted
  split_ifs <;> simp

theorem any_finish (s : EmitState) : s.finish.1.any isTerminal = s.pendingDone := by
  unfold EmitState.finish
  split_ifs with h <;> simp [h]

/-- The encoder ends an answer where it releases the sentinel. -/
theorem any_encodeEvent (s : EmitState) (e : StreamEvent) :
    (encodeEvent s e).1.any isTerminal = s.gate.opens e := by
  cases e with
  | messageStart model => simp [encodeEvent, Gate.opens]
  | textDelta text => simp [encodeEvent, writeDelta, Gate.opens]
  | thinkingDelta text => simp [encodeEvent, writeDelta, Gate.opens]
  | toolUseStart id name => simp [encodeEvent, Gate.opens]
  | toolUseDelta fragment => simp [encodeEvent, writeDelta, Gate.opens]
  | usageDelta usage => simp [encodeEvent, any_finish, EmitState.gate, Gate.opens]
  | done reason =>
      simp only [encodeEvent, ensureStarted_includeUsage, ensureStarted_usage, EmitState.gate, Gate.opens]
      cases s.includeUsage <;> cases s.usage <;> simp

theorem ensureStarted_gate (s : EmitState) : (ensureStarted s).2.gate = s.gate := by
  unfold ensureStarted
  split_ifs <;> rfl

theorem gate_encodeEvent (s : EmitState) (e : StreamEvent) :
    (encodeEvent s e).2.gate = s.gate.after e := by
  cases e with
  | messageStart model => rfl
  | textDelta text => exact ensureStarted_gate s
  | thinkingDelta text => exact ensureStarted_gate s
  | toolUseStart id name => exact ensureStarted_gate s
  | toolUseDelta fragment => exact ensureStarted_gate s
  | usageDelta usage =>
      simp only [encodeEvent, EmitState.finish, Gate.after, EmitState.gate]
      split_ifs with h <;> simp_all
  | done reason =>
      have hGate := ensureStarted_gate s
      simp only [EmitState.gate, Gate.mk.injEq] at hGate
      simp only [encodeEvent, ensureStarted_includeUsage, ensureStarted_usage, EmitState.gate,
        Gate.after]
      cases hInclude : s.includeUsage <;> cases hUsage : s.usage <;> simp_all

end Gateway.Wire.OpenaiChat
