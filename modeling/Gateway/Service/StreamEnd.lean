import Gateway.Service.RecordedUsage

/-! Whether a client's stream is terminated when the upstream closes: the frames
it gets end with one terminal frame of its surface. What an encoder still owes
is told from the events alone. -/
namespace Gateway.Service

open Json Wire

/-! ### Lists with one mark, at the end -/

def endsOnce {β : Type} (marked : β → Bool) : List β → Bool
  | [] => false
  | [b] => marked b
  | b :: c :: rest => !marked b && endsOnce marked (c :: rest)

theorem endsOnce_cons_of_not {β : Type} {marked : β → Bool} {b : β} (h : marked b = false)
    (rest : List β) : endsOnce marked (b :: rest) = endsOnce marked rest := by
  cases rest <;> simp [endsOnce, h]

theorem endsOnce_append_of_none {β : Type} {marked : β → Bool} {front : List β}
    (hNone : front.any marked = false) (back : List β) :
    endsOnce marked (front ++ back) = endsOnce marked back := by
  induction front with
  | nil => rfl
  | cons b rest ih =>
      rw [List.any_cons, Bool.or_eq_false_iff] at hNone
      rw [List.cons_append, endsOnce_cons_of_not hNone.1, ih hNone.2]

theorem endsOnce_append_of_endsOnce {β : Type} {marked : β → Bool} {front : List β}
    (hEnds : endsOnce marked front = true) (back : List β) :
    endsOnce marked (front ++ back) = true ↔ back = [] := by
  induction front with
  | nil => simp [endsOnce] at hEnds
  | cons b rest ih =>
      cases rest with
      | nil =>
          have hMark : marked b = true := hEnds
          cases back <;> simp [endsOnce, hMark]
      | cons c rest =>
          rw [endsOnce, Bool.and_eq_true, Bool.not_eq_true'] at hEnds
          rw [List.cons_append, endsOnce_cons_of_not hEnds.1]
          exact ih hEnds.2

/-! ### What an answer's end depends on -/

/-- The gate before the end, and whether a call is open. -/
structure Track where
  gate : Gate
  callOpen : Bool

namespace Track

/-- A call is open from its start to the next item; on the Gemini surface it
waits for the next call, or the end. -/
def callAfter (surface : WireFormat) (callOpen : Bool) : StreamEvent → Bool
  | .toolUseStart .. => true
  | .done _ => false
  | .textDelta _ | .thinkingDelta _ => if surface = .gemini then callOpen else false
  | _ => callOpen

def after (surface : WireFormat) (t : Track) (e : StreamEvent) : Track :=
  ⟨t.gate.after e, callAfter surface t.callOpen e⟩

/-- Whether an event that comes after the end puts frames on the stream. -/
def speaks (surface : WireFormat) (t : Track) : StreamEvent → Bool
  | .usageDelta _ => false
  | .done _ => true
  | .textDelta _ => true
  | .messageStart _ | .thinkingDelta _ => surface ≠ .gemini
  | .toolUseStart .. => surface ≠ .gemini || t.callOpen
  | .toolUseDelta _ => surface ≠ .gemini && (surface ≠ .openaiResponses || t.callOpen)

/-- No event puts frames on the stream. -/
def quiet (surface : WireFormat) : Track → List StreamEvent → Bool
  | _, [] => true
  | t, e :: rest => !t.speaks surface e && (t.after surface e).quiet surface rest

/-- What follows the event that lets the end through, and the track there. -/
def ending (surface : WireFormat) : Track → List StreamEvent → Option (Track × List StreamEvent)
  | _, [] => none
  | t, e :: rest =>
      if t.gate.opens e then some (t.after surface e, rest)
      else (t.after surface e).ending surface rest

/-- Whether a surface's end waits for usage. -/
def start (surface : WireFormat) (includeUsage : Bool) : Track where
  gate := ⟨match surface with
    | .openaiChat => includeUsage
    | .openaiResponses => true
    | .anthropic | .gemini => false, false, false⟩
  callOpen := false

/-- An end is held only while it waits. -/
def Sound (t : Track) : Prop := t.gate.held = true → t.gate.waits = true ∧ t.gate.reported = false

/-- The end went out. -/
structure Over (t : Track) : Prop where
  free : t.gate.held = false
  through : t.gate.waits = true → t.gate.reported = true

variable {surface : WireFormat} {t : Track} {e : StreamEvent}

theorem Sound.after (h : t.Sound) : (t.after surface e).Sound := by
  cases e with
  | usageDelta usage => intro hHeld; exact absurd hHeld Bool.false_ne_true
  | done reason =>
      intro hHeld
      simp only [Track.after, Gate.after, Bool.or_eq_true, Bool.and_eq_true, Bool.not_eq_true']
        at hHeld ⊢
      exact hHeld.elim h id
  | _ => exact h

theorem Sound.afterAll (h : t.Sound) (events : List StreamEvent) :
    (events.foldl (Track.after surface) t).Sound := by
  induction events generalizing t with
  | nil => exact h
  | cons e rest ih => exact ih h.after

theorem Sound.over_after (h : t.Sound) (hOpens : t.gate.opens e = true) :
    (t.after surface e).Over := by
  cases e with
  | usageDelta usage => exact ⟨rfl, fun _ => rfl⟩
  | done reason =>
      simp only [Gate.opens, Bool.or_eq_true, Bool.not_eq_true'] at hOpens
      have hThrough : t.gate.waits = true → t.gate.reported = true := fun hWaits =>
        hOpens.resolve_left (by simp [hWaits])
      have hFree : t.gate.held = false := by
        by_contra hHeld
        obtain ⟨hWaits, hReported⟩ := h (by simpa using hHeld)
        simp [hThrough hWaits] at hReported
      refine ⟨?_, hThrough⟩
      simp only [Track.after, Gate.after, hFree, Bool.false_or, Bool.and_eq_false_iff]
      rcases hOpens with hWaits | hReported
      · exact Or.inl hWaits
      · exact Or.inr (by simp [hReported])
  | _ => simp [Gate.opens] at hOpens

theorem Over.after (h : t.Over) : (t.after surface e).Over := by
  cases e with
  | usageDelta usage => exact ⟨rfl, fun _ => rfl⟩
  | done reason =>
      refine ⟨?_, h.through⟩
      cases hWaits : t.gate.waits
      · simp [Track.after, Gate.after, h.free, hWaits]
      · simp [Track.after, Gate.after, h.free, h.through hWaits]
  | _ => exact ⟨h.free, h.through⟩

theorem Over.afterAll (h : t.Over) (events : List StreamEvent) :
    (events.foldl (Track.after surface) t).Over := by
  induction events generalizing t with
  | nil => exact h
  | cons e rest ih => exact ih h.after

/-- After the end, only another end lets one through. -/
theorem Over.opens_iff (h : t.Over) : t.gate.opens e = e.isDone := by
  cases e with
  | usageDelta usage => exact h.free
  | done reason =>
      cases hWaits : t.gate.waits
      · simp [Gate.opens, StreamEvent.isDone, hWaits]
      · simp [Gate.opens, StreamEvent.isDone, h.through hWaits]
  | _ => rfl

theorem sound_start (surface : WireFormat) (includeUsage : Bool) : (start surface includeUsage).Sound :=
  fun h => absurd h Bool.false_ne_true

/-- While no event lets the end through, it is held once it came. -/
theorem held_of_ending_none {events : List StreamEvent} (hNone : t.ending surface events = none) :
    (events.foldl (Track.after surface) t).gate.held =
      (t.gate.held || events.any StreamEvent.isDone) := by
  induction events generalizing t with
  | nil => simp
  | cons e rest ih =>
      unfold Track.ending at hNone
      split_ifs at hNone with hOpens
      rw [List.foldl_cons, ih hNone, List.any_cons, ← Bool.or_assoc]
      congr 1
      cases e with
      | usageDelta usage => simpa [Gate.opens, Track.after, Gate.after, StreamEvent.isDone] using hOpens
      | done reason =>
          simp only [Gate.opens, Bool.not_eq_true, Bool.or_eq_false_iff, Bool.not_eq_false'] at hOpens
          simp [Track.after, Gate.after, StreamEvent.isDone, hOpens.1, hOpens.2]
      | _ => exact (Bool.or_false _).symm

theorem over_of_ending {events rest : List StreamEvent} {t' : Track} (h : t.Sound)
    (hSome : t.ending surface events = some (t', rest)) :
    (events.foldl (Track.after surface) t).Over := by
  induction events generalizing t with
  | nil => simp [Track.ending] at hSome
  | cons e events ih =>
      unfold Track.ending at hSome
      split_ifs at hSome with hOpens
      · exact (h.over_after hOpens).afterAll events
      · exact ih h.after hSome

end Track

/-! ### Encoders -/

def callIsOpen : Option OpenaiResponses.OpenItem → Bool
  | some (.tool ..) => true
  | _ => false

namespace Encoder

/-- The track is the encoder's own, as far as its surface keeps one. -/
def Follows (t : Track) : Encoder → Prop
  | .anthropic _ => t.gate.waits = false
  | .openaiChat s => t.gate = s.gate
  | .openaiResponses s => t.gate = s.gate ∧ t.callOpen = callIsOpen s.open
  | .gemini s => t.gate.waits = false ∧ t.callOpen = s.pendingTool.isSome

theorem follows_start (surface : WireFormat) (includeUsage : Bool) (echo : Option Str × Option Str) :
    (Encoder.forTurn surface includeUsage echo).Follows (Track.start surface includeUsage) := by
  cases surface <;> simp [Encoder.forTurn, Encoder.new, Encoder.setPromptCache,
    Encoder.setIncludeUsage, Follows, Track.start, OpenaiChat.EmitState.gate,
    OpenaiChat.EmitState.setIncludeUsage, OpenaiResponses.EmitState.gate,
    OpenaiResponses.EmitState.setPromptCache, callIsOpen]

theorem encode_cons (enc : Encoder) (e : StreamEvent) (rest : List StreamEvent) :
    enc.encode (e :: rest) =
      ((enc.encode [e]).1 ++ ((enc.encode [e]).2.encode rest).1,
        ((enc.encode [e]).2.encode rest).2) := by
  cases enc <;> simp [encode, Anthropic.encodeSse, OpenaiChat.encodeSse, OpenaiResponses.encodeSse,
    Gemini.encodeSse]

theorem waits_after (t : Track) (surface : WireFormat) (e : StreamEvent) :
    (t.after surface e).gate.waits = t.gate.waits := by
  cases e <;> rfl

theorem ensureMessage_open (s : OpenaiResponses.EmitState) :
    ∃ id index text,
      (OpenaiResponses.ensureMessage s).2.open = some (.message id index text) := by
  by_cases hOpen : ∃ id index text, s.open = some (.message id index text)
  · obtain ⟨id, index, text, hOpen⟩ := hOpen
    exact ⟨id, index, text, by rw [OpenaiResponses.ensureMessage_of_message hOpen, hOpen]⟩
  · exact ⟨_, _, _, OpenaiResponses.ensureMessage_open_of_other fun id index text h =>
      hOpen ⟨id, index, text, h⟩⟩

theorem ensureReasoning_open (s : OpenaiResponses.EmitState) :
    ∃ id index text,
      (OpenaiResponses.ensureReasoning s).2.open = some (.reasoning id index text) := by
  by_cases hOpen : ∃ id index text, s.open = some (.reasoning id index text)
  · obtain ⟨id, index, text, hOpen⟩ := hOpen
    exact ⟨id, index, text, by rw [OpenaiResponses.ensureReasoning_of_reasoning hOpen, hOpen]⟩
  · exact ⟨_, _, _, OpenaiResponses.ensureReasoning_open_of_other fun id index text h =>
      hOpen ⟨id, index, text, h⟩⟩

theorem callIsOpen_encodeEvent (s : OpenaiResponses.EmitState) (e : StreamEvent) :
    callIsOpen (OpenaiResponses.encodeEvent s e).2.open =
      Track.callAfter .openaiResponses (callIsOpen s.open) e := by
  cases e with
  | messageStart model => exact congrArg callIsOpen (OpenaiResponses.writeEvents_open _ _)
  | textDelta text =>
      obtain ⟨id, index, acc, hOpen⟩ := ensureMessage_open s
      simp only [OpenaiResponses.encodeEvent, hOpen]
      rfl
  | thinkingDelta text =>
      obtain ⟨id, index, acc, hOpen⟩ := ensureReasoning_open s
      simp only [OpenaiResponses.encodeEvent, hOpen]
      rfl
  | toolUseStart id name => rfl
  | toolUseDelta fragment =>
      simp only [OpenaiResponses.encodeEvent, Track.callAfter]
      split <;> simp_all [callIsOpen]
  | usageDelta usage => exact congrArg callIsOpen (OpenaiResponses.finish_open _)
  | done reason =>
      have hClosed := OpenaiResponses.closeOpen_open s
      simp only [OpenaiResponses.encodeEvent]
      split
      · exact congrArg callIsOpen hClosed
      · exact congrArg callIsOpen hClosed

theorem pendingTool_encodeEvent (s : Gemini.EmitState) (e : StreamEvent) :
    (Gemini.encodeEvent s e).2.pendingTool.isSome =
      Track.callAfter .gemini s.pendingTool.isSome e := by
  cases e with
  | done reason =>
      simp only [Gemini.encodeEvent, Gemini.EmitState.flushTool, Track.callAfter]
      split <;> simp_all
  | _ => simp [Gemini.encodeEvent, Track.callAfter]

/-- Encoder and track stay in step. -/
theorem Follows.encode {enc : Encoder} {t : Track} (h : enc.Follows t) (e : StreamEvent) :
    (enc.encode [e]).2.Follows (t.after enc.surface e) := by
  cases enc with
  | anthropic s => exact (waits_after ..).trans h
  | openaiChat s =>
      show t.gate.after e = _
      rw [h]
      exact (OpenaiChat.gate_encodeEvent s e).symm
  | openaiResponses s =>
      refine ⟨?_, ?_⟩
      · show t.gate.after e = _
        rw [h.1]
        exact (OpenaiResponses.gate_encodeEvent s e).symm
      · show Track.callAfter _ t.callOpen e = _
        rw [h.2]
        exact (callIsOpen_encodeEvent s e).symm
  | gemini s =>
      refine ⟨(waits_after ..).trans h.1, ?_⟩
      show Track.callAfter _ t.callOpen e = _
      rw [h.2]
      exact (pendingTool_encodeEvent s e).symm

theorem held_of_free {t : Track} (hSound : t.Sound) (hWaits : t.gate.waits = false) :
    t.gate.held = false := by
  by_contra hHeld
  exact Bool.false_ne_true (hWaits.symm.trans (hSound (by simpa using hHeld)).1)

theorem opens_of_free {t : Track} (hSound : t.Sound) (hWaits : t.gate.waits = false)
    (e : StreamEvent) : t.gate.opens e = e.isDone :=
  Track.Over.opens_iff ⟨held_of_free hSound hWaits, fun h => by simp [hWaits] at h⟩

theorem ends_singleton {enc : Encoder} {t : Track} (h : enc.Follows t) (hSound : t.Sound)
    (e : StreamEvent) : enc.ends [e] = t.gate.opens e := by
  cases enc with
  | anthropic s => simp [ends, opens_of_free hSound h]
  | openaiChat s => rw [ends, ← h, Gate.ends_cons, Gate.ends_nil, Bool.or_false]
  | openaiResponses s => rw [ends, ← h.1, Gate.ends_cons, Gate.ends_nil, Bool.or_false]
  | gemini s => simp [ends, opens_of_free hSound h.1]

theorem endsOnce_chatFinish (s : OpenaiChat.EmitState) :
    endsOnce OpenaiChat.isTerminal s.finish.1 = s.pendingDone := by
  unfold OpenaiChat.EmitState.finish
  split_ifs with hHeld
  · have hUsage : (OpenaiChat.usageFrames { s with pendingDone := false }).any
        OpenaiChat.isTerminal = false := by
      unfold OpenaiChat.usageFrames
      cases s.usage <;> rfl
    rw [endsOnce_append_of_none hUsage, hHeld]
    rfl
  · exact (Bool.not_eq_true _ ▸ hHeld).symm

theorem endsOnce_responsesFinish (s : OpenaiResponses.EmitState) :
    endsOnce OpenaiResponses.isTerminal s.finish.1 = s.pendingCompleted := by
  unfold OpenaiResponses.EmitState.finish
  split_ifs with hHeld
  · rw [hHeld]
    rfl
  · exact (Bool.not_eq_true _ ▸ hHeld).symm

/-- An event that lets the end through puts the terminal frame last. -/
theorem endsOnce_of_opens {enc : Encoder} {t : Track} (h : enc.Follows t) (hSound : t.Sound)
    {e : StreamEvent} (hOpens : t.gate.opens e = true) :
    endsOnce (isTerminal enc.surface) (enc.encode [e]).1 = true := by
  cases enc with
  | anthropic s =>
      rw [opens_of_free hSound h] at hOpens
      cases e with
      | done reason =>
          show endsOnce Anthropic.isTerminal ((Anthropic.encodeEvent s (.done reason)).1 ++ []) = true
          rw [List.append_nil, Anthropic.encodeEvent, endsOnce_append_of_none]
          · rfl
          · rw [List.any_append, Anthropic.any_ensureStarted, Anthropic.any_closeOpen]
            rfl
      | _ => exact absurd hOpens Bool.false_ne_true
  | openaiChat s =>
      rw [h] at hOpens
      show endsOnce OpenaiChat.isTerminal ((OpenaiChat.encodeEvent s e).1 ++ []) = true
      rw [List.append_nil]
      cases e with
      | usageDelta usage =>
          exact (endsOnce_chatFinish _).trans hOpens
      | done reason =>
          have hClosing : ((OpenaiChat.ensureStarted s).1 ++
              [OpenaiChat.writeChunk (OpenaiChat.ensureStarted s).2 (obj [])
                (some (OpenaiChat.stopToFinish reason))]).any OpenaiChat.isTerminal = false := by
            simp
          simp only [Gate.opens, OpenaiChat.EmitState.gate, Bool.or_eq_true, Bool.not_eq_true']
            at hOpens
          simp only [OpenaiChat.encodeEvent, OpenaiChat.ensureStarted_includeUsage,
            OpenaiChat.ensureStarted_usage]
          cases hInclude : s.includeUsage with
          | false => exact endsOnce_append_of_none hClosing _
          | true =>
              cases hUsage : s.usage with
              | some u => exact endsOnce_append_of_none hClosing _
              | none => simp [hInclude, hUsage] at hOpens
      | _ => exact absurd hOpens Bool.false_ne_true
  | openaiResponses s =>
      rw [h.1] at hOpens
      show endsOnce OpenaiResponses.isTerminal ((OpenaiResponses.encodeEvent s e).1 ++ []) = true
      rw [List.append_nil]
      cases e with
      | usageDelta usage =>
          exact (endsOnce_responsesFinish _).trans hOpens
      | done reason =>
          simp only [OpenaiResponses.encodeEvent, OpenaiResponses.closeOpen_usage]
          cases hUsage : s.usage with
          | some u => exact endsOnce_append_of_none (OpenaiResponses.any_closeOpen s) _
          | none => simp [Gate.opens, OpenaiResponses.EmitState.gate, hUsage] at hOpens
      | _ => exact absurd hOpens Bool.false_ne_true
  | gemini s =>
      rw [opens_of_free hSound h.1] at hOpens
      cases e with
      | done reason =>
          show endsOnce Gemini.isTerminal ((Gemini.encodeEvent s (.done reason)).1 ++ []) = true
          rw [List.append_nil, Gemini.encodeEvent, endsOnce_append_of_none (Gemini.any_flushTool s)]
          simp [endsOnce, Gemini.isTerminal, Frame.data, Gemini.candidate, Value.asArray]
      | _ => exact absurd hOpens Bool.false_ne_true

theorem writeEvents_ne_nil (s : OpenaiResponses.EmitState)
    (event : String × List (String × Value)) (events : List (String × List (String × Value))) :
    (OpenaiResponses.writeEvents s (event :: events)).1 ≠ [] := by
  simp [OpenaiResponses.writeEvents, OpenaiResponses.writeEvent]

theorem responses_silent_iff {s : OpenaiResponses.EmitState} {t : Track} {e : StreamEvent}
    (hCall : t.callOpen = callIsOpen s.open) (hFree : s.pendingCompleted = false)
    (hDone : e.isDone = false) :
    (OpenaiResponses.encodeEvent s e).1 = [] ↔ t.speaks .openaiResponses e = false := by
  cases e with
  | done reason => exact absurd hDone.symm Bool.false_ne_true
  | messageStart model =>
      refine iff_of_false (writeEvents_ne_nil _ _ _) ?_
      simp [Track.speaks]
  | textDelta text =>
      obtain ⟨id, index, acc, hOpen⟩ := ensureMessage_open s
      refine iff_of_false ?_ (by simp [Track.speaks])
      simp [OpenaiResponses.encodeEvent, hOpen, OpenaiResponses.writeEvent]
  | thinkingDelta text =>
      obtain ⟨id, index, acc, hOpen⟩ := ensureReasoning_open s
      refine iff_of_false ?_ (by simp [Track.speaks])
      simp [OpenaiResponses.encodeEvent, hOpen, OpenaiResponses.writeEvent]
  | toolUseStart id name =>
      refine iff_of_false ?_ (by simp [Track.speaks])
      simp [OpenaiResponses.encodeEvent, OpenaiResponses.writeEvent]
  | toolUseDelta fragment =>
      simp only [OpenaiResponses.encodeEvent, Track.speaks, hCall]
      split
      · simp [OpenaiResponses.writeEvent, callIsOpen, *]
      · simp_all [callIsOpen]
  | usageDelta usage =>
      simp [OpenaiResponses.encodeEvent, OpenaiResponses.EmitState.finish, hFree, Track.speaks]

/-- Once the end went out, the events that put no frames on the stream. -/
theorem encode_eq_nil_iff {enc : Encoder} {t : Track} (h : enc.Follows t) (hSound : t.Sound)
    (hOver : t.Over) (e : StreamEvent) :
    (enc.encode [e]).1 = [] ↔ t.speaks enc.surface e = false := by
  by_cases hDone : e.isDone = true
  · have hEnds := endsOnce_of_opens h hSound (hOver.opens_iff.trans hDone)
    have hSpeaks : t.speaks enc.surface e = true := by
      cases e with
      | done reason => rfl
      | _ => exact absurd hDone Bool.false_ne_true
    rw [hSpeaks]
    refine iff_of_false (fun hNil => ?_) (by simp)
    rw [hNil] at hEnds
    exact Bool.false_ne_true hEnds
  rw [Bool.not_eq_true] at hDone
  cases enc with
  | anthropic s =>
      show (Anthropic.encodeEvent s e).1 ++ [] = [] ↔ _
      rw [List.append_nil]
      cases e with
      | done reason => exact absurd hDone.symm Bool.false_ne_true
      | _ => simp [Anthropic.encodeEvent, Anthropic.emitMessageStart, Anthropic.writeDelta,
          Track.speaks, surface]
  | openaiChat s =>
      show (OpenaiChat.encodeEvent s e).1 ++ [] = [] ↔ _
      rw [List.append_nil]
      cases e with
      | done reason => exact absurd hDone.symm Bool.false_ne_true
      | usageDelta usage =>
          have hFree : s.pendingDone = false := (congrArg Gate.held h).symm.trans hOver.free
          simp [OpenaiChat.encodeEvent, OpenaiChat.EmitState.finish, hFree, Track.speaks]
      | _ => simp [OpenaiChat.encodeEvent, OpenaiChat.writeDelta, Track.speaks, surface]
  | openaiResponses s =>
      show (OpenaiResponses.encodeEvent s e).1 ++ [] = [] ↔ _
      rw [List.append_nil]
      exact responses_silent_iff h.2 ((congrArg Gate.held h.1).symm.trans hOver.free) hDone
  | gemini s =>
      show (Gemini.encodeEvent s e).1 ++ [] = [] ↔ _
      rw [List.append_nil]
      cases e with
      | done reason => exact absurd hDone.symm Bool.false_ne_true
      | toolUseStart id name =>
          simp only [Gemini.encodeEvent, Gemini.EmitState.flushTool, Track.speaks, h.2]
          cases s.pendingTool <;> simp [surface]
      | _ => simp [Gemini.encodeEvent, Track.speaks, surface]

theorem encode_quiet {enc : Encoder} {t : Track} (h : enc.Follows t) (hSound : t.Sound)
    (hOver : t.Over) (events : List StreamEvent) :
    (enc.encode events).1 = [] ↔ t.quiet enc.surface events = true := by
  induction events generalizing enc t with
  | nil => simp [Track.quiet]
  | cons e rest ih =>
      have hRest := ih (h.encode e) hSound.after hOver.after
      rw [encode_surface] at hRest
      rw [encode_cons, List.append_eq_nil_iff, hRest, encode_eq_nil_iff h hSound hOver, Track.quiet,
        Bool.and_eq_true, Bool.not_eq_true']

theorem Follows.encodeAll {enc : Encoder} {t : Track} (h : enc.Follows t)
    (events : List StreamEvent) :
    (enc.encode events).2.Follows (events.foldl (Track.after enc.surface) t) := by
  induction events generalizing enc t with
  | nil => simpa using h
  | cons e rest ih =>
      rw [encode_cons]
      have hRest := ih (h.encode e)
      rwa [encode_surface] at hRest

/-- Events and what comes after them end with one terminal frame when the first
end is followed by nothing, or there is none and the rest ends so. -/
theorem endsOnce_encode {enc : Encoder} {t : Track} (h : enc.Follows t) (hSound : t.Sound)
    (events : List StreamEvent) (more : List Frame) :
    endsOnce (isTerminal enc.surface) ((enc.encode events).1 ++ more) = true ↔
      match t.ending enc.surface events with
      | some (t', rest) => t'.quiet enc.surface rest = true ∧ more = []
      | none => endsOnce (isTerminal enc.surface) more = true := by
  induction events generalizing enc t with
  | nil => simp [Track.ending]
  | cons e rest ih =>
      have hRest := ih (h.encode e) hSound.after
      have hAny := any_isTerminal enc [e]
      rw [ends_singleton h hSound] at hAny
      rw [encode_surface] at hRest
      rw [encode_cons, List.append_assoc, Track.ending]
      split_ifs with hOpens
      · rw [endsOnce_append_of_endsOnce (endsOnce_of_opens h hSound hOpens),
          List.append_eq_nil_iff]
        have hQuiet := encode_quiet (h.encode e) hSound.after (hSound.over_after hOpens) rest
        rw [encode_surface] at hQuiet
        rw [hQuiet]
      · rw [endsOnce_append_of_none (hAny.trans (by simpa using hOpens)), hRest]

/-- What is owed at the close of the upstream: a held end, and nothing else. -/
theorem finish_owes {enc : Encoder} {t : Track} (h : enc.Follows t) (hSound : t.Sound) :
    (t.gate.held = false → enc.finish.1 = []) ∧
      endsOnce (isTerminal enc.surface) enc.finish.1 = t.gate.held := by
  cases enc with
  | anthropic s => exact ⟨fun _ => rfl, (held_of_free hSound h).symm⟩
  | openaiChat s =>
      refine ⟨fun hHeld => ?_, (endsOnce_chatFinish s).trans (congrArg Gate.held h).symm⟩
      rw [h] at hHeld
      have hFree : s.pendingDone = false := hHeld
      simp [finish, OpenaiChat.EmitState.finish, hFree]
  | openaiResponses s =>
      refine ⟨fun hHeld => ?_, (endsOnce_responsesFinish s).trans (congrArg Gate.held h.1).symm⟩
      rw [h.1] at hHeld
      have hFree : s.pendingCompleted = false := hHeld
      simp [finish, OpenaiResponses.EmitState.finish, hFree]
  | gemini s => exact ⟨fun _ => rfl, (held_of_free hSound h.1).symm⟩

/-- Whether the relay stops before the upstream closes. -/
def stops (enc : Encoder) : List (List StreamEvent) → Bool
  | [] | [_] => false
  | batch :: next :: rest =>
      decide (enc.Closes batch) || (enc.encode batch).2.stops (next :: rest)

end Encoder

/-! ### What the client gets -/

theorem batchesFrom_cons (buf : List UInt8) (d : Decoder) (chunk : List UInt8)
    (rest : List (List UInt8)) :
    batchesFrom buf d (chunk :: rest) =
      (d.decodeLines (takeLines (buf ++ chunk)).1).1 ::
        batchesFrom (takeLines (buf ++ chunk)).2 (d.decodeLines (takeLines (buf ++ chunk)).1).2
          rest := rfl

theorem batchesFrom_ne_nil (buf : List UInt8) (d : Decoder) (chunks : List (List UInt8)) :
    batchesFrom buf d chunks ≠ [] := by
  cases chunks with
  | nil => simp [batchesFrom, Text.feedPieces, Decoder.decodeBatches]
  | cons chunk rest => simp [batchesFrom_cons]

theorem Encoder.stops_cons {enc : Encoder} {batch : List StreamEvent}
    {rest : List (List StreamEvent)} (hRest : rest ≠ []) :
    enc.stops (batch :: rest) =
      (decide (enc.Closes batch) || (enc.encode batch).2.stops rest) := by
  cases rest with
  | nil => exact absurd rfl hRest
  | cons next rest => rfl

theorem Encoder.encode_append (enc : Encoder) (events more : List StreamEvent) :
    enc.encode (events ++ more) =
      ((enc.encode events).1 ++ ((enc.encode events).2.encode more).1,
        ((enc.encode events).2.encode more).2) := by
  induction events generalizing enc with
  | nil => simp
  | cons e rest ih =>
      rw [List.cons_append, encode_cons, ih, encode_cons enc e rest, List.append_assoc]

/-- The client gets the frames of the events up to the batch that is taken for
the end, and what is owed after them when the relay read to the close. -/
theorem StreamState.drive_frames (st : StreamState) (hOpen : st.done = false)
    (hNew : st.recorded = false) (chunks : List (List UInt8)) :
    (st.drive (delivered chunks)).2 =
      let batches := batchesFrom st.buf st.decoder chunks
      let seen := (st.encoder.cut batches).1
      (st.encoder.encode seen).1 ++
        bif st.encoder.stops batches then [] else (st.encoder.encode seen).2.finish.1 := by
  induction chunks generalizing st with
  | nil =>
      obtain ⟨turn, st', more, hReceive, hMore, -⟩ := st.receive_ended
      simp only [Encoder.cut_batchesFrom_nil, ← hMore]
      simp [delivered, StreamState.drive, hOpen, hReceive, batchesFrom,
        Text.feedPieces, Decoder.decodeBatches, Encoder.stops]
  | cons chunk rest ih =>
      have hDelivered : delivered (chunk :: rest) = .chunk chunk :: delivered rest := rfl
      have hRead : (st.decoder.decodeLines (takeLines (st.buf ++ chunk)).1).1 =
          (st.readChunk chunk).1 := rfl
      rw [hDelivered, StreamState.drive, if_neg (by simp [hOpen])]
      simp only [batchesFrom_cons, hRead]
      rw [Encoder.stops_cons (batchesFrom_ne_nil _ _ _), Encoder.cut]
      rcases st.receive_chunk hNew chunk with
        ⟨hCloses, turn, st', hReceive, -⟩ | ⟨hCloses, st', hNext, hReceive⟩
      · simp [hReceive, hCloses, StreamState.drive_afterRecord]
      · have hRest := ih st' (hNext.done.trans hOpen) (hNext.recorded.trans hNew)
        rw [hNext.buf, hNext.decoder, hNext.encoder] at hRest
        simp only [hCloses, if_false, decide_false, Bool.false_or, Encoder.encode_append]
        rw [List.append_assoc, ← hRest]
        rcases hReceive with ⟨hReceive, hNil⟩ | hReceive
        · simp [hReceive, hNil]
        · simp [hReceive]

/-- The stream of an upstream that closes is terminated once when the first
event that lets the end through is followed by nothing the surface shows, or,
with none, an end came that is still held and the relay read to the close. -/
theorem terminated_iff (upstream surface : WireFormat) (requestId : Str) (status : Nat)
    (echo : Option Str × Option Str) (includeUsage : Bool) (chunks : List (List UInt8)) :
    endsOnce (isTerminal surface)
        ((translateStream upstream surface requestId status echo includeUsage).drive
          (delivered chunks)).2 = true ↔
      let enc := Encoder.forTurn surface includeUsage echo
      let batches := batchesFrom [] (Decoder.new upstream) chunks
      match (Track.start surface includeUsage).ending surface (enc.cut batches).1 with
      | some (t, rest) => t.quiet surface rest = true
      | none => (enc.cut batches).1.any StreamEvent.isDone = true ∧ enc.stops batches = false := by
  have hSound := Track.sound_start surface includeUsage
  have hFollows := Encoder.follows_start surface includeUsage echo
  have hSurface : (Encoder.forTurn surface includeUsage echo).surface = surface := by
    cases surface <;> rfl
  rw [StreamState.drive_frames _ rfl rfl]
  simp only [translateStream]
  generalize hSeen : ((Encoder.forTurn surface includeUsage echo).cut
    (batchesFrom [] (Decoder.new upstream) chunks)).1 = seen
  have hEnds := Encoder.endsOnce_encode hFollows hSound seen
  have hOwes := Encoder.finish_owes (hFollows.encodeAll seen) (Track.Sound.afterAll hSound seen)
  rw [Encoder.encode_surface, hSurface] at hOwes
  rw [hSurface] at hEnds
  rw [hEnds]
  cases hEnding : (Track.start surface includeUsage).ending surface seen with
  | some found =>
      have hFree := (Track.over_of_ending hSound hEnding).free
      refine and_iff_left ?_
      rw [hOwes.1 hFree, Bool.cond_self]
  | none =>
      have hHeld := Track.held_of_ending_none hEnding
      show endsOnce _ _ = true ↔ seen.any StreamEvent.isDone = true ∧ _
      cases hStops : (Encoder.forTurn surface includeUsage echo).stops
          (batchesFrom [] (Decoder.new upstream) chunks) with
      | true => simp [endsOnce]
      | false =>
          rw [cond_false, hOwes.2, hHeld]
          simp [Track.start]

/-- An upstream that hangs up after some text leaves the client waiting. -/
theorem hang_up_unterminated :
    let chunks := [Text.toUtf8 ("data: \x7b\"type\":\"content_block_delta\",\"delta\":" ++
      "\x7b\"type\":\"text_delta\",\"text\":\"Hi\"\x7d\x7d\n").toList]
    bodyEvents .anthropic chunks.flatten = [.textDelta "Hi".toList] ∧
      endsOnce (isTerminal .anthropic)
        ((translateStream .anthropic .anthropic [] 200 (none, none) false).drive
          (delivered chunks)).2 = false := by
  decide +kernel

end Gateway.Service
