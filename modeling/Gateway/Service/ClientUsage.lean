import Gateway.Service.Terminal
import Gateway.Wire.Counts

/-! The token counts that a client reads from the stream it is sent. Reports come at
any time, and each surface has its own place for them. -/
namespace Gateway.Wire.Gate

/-- The events up to the one that lets the end through. -/
def heard (g : Gate) : List StreamEvent → Option (List StreamEvent)
  | [] => none
  | e :: rest => if g.opens e then some [e] else ((g.after e).heard rest).map (e :: ·)

theorem mem_of_mem_heard {g : Gate} {events : List StreamEvent} {e : StreamEvent}
    (h : e ∈ (g.heard events).getD []) : e ∈ events := by
  induction events generalizing g with
  | nil => exact h
  | cons first rest ih =>
      rw [heard] at h
      split_ifs at h with hOpens
      · exact List.mem_singleton.mp h ▸ List.mem_cons_self
      · cases hRest : (g.after first).heard rest with
        | none =>
            rw [hRest] at h
            exact (List.not_mem_nil h).elim
        | some es =>
            rw [hRest, Option.map_some, Option.getD_some] at h
            rcases List.mem_cons.mp h with rfl | h
            · exact List.mem_cons_self
            · exact List.mem_cons_of_mem _ (ih (by rw [hRest]; exact h))

/-- The end waits for a first report: there is none while it is held back. -/
structure Waiting (g : Gate) : Prop where
  waits : g.waits = true
  unreported : g.held = true → g.reported = false

theorem Waiting.after {g : Gate} (h : g.Waiting) (e : StreamEvent) : (g.after e).Waiting := by
  obtain ⟨waits, reported, held⟩ := g
  obtain ⟨rfl, hNone⟩ := h
  cases e with
  | usageDelta usage => exact ⟨rfl, fun hHeld => absurd hHeld Bool.false_ne_true⟩
  | done reason =>
      refine ⟨rfl, fun hHeld => ?_⟩
      cases reported
      · rfl
      · exact hNone (by simpa [Gate.after] using hHeld)
  | _ => exact ⟨rfl, hNone⟩

end Gateway.Wire.Gate

namespace Gateway.Service

open Json Wire

/-! ### The client -/

/-- The usage object of a frame, where a client of the surface looks for one. -/
def usageShown (surface : WireFormat) (f : Frame) : Option Value :=
  match f.payload, surface with
  | .done, _ => none
  | .json v, .anthropic =>
      if f.event = some "message_start" then (v.get "message").bind (·.get "usage")
      else if f.event = some "message_delta" then v.get "usage" else none
  | .json v, .openaiResponses =>
      if f.event = some "response.completed" then (v.get "response").bind (·.get "usage") else none
  | .json v, .openaiChat => v.get "usage"
  | .json v, .gemini => v.get "usageMetadata"

/-- What a client stops at. A Gemini stream ends with its connection only. -/
def closes (surface : WireFormat) (f : Frame) : Bool := surface != .gemini && isTerminal surface f

structure Meter where
  counts : Count → Nat := fun _ => 0
  closed : Bool := false

/-- The counts of an object over those that were read before. -/
def overlay (surface : WireFormat) (counts : Count → Nat) (o : Value) (c : Count) : Nat :=
  ((memberAt o (c.path surface)).bind Value.asU64).getD (counts c)

def Meter.readFrame (surface : WireFormat) (m : Meter) (f : Frame) : Meter :=
  if m.closed then m
  else
    { counts := ((usageShown surface f).map (overlay surface m.counts)).getD m.counts
      closed := closes surface f }

/-- The counts that the client has after the whole stream, having asked for them. -/
def clientCounts (surface : WireFormat) (echo : Option Str × Option Str)
    (events : List StreamEvent) : Count → Nat :=
  let (frames, enc) := (Encoder.forTurn surface true echo).encode events
  ((frames ++ enc.finish.1).foldl (Meter.readFrame surface) {}).counts

/-! ### What reaches the client -/

def upToLastDone : List StreamEvent → List StreamEvent
  | [] => []
  | e :: rest =>
      if (e :: rest).any StreamEvent.isDone then e :: upToLastDone rest else []

/-- The events whose reports reach the client. Two surfaces wait for a first report,
and none for a second. -/
def heard (surface : WireFormat) (events : List StreamEvent) : List StreamEvent :=
  match surface with
  | .anthropic => (Gate.heard ⟨false, false, false⟩ events).getD []
  | .openaiChat | .openaiResponses => (Gate.heard ⟨true, false, false⟩ events).getD []
  | .gemini => upToLastDone events

/-- The counts that a surface's stream has. -/
def streamed : WireFormat → Count → Bool
  | .anthropic, c => c = .output
  | .gemini, c => c = .input ∨ c = .output ∨ c = .total
  | .openaiChat, _ | .openaiResponses, _ => true

def streamedCount (surface : WireFormat) (u : Usage) (c : Count) : Nat :=
  if streamed surface c then u.shown c else 0

theorem streamedCount_absent {surface : WireFormat} {c : Count} (h : streamed surface c = false)
    (u : Usage) : streamedCount surface u c = 0 :=
  if_neg (by rw [h]; exact Bool.false_ne_true)

theorem streamedCount_bot (surface : WireFormat) :
    streamedCount surface (⊥ : Usage) = fun _ => 0 := by
  funext c
  unfold streamedCount
  split_ifs
  · cases c <;> rfl
  · rfl

theorem upToLastDone_eq_nil {events : List StreamEvent}
    (h : events.any StreamEvent.isDone = false) : upToLastDone events = [] := by
  cases events with
  | nil => rfl
  | cons e rest => rw [upToLastDone, h, if_neg Bool.false_ne_true]

theorem mem_of_mem_upToLastDone {events : List StreamEvent} {e : StreamEvent}
    (h : e ∈ upToLastDone events) : e ∈ events := by
  induction events with
  | nil => exact h
  | cons first rest ih =>
      rw [upToLastDone] at h
      split_ifs at h
      · rcases List.mem_cons.mp h with rfl | h
        · exact List.mem_cons_self
        · exact List.mem_cons_of_mem _ (ih h)
      · exact (List.not_mem_nil h).elim

/-! ### Reading -/

section

variable {surface : WireFormat}

theorem foldl_closed {m : Meter} (h : m.closed = true) (frames : List Frame) :
    frames.foldl (Meter.readFrame surface) m = m := by
  induction frames with
  | nil => rfl
  | cons f rest ih =>
      rw [List.foldl_cons, Meter.readFrame, if_pos h, ih]

/-- Frames that say nothing of usage and do not end the answer. -/
def Still (surface : WireFormat) (frames : List Frame) : Prop :=
  ∀ f ∈ frames, usageShown surface f = none ∧ closes surface f = false

theorem still_append {fs gs : List Frame} (hf : Still surface fs) (hg : Still surface gs) :
    Still surface (fs ++ gs) := by
  intro f h
  rcases List.mem_append.mp h with h | h
  · exact hf f h
  · exact hg f h

theorem Still.foldl {frames : List Frame} (h : Still surface frames) {m : Meter}
    (hOpen : m.closed = false) : frames.foldl (Meter.readFrame surface) m = m := by
  induction frames with
  | nil => rfl
  | cons f rest ih =>
      obtain ⟨hUsage, hCloses⟩ := h f List.mem_cons_self
      have hSame : m.readFrame surface f = m := by
        obtain ⟨counts, closed⟩ := m
        cases hOpen
        rw [Meter.readFrame, if_neg Bool.false_ne_true, hUsage, hCloses]
        rfl
      rw [List.foldl_cons, hSame, ih fun g hg => h g (List.mem_cons_of_mem _ hg)]

/-- An encoder whose end waits at a gate. What it writes until then leaves a client
as it was, and with the end it writes the counts of all reports so far. -/
structure Metered {σ : Type} (surface : WireFormat) (step : σ → StreamEvent → List Frame × σ)
    (finish : σ → List Frame) (usage : σ → Usage) (linked : σ → Gate → Prop) : Prop where
  linked_step : ∀ s g e, linked s g → linked (step s e).2 (g.after e)
  usage_step : ∀ s e, usage (step s e).2 = usage s ⊔ e.usageOf
  quiet : ∀ s g e, linked s g → g.opens e = false →
    (step s e).1.foldl (Meter.readFrame surface) {} = {}
  opens : ∀ s g e, linked s g → g.opens e = true →
    (step s e).1.foldl (Meter.readFrame surface) {} =
      ⟨streamedCount surface (usage s ⊔ e.usageOf), true⟩
  finish : ∀ s g, linked s g → ((finish s).foldl (Meter.readFrame surface) {}).counts = fun _ => 0

theorem Metered.run {σ : Type} {step : σ → StreamEvent → List Frame × σ} {finish : σ → List Frame}
    {usage : σ → Usage} {linked : σ → Gate → Prop}
    (metered : Metered surface step finish usage linked) {s : σ} {g : Gate} (h : linked s g)
    (events : List StreamEvent) :
    (((Transducer.run step s events).1 ++ finish (Transducer.run step s events).2).foldl
        (Meter.readFrame surface) {}).counts =
      ((g.heard events).map fun heard => streamedCount surface (usage s ⊔ usageOf heard)).getD
        fun _ => 0 := by
  induction events generalizing s g with
  | nil => exact metered.finish s g h
  | cons e rest ih =>
      rw [Transducer.run_cons, List.append_assoc, List.foldl_append, Gate.heard]
      cases hOpens : g.opens e with
      | true =>
          rw [metered.opens s g e h hOpens, foldl_closed rfl, if_pos rfl, Option.map_some,
            Option.getD_some, usageOf, List.foldl_cons, List.foldl_nil, bot_sup_eq]
      | false =>
          rw [metered.quiet s g e h hOpens, ih (metered.linked_step s g e h), if_neg Bool.false_ne_true,
            Option.map_map]
          refine congrArg (fun m : Option (Count → Nat) => m.getD fun _ => 0) ?_
          refine congrArg (fun f => Option.map f ((g.after e).heard rest)) (funext fun heard => ?_)
          rw [Function.comp_apply, metered.usage_step, ← List.singleton_append (l := heard),
            usageOf_append, sup_assoc]
          rfl

end

/-! ### Chat Completions -/

namespace OpenaiChat

open Wire.OpenaiChat

def usage (s : EmitState) : Usage := s.usage.getD {}

theorem still_writeChunk (s : EmitState) (delta : Value) (reason : Option Str) :
    Still .openaiChat [writeChunk s delta reason] := by
  intro f hf
  rw [List.mem_singleton] at hf
  subst hf
  refine ⟨?_, rfl⟩
  simp [usageShown, writeChunk, envelope, Frame.data]

theorem still_ensureStarted (s : EmitState) : Still .openaiChat (ensureStarted s).1 := by
  unfold ensureStarted
  split_ifs
  · exact fun f hf => (List.not_mem_nil hf).elim
  · exact still_writeChunk _ _ _

theorem overlay_emitUsage (u : Usage) :
    overlay .openaiChat (fun _ => 0) (emitUsage u) = streamedCount .openaiChat u := by
  funext c
  unfold emitUsage overlay
  split_ifs <;> cases c <;>
    simp_all [Count.path, memberAt, streamedCount, streamed, Usage.shown, Usage.count]

/-- The usage chunk and what ends the stream. -/
theorem read_usageChunk (s : EmitState) (u : Usage) :
    [writeUsageChunk s u, .sentinel].foldl (Meter.readFrame .openaiChat) {} =
      ⟨streamedCount .openaiChat u, true⟩ := by
  have hUsage : usageShown .openaiChat (writeUsageChunk s u) = some (emitUsage u) := by
    simp [usageShown, writeUsageChunk, envelope, Frame.data]
  rw [List.foldl_cons, List.foldl_cons, List.foldl_nil]
  simp only [Meter.readFrame, hUsage, Option.map_some, Option.getD_some, overlay_emitUsage]
  rfl

theorem usage_encodeEvent (s : EmitState) (e : StreamEvent) :
    usage (encodeEvent s e).2 = usage s ⊔ e.usageOf := by
  have hSame {u : Option Usage} (h : u = s.usage) : u.getD {} = usage s ⊔ (⊥ : Usage) := by
    rw [h, sup_bot_eq, usage]
  cases e with
  | messageStart model => exact hSame rfl
  | textDelta text => exact hSame (ensureStarted_usage s)
  | thinkingDelta text => exact hSame (ensureStarted_usage s)
  | toolUseStart id name => exact hSame (ensureStarted_usage s)
  | toolUseDelta fragment => exact hSame (ensureStarted_usage s)
  | usageDelta u =>
      simp only [encodeEvent, EmitState.finish]
      split_ifs <;> rfl
  | done reason =>
      refine hSame ?_
      simp only [encodeEvent, ensureStarted_includeUsage, ensureStarted_usage]
      cases s.includeUsage <;> cases hUsage : s.usage <;> simp [hUsage]

theorem still_closing (s : EmitState) (delta : Value) (reason : Option Str) :
    Still .openaiChat ((ensureStarted s).1 ++ [writeChunk (ensureStarted s).2 delta reason]) :=
  still_append (still_ensureStarted s) (still_writeChunk _ _ _)

theorem still_encodeEvent {s : EmitState} {e : StreamEvent} (hWaiting : s.gate.Waiting)
    (hOpens : s.gate.opens e = false) : Still .openaiChat (encodeEvent s e).1 := by
  cases e with
  | messageStart model => exact still_writeChunk _ _ _
  | textDelta text => exact still_closing s _ _
  | thinkingDelta text => exact still_closing s _ _
  | toolUseStart id name => exact still_append (still_ensureStarted s) (still_writeChunk _ _ _)
  | toolUseDelta fragment => exact still_closing s _ _
  | usageDelta u =>
      have hHeld : s.pendingDone = false := hOpens
      simp only [encodeEvent, EmitState.finish, hHeld]
      exact fun f hf => (List.not_mem_nil hf).elim
  | done reason =>
      have hAsked : s.includeUsage = true := hWaiting.waits
      have hUsage : s.usage = none := by simpa [Gate.opens, EmitState.gate, hAsked] using hOpens
      simp only [encodeEvent, ensureStarted_includeUsage, ensureStarted_usage, hAsked, hUsage]
      exact still_closing s _ _

theorem metered : Metered .openaiChat encodeEvent (fun s => s.finish.1) usage
    (fun s g => s.gate = g ∧ g.Waiting) where
  linked_step := by
    rintro s g e ⟨rfl, hWaiting⟩
    exact ⟨gate_encodeEvent s e, hWaiting.after e⟩
  usage_step := usage_encodeEvent
  quiet := by
    rintro s g e ⟨rfl, hWaiting⟩ hOpens
    exact (still_encodeEvent hWaiting hOpens).foldl rfl
  opens := by
    rintro s g e ⟨rfl, hWaiting⟩ hOpens
    cases e with
    | usageDelta u =>
        have hHeld : s.pendingDone = true := hOpens
        simp only [encodeEvent, EmitState.finish, hHeld, if_true, usageFrames]
        exact read_usageChunk _ _
    | done reason =>
        have hAsked : s.includeUsage = true := hWaiting.waits
        cases hUsage : s.usage with
        | none => simp [Gate.opens, EmitState.gate, hAsked, hUsage] at hOpens
        | some u =>
            simp only [encodeEvent, ensureStarted_includeUsage, ensureStarted_usage, hAsked, hUsage]
            rw [List.foldl_append, (still_closing s _ _).foldl rfl, read_usageChunk, usage, hUsage]
            exact congrArg (fun u => (⟨streamedCount .openaiChat u, true⟩ : Meter))
              (sup_bot_eq _).symm
    | _ => cases hOpens
  finish := by
    rintro s g ⟨rfl, hWaiting⟩
    unfold EmitState.finish
    split_ifs with hHeld
    · have hUsage : s.usage = none := by simpa [EmitState.gate] using hWaiting.unreported hHeld
      simp only [usageFrames, hUsage]
      rfl
    · rfl

end OpenaiChat

/-! ### Responses -/

namespace OpenaiResponses

open Wire.OpenaiResponses

def usage (s : EmitState) : Usage := s.usage.getD {}

/-- Usage is read in the terminal event only. -/
theorem still_of_any {frames : List Frame}
    (h : frames.any Wire.OpenaiResponses.isTerminal = false) : Still .openaiResponses frames := by
  intro f hf
  have hOther := List.any_eq_false.mp h f hf
  refine ⟨?_, by simpa [closes, Service.isTerminal] using hOther⟩
  unfold usageShown
  unfold Wire.OpenaiResponses.isTerminal at hOther
  cases f.payload with
  | done => rfl
  | json v => exact if_neg (by simpa using hOther)

theorem usage_ensureMessage (s : EmitState) : (ensureMessage s).2.usage = s.usage := by
  unfold ensureMessage
  split
  · rfl
  · exact (writeEvents_usage _ _).trans (closeOpen_usage s)

theorem usage_ensureReasoning (s : EmitState) : (ensureReasoning s).2.usage = s.usage := by
  unfold ensureReasoning
  split
  · rfl
  · exact (writeEvents_usage _ _).trans (closeOpen_usage s)

theorem usage_encodeEvent (s : EmitState) (e : StreamEvent) :
    usage (encodeEvent s e).2 = usage s ⊔ e.usageOf := by
  have hSame {u : Option Usage} (h : u = s.usage) : u.getD {} = usage s ⊔ (⊥ : Usage) := by
    rw [h, sup_bot_eq, usage]
  cases e with
  | messageStart model => exact hSame (writeEvents_usage _ _)
  | textDelta text =>
      refine hSame ((?_ : _ = (ensureMessage s).2.usage).trans (usage_ensureMessage s))
      simp only [encodeEvent]
      split <;> rfl
  | thinkingDelta text =>
      refine hSame ((?_ : _ = (ensureReasoning s).2.usage).trans (usage_ensureReasoning s))
      simp only [encodeEvent]
      split <;> rfl
  | toolUseStart id name => exact hSame (closeOpen_usage s)
  | toolUseDelta fragment =>
      refine hSame ?_
      simp only [encodeEvent]
      split <;> rfl
  | usageDelta u =>
      simp only [encodeEvent, EmitState.finish]
      split_ifs <;> rfl
  | done reason =>
      refine hSame ?_
      simp only [encodeEvent, closeOpen_usage]
      cases hUsage : s.usage <;> simp [writeCompleted, writeEvent, hUsage]

theorem overlay_usageValue (u : Usage) :
    overlay .openaiResponses (fun _ => 0) (usageValue u) = streamedCount .openaiResponses u := by
  funext c
  unfold usageValue overlay
  cases c <;> simp [Count.path, memberAt, streamedCount, streamed, Usage.shown, Usage.count]

/-- The terminal event. -/
theorem read_writeCompleted (s : EmitState) :
    (writeCompleted s).1.foldl (Meter.readFrame .openaiResponses) {} =
      ⟨(s.usage.map (streamedCount .openaiResponses)).getD fun _ => 0, true⟩ := by
  have hKeys : "usage" ∉ (cacheFields s.promptCacheKey s.promptCacheRetention).map Prod.fst := by
    unfold cacheFields
    cases s.promptCacheKey <;> simp
  have hGet : (s.responseObj "completed" s.doneItems).get "usage" =
      some ((s.usage.map usageValue).getD .null) := by
    rw [EmitState.responseObj, get_obj_append hKeys]
    simp
  have hUsage : usageShown .openaiResponses (Frame.named "response.completed" (obj
      (("type", .string "response.completed".toList) ::
        [("response", s.responseObj "completed" s.doneItems)] ++
        [("sequence_number", .nat s.seq)]))) = some ((s.usage.map usageValue).getD .null) := by
    simp [usageShown, Frame.named, hGet]
  simp only [writeCompleted, writeEvent, List.foldl_cons, List.foldl_nil, Meter.readFrame, hUsage,
    Option.map_some, Option.getD_some]
  have hCounts : overlay .openaiResponses (fun _ => 0) ((s.usage.map usageValue).getD .null) =
      (s.usage.map (streamedCount .openaiResponses)).getD fun _ => 0 := by
    cases s.usage with
    | none =>
        funext c
        cases c <;> rfl
    | some u => exact overlay_usageValue u
  rw [if_neg Bool.false_ne_true, hCounts]
  rfl

theorem metered : Metered .openaiResponses encodeEvent (fun s => s.finish.1) usage
    (fun s g => s.gate = g ∧ g.Waiting) where
  linked_step := by
    rintro s g e ⟨rfl, hWaiting⟩
    exact ⟨gate_encodeEvent s e, hWaiting.after e⟩
  usage_step := usage_encodeEvent
  quiet := by
    rintro s g e ⟨rfl, hWaiting⟩ hOpens
    exact (still_of_any ((any_encodeEvent s e).trans hOpens)).foldl rfl
  opens := by
    rintro s g e ⟨rfl, hWaiting⟩ hOpens
    cases e with
    | usageDelta u =>
        have hHeld : s.pendingCompleted = true := hOpens
        simp only [encodeEvent, EmitState.finish, hHeld, if_true]
        exact read_writeCompleted _
    | done reason =>
        cases hUsage : s.usage with
        | none => simp [Gate.opens, EmitState.gate, hUsage] at hOpens
        | some u =>
            simp only [encodeEvent, closeOpen_usage, hUsage]
            rw [List.foldl_append, (still_of_any (any_closeOpen s)).foldl rfl, read_writeCompleted,
              closeOpen_usage, hUsage, usage, hUsage]
            exact congrArg (fun u => (⟨streamedCount .openaiResponses u, true⟩ : Meter))
              (sup_bot_eq _).symm
    | _ => cases hOpens
  finish := by
    rintro s g ⟨rfl, hWaiting⟩
    unfold EmitState.finish
    split_ifs with hHeld
    · have hUsage : s.usage = none := by simpa [EmitState.gate] using hWaiting.unreported hHeld
      rw [read_writeCompleted]
      simp only [hUsage]
      rfl
    · rfl

end OpenaiResponses

/-! ### Messages -/

namespace Anthropic

open Wire.Anthropic

/-- Frames that leave an open client with no counts. -/
def Blank (frames : List Frame) : Prop :=
  frames.foldl (Meter.readFrame .anthropic) {} = {}

theorem blank_append {fs gs : List Frame} (hf : Blank fs) (hg : Blank gs) : Blank (fs ++ gs) := by
  rw [Blank, List.foldl_append, hf]
  exact hg

theorem blank_named {name : String} (h : name ∉ ["message_start", "message_delta", "message_stop"])
    (v : Value) : Blank [.named name v] := by
  simp only [List.mem_cons, List.not_mem_nil, or_false, not_or] at h
  obtain ⟨hStart, hDelta, hStop⟩ := h
  refine Still.foldl (fun f hf => ?_) rfl
  rw [List.mem_singleton] at hf
  subst hf
  exact ⟨by simp [usageShown, Frame.named, hStart, hDelta],
    by simp [closes, Service.isTerminal, Wire.Anthropic.isTerminal, Frame.named, hStop]⟩

/-- The counts that open a message are zeros. -/
theorem blank_emitMessageStart (s : EmitState) : Blank (emitMessageStart s).1 := by
  have hZero : overlay .anthropic (fun _ => 0)
      (obj [("input_tokens", .nat 0), ("output_tokens", .nat 0)]) = fun _ => 0 := by
    funext c
    cases c <;> simp [overlay, Count.path, memberAt]
  simp [Blank, emitMessageStart, Meter.readFrame, usageShown, Frame.named, hZero, closes,
    Service.isTerminal, Wire.Anthropic.isTerminal]

theorem blank_ensureStarted (s : EmitState) : Blank (ensureStarted s).1 := by
  unfold ensureStarted
  split_ifs
  · rfl
  · exact blank_emitMessageStart s

theorem blank_closeOpen (s : EmitState) : Blank (closeOpen s).1 := by
  unfold closeOpen
  split
  · rfl
  · exact blank_named (by decide) _

theorem blank_ensureBlock (s : EmitState) (kind : BlockKind) : Blank (ensureBlock s kind).1 := by
  simp only [ensureBlock]
  split_ifs
  · exact blank_ensureStarted s
  · exact blank_append (blank_append (blank_ensureStarted s) (blank_closeOpen _))
      (blank_named (by decide) _)

theorem blank_encodeEvent {s : EmitState} {e : StreamEvent} (h : e.isDone = false) :
    Blank (encodeEvent s e).1 := by
  cases e with
  | messageStart model => exact blank_emitMessageStart _
  | textDelta text => exact blank_append (blank_ensureBlock s _) (blank_named (by decide) _)
  | thinkingDelta text => exact blank_append (blank_ensureBlock s _) (blank_named (by decide) _)
  | toolUseStart id name =>
      exact blank_append (blank_append (blank_ensureStarted s) (blank_closeOpen _))
        (blank_named (by decide) _)
  | toolUseDelta fragment => exact blank_append (blank_ensureBlock s _) (blank_named (by decide) _)
  | usageDelta u => rfl
  | done reason => cases h

theorem usage_ensureStarted (s : EmitState) : (ensureStarted s).2.usage = s.usage := by
  unfold ensureStarted
  split_ifs <;> rfl

theorem usage_closeOpen (s : EmitState) : (closeOpen s).2.usage = s.usage := by
  unfold closeOpen
  split <;> rfl

theorem usage_ensureBlock (s : EmitState) (kind : BlockKind) :
    (ensureBlock s kind).2.usage = s.usage := by
  simp only [ensureBlock]
  split_ifs
  · exact usage_ensureStarted s
  · exact (usage_closeOpen _).trans (usage_ensureStarted s)

theorem usage_closed (s : EmitState) : (closeOpen (ensureStarted s).2).2.usage = s.usage :=
  (usage_closeOpen _).trans (usage_ensureStarted s)

theorem usage_encodeEvent (s : EmitState) (e : StreamEvent) :
    (encodeEvent s e).2.usage = s.usage ⊔ e.usageOf := by
  have hSame {u : Usage} (h : u = s.usage) : u = s.usage ⊔ (⊥ : Usage) := by rw [h, sup_bot_eq]
  cases e with
  | messageStart model => exact hSame rfl
  | textDelta text => exact hSame (usage_ensureBlock s _)
  | thinkingDelta text => exact hSame (usage_ensureBlock s _)
  | toolUseStart id name => exact hSame (usage_closed s)
  | toolUseDelta fragment => exact hSame (usage_ensureBlock s _)
  | usageDelta u => rfl
  | done reason => exact hSame (usage_closed s)

/-- The delta that ends a message has its output, and the input stays at zero. -/
theorem read_done (s : EmitState) (reason : StopReason) :
    (encodeEvent s (.done reason)).1.foldl (Meter.readFrame .anthropic) {} =
      ⟨streamedCount .anthropic s.usage, true⟩ := by
  have hOutput : overlay .anthropic (fun _ => 0) (obj [("output_tokens", .nat s.usage.outputTokens)]) =
      streamedCount .anthropic s.usage := by
    funext c
    cases c <;> simp [overlay, Count.path, memberAt, streamedCount, streamed, Usage.shown, Usage.count]
  have hBlank := blank_append (blank_ensureStarted s) (blank_closeOpen (ensureStarted s).2)
  simp only [encodeEvent]
  rw [List.foldl_append, hBlank, usage_closed]
  simp [Meter.readFrame, usageShown, Frame.named, hOutput, closes, Service.isTerminal,
    Wire.Anthropic.isTerminal]

theorem metered : Metered .anthropic encodeEvent (fun _ => []) EmitState.usage
    (fun _ g => g.waits = false ∧ g.held = false) where
  linked_step := by
    rintro s ⟨waits, reported, held⟩ e ⟨rfl, rfl⟩
    cases e <;> exact ⟨rfl, rfl⟩
  usage_step := usage_encodeEvent
  quiet := by
    rintro s ⟨waits, reported, held⟩ e ⟨rfl, rfl⟩ hOpens
    refine blank_encodeEvent ?_
    cases e with
    | done reason => cases hOpens
    | _ => rfl
  opens := by
    rintro s ⟨waits, reported, held⟩ e ⟨rfl, rfl⟩ hOpens
    cases e with
    | done reason =>
        rw [read_done]
        exact congrArg (fun u => (⟨streamedCount .anthropic u, true⟩ : Meter)) (sup_bot_eq _).symm
    | _ => cases hOpens
  finish := fun _ _ _ => rfl

end Anthropic

/-! ### Gemini -/

namespace Gemini

open Wire.Gemini

def usage (s : EmitState) : Usage := s.usage.getD {}

theorem still_partsChunk (model : Str) (parts : List Value) :
    Still .gemini [partsChunk model parts] := by
  intro f hf
  rw [List.mem_singleton] at hf
  subst hf
  exact ⟨by simp [usageShown, partsChunk, Frame.data], rfl⟩

theorem still_flushTool (s : EmitState) : Still .gemini s.flushTool.1 := by
  unfold EmitState.flushTool
  split
  · exact fun f hf => (List.not_mem_nil hf).elim
  · exact still_partsChunk _ _

theorem usage_flushTool (s : EmitState) : usage s.flushTool.2 = usage s := by
  unfold EmitState.flushTool
  split <;> rfl

theorem still_encodeEvent (s : EmitState) {e : StreamEvent} (h : e.isDone = false) :
    Still .gemini (encodeEvent s e).1 := by
  cases e with
  | textDelta text => exact still_partsChunk _ _
  | toolUseStart id name => exact still_flushTool s
  | done reason => cases h
  | _ => exact fun f hf => (List.not_mem_nil hf).elim

theorem usage_encodeEvent (s : EmitState) (e : StreamEvent) :
    usage (encodeEvent s e).2 = usage s ⊔ e.usageOf := by
  have hSame {u : Usage} (h : u = usage s) : u = usage s ⊔ (⊥ : Usage) := by rw [h, sup_bot_eq]
  cases e with
  | usageDelta u => rfl
  | toolUseStart id name => exact hSame (usage_flushTool s)
  | done reason => exact hSame (usage_flushTool s)
  | _ => exact hSame rfl

/-- A finish reason comes with the counts of the reports before it. -/
theorem read_done (s : EmitState) (reason : StopReason) {m : Meter} (hOpen : m.closed = false)
    (hAbsent : ∀ c, streamed .gemini c = false → m.counts c = 0) :
    (encodeEvent s (.done reason)).1.foldl (Meter.readFrame .gemini) m =
      ⟨streamedCount .gemini (usage s), false⟩ := by
  have hCounts (u : Usage) : overlay .gemini m.counts (obj [("promptTokenCount", .nat u.inputTokens),
      ("candidatesTokenCount", .nat u.outputTokens),
      ("totalTokenCount", .nat ((u.inputTokens + u.outputTokens) % 2 ^ 32))]) =
        streamedCount .gemini u := by
    funext c
    have hZero := hAbsent c
    cases c <;>
      simp_all [overlay, Count.path, memberAt, streamedCount, streamed, Usage.shown, Usage.count]
  simp only [encodeEvent]
  rw [List.foldl_append, (still_flushTool s).foldl hOpen, ← usage_flushTool s, usage]
  simp [Meter.readFrame, hOpen, usageShown, Frame.data, closes, -Nat.reducePow]
  exact hCounts _

theorem read_run (s : EmitState) {m : Meter} (hOpen : m.closed = false)
    (hAbsent : ∀ c, streamed .gemini c = false → m.counts c = 0) (events : List StreamEvent) :
    ((Transducer.run encodeEvent s events).1.foldl (Meter.readFrame .gemini) m).counts =
      if events.any StreamEvent.isDone then
        streamedCount .gemini (usage s ⊔ usageOf (upToLastDone events))
      else m.counts := by
  induction events generalizing s m with
  | nil => rfl
  | cons e rest ih =>
      have hUsage (es : List StreamEvent) :
          usage (encodeEvent s e).2 ⊔ usageOf es = usage s ⊔ usageOf (e :: es) := by
        rw [usage_encodeEvent, ← List.singleton_append (l := es), usageOf_append, sup_assoc]
        rfl
      rw [Transducer.run_cons, List.foldl_append, upToLastDone, List.any_cons]
      cases hDone : e.isDone with
      | false =>
          rw [(still_encodeEvent s hDone).foldl hOpen, ih _ hOpen hAbsent, Bool.false_or, hUsage]
          split_ifs <;> rfl
      | true =>
          cases e with
          | done reason =>
              rw [read_done s reason hOpen hAbsent,
                ih _ rfl fun c hc => streamedCount_absent hc _, hUsage, Bool.true_or, if_pos rfl,
                if_pos rfl]
              split_ifs with hMore
              · rfl
              · rw [upToLastDone_eq_nil (Bool.not_eq_true _ ▸ hMore)]
                exact congrArg (streamedCount .gemini) (sup_bot_eq _).symm
          | _ => cases hDone

end Gemini

/-! ### The end -/

theorem counts_getD (surface : WireFormat) {u : Usage} (hNone : u = ⊥)
    (reached : Option (List StreamEvent)) :
    ((reached.map fun es => streamedCount surface (u ⊔ usageOf es)).getD fun _ => 0) =
      streamedCount surface (usageOf (reached.getD [])) := by
  subst hNone
  cases reached with
  | none => exact (streamedCount_bot surface).symm
  | some es => rw [Option.map_some, Option.getD_some, Option.getD_some, bot_sup_eq]

/-- A client has the counts of the reports that reach it. -/
theorem clientCounts_eq (surface : WireFormat) (echo : Option Str × Option Str)
    (events : List StreamEvent) :
    clientCounts surface echo events = streamedCount surface (usageOf (heard surface events)) := by
  have hWaiting : (⟨true, false, false⟩ : Gate).Waiting := ⟨rfl, fun h => absurd h Bool.false_ne_true⟩
  cases surface with
  | anthropic =>
      refine (Anthropic.metered.run (s := {}) (g := ⟨false, false, false⟩) ⟨rfl, rfl⟩ events).trans ?_
      exact counts_getD _ rfl _
  | openaiChat =>
      refine (OpenaiChat.metered.run (s := Wire.OpenaiChat.EmitState.setIncludeUsage {} true)
        (g := ⟨true, false, false⟩) ⟨rfl, hWaiting⟩ events).trans ?_
      exact counts_getD _ rfl _
  | openaiResponses =>
      refine (OpenaiResponses.metered.run
        (s := Wire.OpenaiResponses.EmitState.setPromptCache {} echo.1 echo.2)
        (g := ⟨true, false, false⟩) ⟨rfl, hWaiting⟩ events).trans ?_
      exact counts_getD _ rfl _
  | gemini =>
      have hRead := Gemini.read_run {} (m := {}) rfl (fun _ _ => rfl) events
      refine (congrArg (fun fs => (fs.foldl (Meter.readFrame .gemini) {}).counts)
        (List.append_nil _)).trans (hRead.trans ?_)
      have hBot : Gemini.usage {} ⊔ usageOf (upToLastDone events) = usageOf (upToLastDone events) :=
        bot_sup_eq _
      rw [hBot]
      split_ifs with hDone
      · rfl
      · rw [heard, upToLastDone_eq_nil (Bool.not_eq_true _ ▸ hDone)]
        exact (streamedCount_bot .gemini).symm

/-! ### Totals -/

theorem shown_sup {c : Count} (h : c ≠ .total) (u v : Usage) :
    (u ⊔ v).shown c = max (u.shown c) (v.shown c) := by
  cases c with
  | total => exact absurd rfl h
  | _ => rfl

/-- A total is reached by one of its reports. -/
theorem le_shown_usageOf {c : Count} (h : c ≠ .total) {n : Nat} (hn : 0 < n)
    (events : List StreamEvent) :
    n ≤ (usageOf events).shown c ↔ ∃ u, .usageDelta u ∈ events ∧ n ≤ u.shown c := by
  have hBot : (⊥ : Usage).shown c = 0 := by cases c <;> rfl
  induction events with
  | nil =>
      refine iff_of_false ?_ (by simp)
      rw [show usageOf [] = ⊥ from rfl, hBot]
      omega
  | cons e rest ih =>
      rw [← List.singleton_append, usageOf_append, shown_sup h, le_max_iff, List.singleton_append]
      have hFirst : n ≤ (usageOf [e]).shown c ↔ ∃ u, e = .usageDelta u ∧ n ≤ u.shown c := by
        rw [show usageOf [e] = e.usageOf from bot_sup_eq _]
        cases e with
        | usageDelta u => simp [StreamEvent.usageOf]
        | _ =>
            refine iff_of_false ?_ (by simp)
            have hZero : (⊥ : Usage).shown c < n := hBot ▸ hn
            exact hZero.not_ge
      refine (or_congr hFirst ih).trans ?_
      simp only [List.mem_cons, or_and_right, exists_or, eq_comm]

theorem mem_of_mem_heard {surface : WireFormat} {events : List StreamEvent} {e : StreamEvent}
    (h : e ∈ heard surface events) : e ∈ events := by
  cases surface with
  | anthropic => exact Gate.mem_of_mem_heard h
  | openaiChat => exact Gate.mem_of_mem_heard h
  | openaiResponses => exact Gate.mem_of_mem_heard h
  | gemini => exact mem_of_mem_upToLastDone h

/-- Every count of every report that the surface's format has a place for is in its
stream, and reached by a report that comes in time. -/
def InTime (surface : WireFormat) (events : List StreamEvent) : Prop :=
  ∀ u, .usageDelta u ∈ events → ∀ c, c ≠ .total → c.path surface ≠ [] → 0 < u.shown c →
    streamed surface c = true ∧ ∃ v, .usageDelta v ∈ heard surface events ∧ u.shown c ≤ v.shown c

/-- What a client reads is the merge of all reports exactly when they come in time, in
counts that the stream has. -/
theorem client_usage_iff (surface : WireFormat) (echo : Option Str × Option Str)
    (events : List StreamEvent) :
    (∀ c, c ≠ .total → c.path surface ≠ [] →
        clientCounts surface echo events c = (usageOf events).shown c) ↔
      InTime surface events := by
  rw [clientCounts_eq]
  constructor
  · intro hAll u hu c hPart hPath hPos
    have hReached : u.shown c ≤ (usageOf events).shown c :=
      (le_shown_usageOf hPart hPos events).mpr ⟨u, hu, le_rfl⟩
    rw [← hAll c hPart hPath] at hReached
    cases hStreamed : streamed surface c with
    | false =>
        rw [streamedCount_absent hStreamed] at hReached
        omega
    | true =>
        rw [streamedCount, if_pos hStreamed] at hReached
        exact ⟨rfl, (le_shown_usageOf hPart hPos _).mp hReached⟩
  · intro hInTime c hPart hPath
    refine le_antisymm ?_ ?_
    · rcases Nat.eq_zero_or_pos (streamedCount surface (usageOf (heard surface events)) c) with
        hZero | hPos
      · exact hZero.le.trans (Nat.zero_le _)
      · cases hStreamed : streamed surface c with
        | false => exact (streamedCount_absent hStreamed _).le.trans (Nat.zero_le _)
        | true =>
            rw [streamedCount, if_pos hStreamed] at hPos ⊢
            obtain ⟨u, hu, hReached⟩ := (le_shown_usageOf hPart hPos _).mp le_rfl
            exact (le_shown_usageOf hPart hPos _).mpr ⟨u, mem_of_mem_heard hu, hReached⟩
    · rcases Nat.eq_zero_or_pos ((usageOf events).shown c) with hZero | hPos
      · exact hZero.le.trans (Nat.zero_le _)
      · obtain ⟨u, hu, hReached⟩ := (le_shown_usageOf hPart hPos events).mp le_rfl
        obtain ⟨hStreamed, v, hv, hBound⟩ := hInTime u hu c hPart hPath (hPos.trans_le hReached)
        rw [streamedCount, if_pos hStreamed]
        exact (le_shown_usageOf hPart hPos _).mpr ⟨v, hv, hReached.trans hBound⟩

/-- A report that came in good time, on a surface that opens with zeros. -/
theorem input_unreported : ¬ ∀ (surface : WireFormat) (echo : Option Str × Option Str)
    (events : List StreamEvent) (c : Count), c ≠ .total → c.path surface ≠ [] →
      clientCounts surface echo events c = (usageOf events).shown c := by
  intro h
  have hInput := h .anthropic (none, none)
    [.messageStart "m".toList, .textDelta "hi".toList,
      .usageDelta { inputTokens := 3, outputTokens := 5 }, .done .endTurn]
    .input (by decide) (by decide)
  rw [clientCounts_eq] at hInput
  exact absurd hInput (by decide)

end Gateway.Service
