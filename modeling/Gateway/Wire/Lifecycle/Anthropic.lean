import Gateway.Wire.Anthropic
import Gateway.Wire.Lifecycle.Ended

/-! The life of a Messages stream: it starts, its blocks follow one another, each
open until the next, and it stops. -/
namespace Gateway.Wire

/-- A frame of an event, under the event's name. -/
def Frame.Named (f : Frame) (name : String) : Prop :=
  f.event = some name ∧ ∃ v, f.payload = .json v ∧ optStr v "type" = some name.toList

namespace Anthropic

open Json

/-! ### Well-formed streams -/

def BlockKind.type : BlockKind → String
  | .text => "text"
  | .thinking => "thinking"
  | .tool => "tool_use"

def BlockKind.deltaType : BlockKind → String
  | .text => "text_delta"
  | .thinking => "thinking_delta"
  | .tool => "input_json_delta"

/-- A content block of a stream, as it starts, and its deltas. -/
structure Section where
  kind : BlockKind
  block : Value
  deltas : List Value

namespace Section

/-- The block and its deltas are of its kind. -/
structure Typed (b : Section) : Prop where
  block : optStr b.block "type" = some b.kind.type.toList
  deltas : ∀ d ∈ b.deltas, optStr d "type" = some b.kind.deltaType.toList

def blockStop (index : Nat) : Frame :=
  .named "content_block_stop" (obj [("type", .string "content_block_stop".toList), ("index", .nat index)])

/-- The frames of a block before it stops. -/
def begun (index : Nat) (b : Section) : List Frame :=
  blockStart index b.block :: b.deltas.map (deltaFrame index)

/-- The frames of a block. -/
def frames (index : Nat) (b : Section) : List Frame := b.begun index ++ [blockStop index]

end Section

/-- Blocks one after the other, numbered from an index. -/
def sections (index : Nat) : List Section → List Frame
  | [] => []
  | b :: rest => b.frames index ++ sections (index + 1) rest

/-- One start, the blocks, the closing delta and one stop. -/
def WellFormed (frames : List Frame) : Prop :=
  ∃ start blocks delta stop, frames = start :: sections 0 blocks ++ [delta, stop] ∧
    start.Named "message_start" ∧ (∀ b ∈ blocks, b.Typed) ∧ delta.Named "message_delta" ∧
      stop.Named "message_stop"

theorem sections_append (index : Nat) (before after : List Section) :
    sections index (before ++ after) =
      sections index before ++ sections (index + before.length) after := by
  induction before generalizing index with
  | nil => rfl
  | cons b rest ih =>
      rw [List.cons_append, sections, sections, ih, List.append_assoc, List.length_cons,
        Nat.add_right_comm, Nat.add_assoc]

/-! ### What is written before the end -/

/-- The frames of the block that is open. -/
inductive Unfinished (index : Nat) : Option BlockKind → List Frame → Prop where
  | none : Unfinished index none []
  | some {b : Section} (typed : b.Typed) : Unfinished index (some b.kind) (b.begun index)

/-- Nothing, or the start, the blocks that are closed and the one that is open. -/
inductive Written (s : EmitState) : List Frame → Prop where
  | silent (started : s.started = false) (shut : s.open = none) (first : s.nextIndex = 0) :
      Written s []
  | speaking {start : Frame} {blocks : List Section} {rest : List Frame} (started : s.started = true)
      (named : start.Named "message_start") (typed : ∀ b ∈ blocks, b.Typed)
      (next : s.nextIndex = blocks.length) (unfinished : Unfinished s.nextIndex s.open rest) :
      Written s (start :: sections 0 blocks ++ rest)

section

variable {s : EmitState} {out : List Frame}

theorem emitMessageStart_named (s : EmitState) :
    ∃ start, emitMessageStart s = ([start], { s with started := true }) ∧
      start.Named "message_start" :=
  ⟨_, rfl, rfl, _, rfl, by simp⟩

/-- The start is written once, before all else. -/
theorem Written.emitMessageStart (h : Written s []) :
    Written (emitMessageStart s).2 (Anthropic.emitMessageStart s).1 := by
  obtain ⟨start, hEmit, hNamed⟩ := emitMessageStart_named s
  rw [hEmit]
  cases h with
  | silent started shut first =>
      have hRest : Unfinished s.nextIndex s.open [] := by
        rw [shut]
        exact .none
      have hNone : ∀ b ∈ ([] : List Section), b.Typed := nofun
      exact .speaking rfl hNamed hNone first hRest

theorem Written.ensureStarted (h : Written s out) :
    Written (ensureStarted s).2 (out ++ (Anthropic.ensureStarted s).1) ∧
      (Anthropic.ensureStarted s).2.started = true := by
  unfold Anthropic.ensureStarted
  cases h with
  | silent started shut first =>
      rw [started]
      exact ⟨(Written.silent started shut first).emitMessageStart, rfl⟩
  | speaking started named typed next unfinished =>
      rw [started]
      refine ⟨?_, started⟩
      simpa using Written.speaking started named typed next unfinished

theorem Written.closeOpen (h : Written s out) (hStarted : s.started = true) :
    Written (closeOpen s).2 (out ++ (Anthropic.closeOpen s).1) ∧
      (Anthropic.closeOpen s).2.open = none ∧ (Anthropic.closeOpen s).2.started = true := by
  cases h with
  | silent started => simp [hStarted] at started
  | @speaking start blocks rest started named typed next unfinished =>
      unfold Anthropic.closeOpen
      generalize hOpen : s.open = opened at unfinished
      cases unfinished with
      | none =>
          refine ⟨?_, hOpen, hStarted⟩
          have hRest : Unfinished s.nextIndex s.open [] := by
            rw [hOpen]
            exact .none
          simpa using Written.speaking started named typed next hRest
      | @some b hTyped =>
          refine ⟨?_, rfl, hStarted⟩
          have hBlocks : sections 0 (blocks ++ [b]) = sections 0 blocks ++ b.frames s.nextIndex := by
            rw [sections_append, next, Nat.zero_add, sections, sections, List.append_nil]
          have hAll : ∀ c ∈ blocks ++ [b], c.Typed := by
            intro c hc
            rcases List.mem_append.mp hc with hOld | hNew
            · exact typed c hOld
            · cases List.mem_singleton.mp hNew
              exact hTyped
          have hClosed := Written.speaking (s := { s with «open» := none, nextIndex := s.nextIndex + 1 })
            started named hAll (by simp [next]) .none
          rw [hBlocks] at hClosed
          simpa [Section.frames, Section.blockStop] using hClosed

/-- A block is opened once the one before it is closed. -/
theorem Written.blockStart {kind : BlockKind} {block : Value} (h : Written s out)
    (hStarted : s.started = true) (hShut : s.open = none)
    (hType : optStr block "type" = some kind.type.toList) :
    Written { s with «open» := some kind } (out ++ [blockStart s.nextIndex block]) := by
  cases h with
  | silent started => simp [hStarted] at started
  | speaking started named typed next unfinished =>
      rw [hShut] at unfinished
      cases unfinished with
      | none =>
          have hOpened := Written.speaking (s := { s with «open» := some kind }) started named typed next
            (.some (b := ⟨kind, block, []⟩) ⟨hType, nofun⟩)
          simpa [Section.begun] using hOpened

/-- A delta goes into the open block of its kind. -/
theorem Written.deltaFrame {kind : BlockKind} {delta : Value} (h : Written s out)
    (hOpen : s.open = some kind) (hType : optStr delta "type" = some kind.deltaType.toList) :
    Written s (out ++ [deltaFrame s.nextIndex delta]) := by
  cases h with
  | silent started shut => simp [hOpen] at shut
  | speaking started named typed next unfinished =>
      rw [hOpen] at unfinished
      cases unfinished with
      | @some b hTyped =>
          have hMore : (⟨b.kind, b.block, b.deltas ++ [delta]⟩ : Section).Typed := by
            refine ⟨hTyped.block, fun d hd => ?_⟩
            rcases List.mem_append.mp hd with hOld | hNew
            · exact hTyped.deltas d hOld
            · cases List.mem_singleton.mp hNew
              exact hType
          have hRest : Unfinished s.nextIndex s.open (Section.begun s.nextIndex ⟨b.kind, b.block,
              b.deltas ++ [delta]⟩) := by
            rw [hOpen]
            exact .some hMore
          simpa [Section.begun] using Written.speaking started named typed next hRest

theorem Written.ensureBlock (h : Written s out) (kind : BlockKind) :
    Written (ensureBlock s kind).2 (out ++ (Anthropic.ensureBlock s kind).1) ∧
      (Anthropic.ensureBlock s kind).2.open = some kind := by
  obtain ⟨hStart, hStarted⟩ := h.ensureStarted
  have hType : optStr kind.opening "type" = some kind.type.toList := by
    cases kind <;> simp [BlockKind.opening, BlockKind.type]
  unfold Anthropic.ensureBlock
  dsimp only
  split
  · next hOpen => exact ⟨hStart, hOpen⟩
  · obtain ⟨hClosed, hShut, hStill⟩ := hStart.closeOpen hStarted
    refine ⟨?_, rfl⟩
    simpa using hClosed.blockStart hStill hShut hType

theorem Written.writeDelta {kind : BlockKind} {delta : Value} (h : Written s out)
    (hType : optStr delta "type" = some kind.deltaType.toList) :
    Written (writeDelta s kind delta).2 (out ++ (Anthropic.writeDelta s kind delta).1) := by
  obtain ⟨hReady, hOpen⟩ := h.ensureBlock kind
  unfold Anthropic.writeDelta
  dsimp only
  rw [← List.append_assoc]
  exact hReady.deltaFrame hOpen hType

/-- An event before the end, other than a second start. -/
theorem Written.step {e : StreamEvent} (h : Written s out) (hStart : e.isStart = false)
    (hDone : e.isDone = false) : Written (encodeEvent s e).2 (out ++ (encodeEvent s e).1) := by
  cases e with
  | messageStart model => cases hStart
  | textDelta text => exact h.writeDelta (by simp [BlockKind.deltaType])
  | thinkingDelta text => exact h.writeDelta (by simp [BlockKind.deltaType])
  | toolUseDelta partialJson => exact h.writeDelta (by simp [BlockKind.deltaType])
  | toolUseStart id name =>
      obtain ⟨hStart, hStarted⟩ := h.ensureStarted
      obtain ⟨hClosed, hShut, hStill⟩ := hStart.closeOpen hStarted
      have hType : optStr (obj [("type", .string "tool_use".toList), ("id", .string id),
          ("name", .string name), ("input", obj [])]) "type" = some BlockKind.tool.type.toList := by
        simp [BlockKind.type]
      have hOpened := hClosed.blockStart hStill hShut hType
      simpa [encodeEvent] using hOpened
  | usageDelta usage =>
      rw [encodeEvent, List.append_nil]
      cases h with
      | silent started shut first => exact .silent started shut first
      | speaking started named typed next unfinished =>
          exact .speaking started named typed next unfinished
  | done reason => cases hDone

theorem Written.run {events : List StreamEvent} (h : Written s out)
    (hStart : ∀ e ∈ events, e.isStart = false) (hDone : ∀ e ∈ events, e.isDone = false) :
    Written (encodeSse events s).2 (out ++ (encodeSse events s).1) := by
  unfold encodeSse
  induction events generalizing s out with
  | nil => simpa using h
  | cons e rest ih =>
      have hStep := h.step (hStart e List.mem_cons_self) (hDone e List.mem_cons_self)
      have hRest := ih hStep (fun e he => hStart e (List.mem_cons_of_mem _ he))
        fun e he => hDone e (List.mem_cons_of_mem _ he)
      rwa [List.append_assoc] at hRest

/-- The end closes what is open. -/
theorem Written.done (h : Written s out) (reason : StopReason) :
    WellFormed (out ++ (encodeEvent s (.done reason)).1) := by
  obtain ⟨hStart, hStarted⟩ := h.ensureStarted
  obtain ⟨hClosed, hShut, hStill⟩ := hStart.closeOpen hStarted
  unfold encodeEvent
  dsimp only
  rw [← List.append_assoc, ← List.append_assoc]
  generalize out ++ (Anthropic.ensureStarted s).1 ++
    (Anthropic.closeOpen (Anthropic.ensureStarted s).2).1 = written at hClosed ⊢
  cases hClosed with
  | silent started => simp [hStill] at started
  | @speaking start blocks rest started named typed next unfinished =>
      rw [hShut] at unfinished
      cases unfinished with
      | none =>
          exact ⟨start, blocks, _, _, by rw [List.append_nil], named, typed, ⟨rfl, _, rfl, by simp⟩,
            ⟨rfl, _, rfl, by simp⟩⟩

/-- Reports alone write nothing. -/
theorem encodeSse_reports {reports : List StreamEvent} (h : ∀ e ∈ reports, e.isUsage = true) :
    (encodeSse reports s).1 = [] := by
  unfold encodeSse
  induction reports generalizing s with
  | nil => rfl
  | cons e rest ih =>
      have hRest := fun s => ih (s := s) fun e he => h e (List.mem_cons_of_mem _ he)
      cases e with
      | usageDelta usage =>
          rw [Transducer.run_cons, hRest]
          rfl
      | _ => cases h _ List.mem_cons_self

end

/-- What is written of an answer before its end. -/
theorem written_body {body : List StreamEvent} (hBody : ∀ e ∈ body, e.isDone = false)
    (hStart : ∀ e ∈ body.tail, e.isStart = false) :
    Written (encodeSse body {}).2 (encodeSse body {}).1 := by
  have hNew : Written {} [] := .silent rfl rfl rfl
  cases body with
  | nil => exact hNew
  | cons e rest =>
      have hRest : ∀ e ∈ rest, e.isDone = false := fun e he => hBody e (List.mem_cons_of_mem _ he)
      have hFirst : Written (encodeEvent {} e).2 (encodeEvent {} e).1 := by
        cases hIs : e.isStart with
        | false => exact hNew.step hIs (hBody e List.mem_cons_self)
        | true =>
            cases e with
            | messageStart model => exact (Written.silent rfl rfl rfl).emitMessageStart
            | _ => cases hIs
      exact hFirst.run hStart hRest

end Anthropic

end Gateway.Wire
