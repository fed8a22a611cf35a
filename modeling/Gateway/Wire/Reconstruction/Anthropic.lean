import Gateway.Wire.Reconstruction.Step

/-! What a Messages client reads from the encoder's frames: every event, step by
step, with a call of its own for each stray fragment. -/
namespace Gateway.Wire

open Json

namespace Anthropic

def Block.kind : Block → Option BlockKind
  | .text _ => some .text
  | .thinking .. => some .thinking
  | .toolUse .. => some .tool
  | _ => none

theorem modify_concat {α : Type} (closed : List α) (b : α) (f : α → α) :
    (closed ++ [b]).modify closed.length f = closed ++ [f b] := by
  induction closed with
  | nil => rfl
  | cons c cs ih => simp [ih]

@[simp] theorem readFrame_blockStart (r : Reader) (i : Nat) (b : Value) :
    r.readFrame (blockStart i b) = { r with blocks := r.blocks ++ [startBlock b] } := by
  simp [Reader.readFrame, blockStart, Frame.named, Reader.read]

@[simp] theorem readFrame_deltaFrame (r : Reader) (i : Nat) (d : Value) :
    r.readFrame (deltaFrame i d) = { r with blocks := r.blocks.modify i (Block.extend d) } := by
  simp [Reader.readFrame, deltaFrame, Frame.named, Reader.read]

@[simp] theorem read_ensureStarted (r : Reader) (s : EmitState) :
    (ensureStarted s).1.foldl Reader.readFrame r = r := by
  unfold ensureStarted
  split_ifs
  · rfl
  · simp [emitMessageStart, Reader.readFrame, Frame.named, Reader.read]

@[simp] theorem read_closeOpen (r : Reader) (s : EmitState) :
    (closeOpen s).1.foldl Reader.readFrame r = r := by
  unfold closeOpen
  split
  · rfl
  · simp [Reader.readFrame, Frame.named, Reader.read]

@[simp] theorem ensureStarted_open (s : EmitState) : (ensureStarted s).2.open = s.open := by
  unfold ensureStarted
  split_ifs <;> rfl

@[simp] theorem ensureStarted_nextIndex (s : EmitState) :
    (ensureStarted s).2.nextIndex = s.nextIndex := by
  unfold ensureStarted
  split_ifs <;> rfl

@[simp] theorem closeOpen_open (s : EmitState) : (closeOpen s).2.open = none := by
  unfold closeOpen
  split
  · assumption
  · rfl

/-- The client has the blocks the encoder has closed, and the open one last. -/
def Holds (s : EmitState) (blocks : List Block) : Prop :=
  match s.open with
  | none => blocks.length = s.nextIndex
  | some kind => ∃ closed b, blocks = closed ++ [b] ∧ closed.length = s.nextIndex ∧
      b.kind = some kind

theorem Holds.closeOpen {s : EmitState} {blocks : List Block} (h : Holds s blocks) :
    blocks.length = (closeOpen s).2.nextIndex := by
  unfold Holds at h
  unfold Anthropic.closeOpen
  cases hOpen : s.open with
  | none => simpa [hOpen] using h
  | some kind =>
      simp only [hOpen] at h
      obtain ⟨closed, b, rfl, hLength, -⟩ := h
      simp [hLength]

theorem Holds.ensureStarted {s : EmitState} {blocks : List Block} (h : Holds s blocks) :
    Holds (ensureStarted s).2 blocks := by
  unfold Holds at *
  simpa using h

/-- The block the encoder opens by itself. -/
def freshBlock : BlockKind → Block
  | .text => .text []
  | .thinking => .thinking [] []
  | .tool => .toolUse [] [] []

theorem startBlock_opening (kind : BlockKind) : startBlock kind.opening = freshBlock kind := by
  cases kind <;> simp [startBlock, BlockKind.opening, freshBlock]

/-- After making sure of a block of a kind, the client's last block is of that
kind: the one that was open, or a fresh one. -/
theorem read_ensureBlock {s : EmitState} {blocks : List Block} (h : Holds s blocks)
    (kind : BlockKind) (stopped : Bool) :
    ∃ closed b, (ensureBlock s kind).1.foldl Reader.readFrame ⟨blocks, stopped⟩ =
        ⟨closed ++ [b], stopped⟩ ∧
      closed ++ [b] = (if s.open = some kind then blocks else blocks ++ [freshBlock kind]) ∧
      closed.length = (ensureBlock s kind).2.nextIndex ∧ b.kind = some kind ∧
      (ensureBlock s kind).2.open = some kind := by
  simp only [ensureBlock, ensureStarted_open]
  split_ifs with hOpen
  · have hHolds := h
    simp only [Holds, hOpen] at hHolds
    obtain ⟨closed, b, rfl, hLength, hKind⟩ := hHolds
    exact ⟨closed, b, by simp, rfl, by simpa using hLength, hKind, by simpa using hOpen⟩
  · refine ⟨blocks, freshBlock kind, ?_, rfl, ?_, ?_, rfl⟩
    · simp [List.foldl_append, startBlock_opening]
    · simpa using h.ensureStarted.closeOpen
    · cases kind <;> rfl

/-- A delta lands on the last block. -/
theorem read_writeDelta {s : EmitState} {blocks : List Block} (h : Holds s blocks)
    (kind : BlockKind) (delta : Value) (stopped : Bool) :
    ∃ closed b, (writeDelta s kind delta).1.foldl Reader.readFrame ⟨blocks, stopped⟩ =
        ⟨closed ++ [b.extend delta], stopped⟩ ∧
      closed ++ [b] = (if s.open = some kind then blocks else blocks ++ [freshBlock kind]) ∧
      closed.length = (writeDelta s kind delta).2.nextIndex ∧ b.kind = some kind ∧
      (writeDelta s kind delta).2.open = some kind := by
  obtain ⟨closed, b, hRead, hBlocks, hLength, hKind, hOpen⟩ := read_ensureBlock h kind stopped
  refine ⟨closed, b, ?_, hBlocks, hLength, hKind, hOpen⟩
  simp only [writeDelta, List.foldl_append, hRead, List.foldl_cons, List.foldl_nil,
    readFrame_deltaFrame, ← hLength, modify_concat]

theorem reading_concat (blocks : List Block) (b : Block) :
    reading (blocks ++ [b]) = ⟨(reading blocks).text ++ b.textOf,
      (reading blocks).thinking ++ b.thinkingOf, (reading blocks).calls ++ b.callOf⟩ := by
  simp [reading]

theorem Block.extend_kind (delta : Value) (b : Block) : (b.extend delta).kind = b.kind := by
  cases b <;> simp only [Block.extend] <;> split_ifs <;> rfl

/-- A delta of a kind leaves the client holding what the encoder holds, with
the last block extended. Before it, the client's reading was the same, but for
the call that a fragment outside a call opens. -/
theorem writeDelta_holds {s : EmitState} {blocks : List Block} (h : Holds s blocks)
    (kind : BlockKind) (delta : Value) (stopped : Bool) :
    ∃ closed b, (writeDelta s kind delta).1.foldl Reader.readFrame ⟨blocks, stopped⟩ =
        ⟨closed ++ [b.extend delta], stopped⟩ ∧
      Holds (writeDelta s kind delta).2 (closed ++ [b.extend delta]) ∧
      (writeDelta s kind delta).2.open = some kind ∧ b.kind = some kind ∧
      reading (closed ++ [b]) =
        if s.open = some kind then reading blocks else reading (blocks ++ [freshBlock kind]) := by
  obtain ⟨closed, b, hRead, hBlocks, hLength, hKind, hOpen⟩ := read_writeDelta h kind delta stopped
  refine ⟨closed, b, hRead, ?_, hOpen, hKind, ?_⟩
  · simp only [Holds, hOpen]
    exact ⟨closed, b.extend delta, rfl, hLength, (Block.extend_kind delta b).trans hKind⟩
  · rw [hBlocks]
    split_ifs <;> rfl

/-- One event: what the client reads, and whether a call is open after it. -/
theorem encodeEvent_reading {s : EmitState} {blocks : List Block} (h : Holds s blocks)
    (stopped : Bool) (e : StreamEvent) :
    ∃ blocks' stopped', (encodeEvent s e).1.foldl Reader.readFrame ⟨blocks, stopped⟩ =
        ⟨blocks', stopped'⟩ ∧ Holds (encodeEvent s e).2 blocks' ∧
      reading blocks' = stepReading (s.open = some .tool) (reading blocks) e ∧
      decide ((encodeEvent s e).2.open = some .tool) =
        callOpenAfter (s.open = some .tool) e := by
  cases e with
  | messageStart model =>
      refine ⟨blocks, stopped, ?_, h, by simp [stepReading, StreamEvent.textOf,
        StreamEvent.thinkingOf], rfl⟩
      simp [encodeEvent, emitMessageStart, Reader.readFrame, Frame.named, Reader.read]
  | textDelta text =>
      obtain ⟨closed, b, hRead, hHolds, hOpen, hKind, hReading⟩ := writeDelta_holds h .text
        (obj [("type", .string "text_delta".toList), ("text", .string text)]) stopped
      have hAfter : (encodeEvent s (.textDelta text)).2.open = some .text := hOpen
      refine ⟨_, stopped, hRead, hHolds, ?_, by rw [hAfter]; rfl⟩
      have hSame : reading (closed ++ [b]) = reading blocks := by
        rw [hReading]
        split_ifs
        · rfl
        · simp [reading_concat, freshBlock, Block.textOf, Block.thinkingOf, Block.callOf]
      cases b with
      | text t =>
          rw [← hSame]
          simp [reading_concat, stepReading, Block.extend, Block.textOf, Block.thinkingOf,
            Block.callOf, StreamEvent.textOf, StreamEvent.thinkingOf]
      | _ => simp [Block.kind] at hKind
  | thinkingDelta text =>
      obtain ⟨closed, b, hRead, hHolds, hOpen, hKind, hReading⟩ := writeDelta_holds h .thinking
        (obj [("type", .string "thinking_delta".toList), ("thinking", .string text)]) stopped
      have hAfter : (encodeEvent s (.thinkingDelta text)).2.open = some .thinking := hOpen
      refine ⟨_, stopped, hRead, hHolds, ?_, by rw [hAfter]; rfl⟩
      have hSame : reading (closed ++ [b]) = reading blocks := by
        rw [hReading]
        split_ifs
        · rfl
        · simp [reading_concat, freshBlock, Block.textOf, Block.thinkingOf, Block.callOf]
      cases b with
      | thinking t signature =>
          rw [← hSame]
          simp [reading_concat, stepReading, Block.extend, Block.textOf, Block.thinkingOf,
            Block.callOf, StreamEvent.textOf, StreamEvent.thinkingOf]
      | _ => simp [Block.kind] at hKind
  | toolUseStart id name =>
      refine ⟨blocks ++ [.toolUse id name []], stopped, ?_, ?_, ?_, by
        simp [encodeEvent, callOpenAfter]⟩
      · simp [encodeEvent, List.foldl_append, startBlock]
      · simp only [Holds, encodeEvent]
        exact ⟨blocks, _, rfl, by simpa using h.ensureStarted.closeOpen, rfl⟩
      · simp [reading_concat, stepReading, Block.textOf, Block.thinkingOf, Block.callOf,
          StreamEvent.textOf, StreamEvent.thinkingOf]
  | toolUseDelta fragment =>
      obtain ⟨closed, b, hRead, hHolds, hOpen, hKind, hReading⟩ := writeDelta_holds h .tool
        (obj [("type", .string "input_json_delta".toList), ("partial_json", .string fragment)])
        stopped
      have hAfter : (encodeEvent s (.toolUseDelta fragment)).2.open = some .tool := hOpen
      refine ⟨_, stopped, hRead, hHolds, ?_, by rw [hAfter]; rfl⟩
      cases b with
      | toolUse id name json =>
          have hExtend : reading (closed ++ [(Block.toolUse id name json).extend (obj
                [("type", .string "input_json_delta".toList), ("partial_json", .string fragment)])]) =
              stepReading true (reading (closed ++ [.toolUse id name json]))
                (.toolUseDelta fragment) := by
            simp [reading_concat, stepReading, Block.extend, Block.textOf, Block.thinkingOf,
              Block.callOf, StreamEvent.textOf, StreamEvent.thinkingOf,
              extendLast_concat]
          rw [hExtend, hReading]
          split_ifs with hTool
          · simp [hTool]
          · simp [hTool, stepReading, reading_concat, freshBlock, Block.textOf, Block.thinkingOf,
              Block.callOf, extendLast_concat, StreamEvent.textOf, StreamEvent.thinkingOf]
      | _ => simp [Block.kind] at hKind
  | usageDelta usage =>
      refine ⟨blocks, stopped, rfl, h, by simp [stepReading, StreamEvent.textOf,
        StreamEvent.thinkingOf], rfl⟩
  | done reason =>
      refine ⟨blocks, true, ?_, ?_, by simp [stepReading, StreamEvent.textOf,
        StreamEvent.thinkingOf], by simp [encodeEvent, callOpenAfter]⟩
      · simp [encodeEvent, List.foldl_append, Reader.readFrame, Frame.named, Reader.read]
      · simpa [Holds, encodeEvent] using h.ensureStarted.closeOpen

end Anthropic

theorem Anthropic.encodeSse_reading {s : Anthropic.EmitState} {blocks : List Anthropic.Block}
    (h : Anthropic.Holds s blocks) (stopped : Bool) (es : List StreamEvent) :
    Anthropic.reading ((Anthropic.encodeSse es s).1.foldl Anthropic.Reader.readFrame
        ⟨blocks, stopped⟩).blocks =
      stepReadings (s.open = some .tool) (Anthropic.reading blocks) es := by
  induction es generalizing s blocks stopped with
  | nil => rfl
  | cons e es ih =>
      obtain ⟨blocks', stopped', hRead, hHolds, hReading, hOpen⟩ :=
        Anthropic.encodeEvent_reading h stopped e
      rw [Anthropic.encodeSse, Transducer.run_cons, List.foldl_append, hRead,
        ← Anthropic.encodeSse, ih hHolds, hReading, hOpen, stepReadings]

end Gateway.Wire
