import Gateway.Service.Relay
import Gateway.Service.Terminal

/-! The usage that a relayed turn is recorded with. The relay records as soon as
it takes the answer for ended, so reports that come later are not in it. -/
namespace Gateway.Service

open Json Wire

/-! ### The events of a body -/

/-- The events of batches of lines. -/
def Decoder.decodeBatches (d : Decoder) : List (List (List UInt8)) → List (List StreamEvent)
  | [] => []
  | lines :: rest => (d.decodeLines lines).1 :: (d.decodeLines lines).2.decodeBatches rest

theorem Decoder.decodeBatches_flatten (d : Decoder) (batches : List (List (List UInt8))) :
    (d.decodeBatches batches).flatten = (d.decodeLines batches.flatten).1 := by
  induction batches generalizing d with
  | nil => rfl
  | cons lines rest ih =>
      simp only [decodeBatches, List.flatten_cons, ih, decodeLines, Transducer.run_append]

/-- The events of a whole body. -/
def bodyEvents (upstream : WireFormat) (body : List UInt8) : List StreamEvent :=
  ((Decoder.new upstream).decodeLines (Text.allLines 0x0a body)).1

/-- The events that each chunk completes, and last those of a line that the end
of the body cuts off. -/
def batchesFrom (buf : List UInt8) (d : Decoder) (chunks : List (List UInt8)) :
    List (List StreamEvent) :=
  let (lines, rest) := Text.feedPieces 0x0a buf chunks
  d.decodeBatches (lines ++ [cutLine rest])

theorem batchesFrom_flatten (upstream : WireFormat) (chunks : List (List UInt8)) :
    (batchesFrom [] (Decoder.new upstream) chunks).flatten = bodyEvents upstream chunks.flatten := by
  have hFeed := Text.feedPieces_flatten (0x0a : UInt8) [] chunks rfl
  rw [List.nil_append] at hFeed
  simp only [batchesFrom, bodyEvents, Text.allLines, Decoder.decodeBatches_flatten, hFeed,
    List.flatten_append, List.flatten_singleton, cutLine]

theorem foldl_noteUsage (u : Usage) (events : List StreamEvent) :
    events.foldl noteUsage u = u ⊔ usageOf events := by
  have hNote : noteUsage = fun u (e : StreamEvent) => u ⊔ e.usageOf := by
    funext u e
    cases e <;> simp [noteUsage, StreamEvent.usageOf, Usage.default_eq_bot, Usage.merge_eq_sup]
  rw [hNote, foldl_usageOf]

/-! ### Folding -/

theorem Fold.foldl_chunk (f : Fold) (chunks : List (List UInt8)) :
    (chunks.foldl Fold.chunk f).flush.agg =
      f.agg.pushAll (batchesFrom f.buf f.decoder chunks).flatten := by
  induction chunks generalizing f with
  | nil => simp [Fold.flush, batchesFrom, Text.feedPieces, Decoder.decodeBatches]
  | cons chunk rest ih =>
      rw [List.foldl_cons, ih]
      simp only [Fold.chunk, ← Aggregator.pushAll_append]
      rfl

/-- A buffered turn is recorded with every report of the body, however it was
cut. -/
theorem aggregateStream_usage (upstream : WireFormat) (requestId : Str)
    (echo : Option Str × Option Str) (chunks : List (List UInt8)) :
    (aggregateStream upstream requestId echo chunks).usage =
      usageOf (bodyEvents upstream chunks.flatten) := by
  simp only [aggregateStream, applyCacheEcho, Aggregator.intoResponse, Fold.foldl_chunk,
    batchesFrom_flatten, Aggregator.pushAll_usage]
  rfl

/-! ### Relaying -/

/-- Whether a batch is taken for the end of the answer: it ends the answer, or
has a string that reads like the end. -/
def Encoder.Closes (enc : Encoder) (batch : List StreamEvent) : Prop :=
  enc.ends batch = true ∨ ∃ t ∈ enc.carried batch, Mistakable enc.surface t

instance (surface : WireFormat) : DecidablePred (Mistakable surface) := fun s => by
  cases surface <;> unfold Mistakable <;> infer_instance

instance (enc : Encoder) (batch : List StreamEvent) : Decidable (enc.Closes batch) := by
  unfold Encoder.Closes
  infer_instance

/-- The events up to the first batch that is taken for the end, with that batch,
and the events after it. -/
def Encoder.cut (enc : Encoder) : List (List StreamEvent) → List StreamEvent × List StreamEvent
  | [] => ([], [])
  | batch :: rest =>
      if enc.Closes batch then (batch, rest.flatten)
      else
        let (seen, later) := (enc.encode batch).2.cut rest
        (batch ++ seen, later)

theorem Encoder.cut_append (enc : Encoder) (batches : List (List StreamEvent)) :
    (enc.cut batches).1 ++ (enc.cut batches).2 = batches.flatten := by
  induction batches generalizing enc with
  | nil => rfl
  | cons batch rest ih =>
      unfold Encoder.cut
      split_ifs
      · rfl
      · simp [ih]

theorem frames_nil_of_bytes_nil {frames : List Frame} (h : frameBytes frames = []) :
    frames = [] := by
  have hText : framesText frames = [] := by
    rw [← Text.fromUtf8Lossy_toUtf8 (framesText frames), ← frameBytes, h]
    rfl
  cases frames with
  | nil => rfl
  | cons f rest => simp [framesText, Frame.text] at hText

theorem Encoder.not_closes_of_bytes_nil {enc : Encoder} {batch : List StreamEvent}
    (h : frameBytes (enc.encode batch).1 = []) : ¬ enc.Closes batch := by
  have hFrames := frames_nil_of_bytes_nil h
  rw [Encoder.Closes, ← Encoder.endsStream_iff]
  cases enc with
  | gemini s =>
      have hTerminal := Encoder.any_isTerminal (.gemini s) batch
      rw [hFrames] at hTerminal
      simp only [endsStream, endMarker, Encoder.surface, Bool.not_eq_true]
      exact hTerminal.symm
  | _ => simp +decide [h, endsStream, endMarker, Encoder.surface, Text.fromUtf8Lossy]

/-- A recorded relay gives nothing more. -/
theorem StreamState.drive_afterRecord (st : StreamState) (items : List Item) :
    st.afterRecord.drive items = ([], []) := by
  cases items <;> rfl

/-- What a chunk, its events and their bytes leave for the next chunk. -/
structure StreamState.Follows (st st' : StreamState) (bytes : List UInt8) : Prop where
  buf : st'.buf = (takeLines (st.buf ++ bytes)).2
  decoder : st'.decoder = (st.decoder.decodeLines (takeLines (st.buf ++ bytes)).1).2
  encoder : st'.encoder = (st.encoder.encode (st.readChunk bytes).1).2
  usage : st'.usage = st.usage ⊔ usageOf (st.readChunk bytes).1
  done : st'.done = st.done
  recorded : st'.recorded = st.recorded

theorem StreamState.follows_write (st : StreamState) (bytes : List UInt8) :
    st.Follows ((st.readChunk bytes).2.write (st.readChunk bytes).1).2 bytes :=
  ⟨rfl, rfl, rfl, foldl_noteUsage _ _, rfl, rfl⟩

theorem StreamState.follows_readChunk {st : StreamState} {bytes : List UInt8}
    (hNil : (st.readChunk bytes).1 = []) : st.Follows (st.readChunk bytes).2 bytes where
  buf := rfl
  decoder := rfl
  encoder := by
    rw [hNil, Encoder.encode_nil]
    rfl
  usage := foldl_noteUsage _ _
  done := rfl
  recorded := rfl

/-- A chunk whose batch is taken for the end is recorded with, and any other
leaves the relay going. Either way the client gets the batch. -/
theorem StreamState.receive_chunk (st : StreamState) (hNew : st.recorded = false)
    (bytes : List UInt8) :
    (st.encoder.Closes (st.readChunk bytes).1 ∧ ∃ turn st',
      st.receive (.chunk bytes) =
          .record turn (some (st.encoder.encode (st.readChunk bytes).1).1) st' ∧
        turn.usage = st.usage ⊔ usageOf (st.readChunk bytes).1) ∨
    (¬ st.encoder.Closes (st.readChunk bytes).1 ∧ ∃ st', st.Follows st' bytes ∧
      (st.receive (.chunk bytes) = .more st' ∧ (st.encoder.encode (st.readChunk bytes).1).1 = [] ∨
        st.receive (.chunk bytes) = .yield (st.encoder.encode (st.readChunk bytes).1).1 st')) := by
  have hUsage : ((st.readChunk bytes).2.write (st.readChunk bytes).1).2.usage =
      st.usage ⊔ usageOf (st.readChunk bytes).1 := (st.follows_write bytes).usage
  have hClosing := st.encoder.endsStream_iff (st.readChunk bytes).1
  have hWritten : ((st.readChunk bytes).2.write (st.readChunk bytes).1).1 =
      (st.encoder.encode (st.readChunk bytes).1).1 := rfl
  by_cases hEmpty : (st.readChunk bytes).1 = []
  · have hNone : st.encoder.encode (st.readChunk bytes).1 = ([], st.encoder) := by
      rw [hEmpty, Encoder.encode_nil]
    refine Or.inr ⟨Encoder.not_closes_of_bytes_nil (by rw [hNone]; rfl),
      _, follows_readChunk hEmpty, Or.inl ⟨?_, by rw [hNone]⟩⟩
    simp [StreamState.receive, hEmpty]
  by_cases hBytes : frameBytes (st.encoder.encode (st.readChunk bytes).1).1 = []
  · refine Or.inr ⟨Encoder.not_closes_of_bytes_nil hBytes, _, st.follows_write bytes,
      Or.inl ⟨?_, frames_nil_of_bytes_nil hBytes⟩⟩
    simp [StreamState.receive, hEmpty, hWritten, hBytes]
  have hStill : ((st.readChunk bytes).2.write (st.readChunk bytes).1).2.recorded = false := hNew
  have hSurface : ((st.readChunk bytes).2.write (st.readChunk bytes).1).2.encoder.surface =
      st.encoder.surface := Encoder.encode_surface _ _
  by_cases hEnds : endsStream st.encoder.surface
      (frameBytes (st.encoder.encode (st.readChunk bytes).1).1) (st.readChunk bytes).1 = true
  · refine Or.inl ⟨hClosing.mp hEnds, ?_⟩
    simp only [StreamState.receive, List.isEmpty_iff, hEmpty, hWritten, hBytes, hStill, hSurface,
      hEnds]
    exact ⟨_, _, rfl, hUsage⟩
  · refine Or.inr ⟨fun h => hEnds (hClosing.mpr h), _, st.follows_write bytes, Or.inr ?_⟩
    simp only [StreamState.receive, List.isEmpty_iff, hEmpty, hWritten, hBytes, hStill, hSurface,
      hEnds]
    rfl

theorem StreamState.receive_ended (st : StreamState) :
    ∃ turn st' more, st.receive .ended = .record turn
        (some ((st.encoder.encode (st.decoder.decodeLines (cutLine st.buf)).1).1 ++ more)) st' ∧
      more = (st.encoder.encode (st.decoder.decodeLines (cutLine st.buf)).1).2.finish.1 ∧
      turn.usage = st.usage ⊔ usageOf (st.decoder.decodeLines (cutLine st.buf)).1 :=
  ⟨_, _, _, rfl, rfl, foldl_noteUsage _ _⟩

theorem Encoder.cut_batchesFrom_nil (enc : Encoder) (buf : List UInt8) (d : Decoder) :
    (enc.cut (batchesFrom buf d [])).1 = (d.decodeLines (cutLine buf)).1 := by
  simp only [batchesFrom, Text.feedPieces, List.nil_append, Decoder.decodeBatches, Encoder.cut]
  split_ifs <;> simp

/-- The relay records once, with the reports up to the batch it takes for the
end. -/
theorem StreamState.drive_usage (st : StreamState) (hOpen : st.done = false)
    (hNew : st.recorded = false) (chunks : List (List UInt8)) :
    (st.drive (delivered chunks)).1.map Turn.usage =
      [st.usage ⊔ usageOf (st.encoder.cut (batchesFrom st.buf st.decoder chunks)).1] := by
  induction chunks generalizing st with
  | nil =>
      obtain ⟨turn, st', more, hReceive, -, hUsage⟩ := st.receive_ended
      rw [Encoder.cut_batchesFrom_nil, ← hUsage]
      simp [delivered, StreamState.drive, hOpen, hReceive]
  | cons chunk rest ih =>
      have hBatches : batchesFrom st.buf st.decoder (chunk :: rest) =
          (st.readChunk chunk).1 :: batchesFrom (takeLines (st.buf ++ chunk)).2
            (st.decoder.decodeLines (takeLines (st.buf ++ chunk)).1).2 rest := rfl
      have hDelivered : delivered (chunk :: rest) = .chunk chunk :: delivered rest := rfl
      rw [hBatches, Encoder.cut, hDelivered, StreamState.drive, if_neg (by simp [hOpen])]
      rcases st.receive_chunk hNew chunk with
        ⟨hCloses, turn, st', hReceive, hUsage⟩ | ⟨hCloses, st', hNext, hReceive⟩
      · simp [hReceive, hCloses, StreamState.drive_afterRecord, hUsage]
      · have hRest := ih st' (hNext.done.trans hOpen) (hNext.recorded.trans hNew)
        rw [hNext.buf, hNext.decoder, hNext.encoder, hNext.usage, sup_assoc, ← usageOf_append]
          at hRest
        rcases hReceive with ⟨hReceive, -⟩ | hReceive <;> simp only [hReceive, hRest, hCloses,
          if_false]

/-- The recorded usage is that of the whole body when the reports after the
batch that is taken for the end add nothing to the ones before. -/
theorem recorded_usage_eq_iff (upstream surface : WireFormat) (requestId : Str) (status : Nat)
    (echo : Option Str × Option Str) (includeUsage : Bool) (chunks : List (List UInt8)) :
    ((translateStream upstream surface requestId status echo includeUsage).drive
        (delivered chunks)).1.map Turn.usage =
        [(aggregateStream upstream requestId echo chunks).usage] ↔
      usageOf ((Encoder.forTurn surface includeUsage echo).cut
          (batchesFrom [] (Decoder.new upstream) chunks)).2 ≤
        usageOf ((Encoder.forTurn surface includeUsage echo).cut
          (batchesFrom [] (Decoder.new upstream) chunks)).1 := by
  rw [StreamState.drive_usage _ rfl rfl, aggregateStream_usage, ← batchesFrom_flatten,
    ← Encoder.cut_append (Encoder.forTurn surface includeUsage echo), usageOf_append]
  simp only [translateStream, List.cons.injEq, and_true, Usage.default_eq_bot, bot_sup_eq]
  rw [eq_comm, sup_eq_left]

/-- A report that follows the end in a later chunk is not billed. -/
theorem trailing_usage_unrecorded :
    let chunks := ["data: \x7b\"choices\":[\x7b\"finish_reason\":\"stop\"\x7d]\x7d\n",
      "data: \x7b\"choices\":[],\"usage\":\x7b\"prompt_tokens\":5,\"completion_tokens\":7\x7d\x7d\n"].map
        (fun chunk => Text.toUtf8 chunk.toList)
    ((translateStream .openaiChat .anthropic [] 200 (none, none) false).drive
        (delivered chunks)).1.map Turn.usage = [{}] ∧
      (aggregateStream .openaiChat [] (none, none) chunks).usage =
        { inputTokens := 5, outputTokens := 7 } := by
  decide +kernel

end Gateway.Service
