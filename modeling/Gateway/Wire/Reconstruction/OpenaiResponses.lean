import Gateway.Wire.Reconstruction.Step

/-! What a Responses client reads from the encoder's frames, as long as no fragment
is a stray one. -/
namespace Gateway.Wire

open Json

namespace OpenaiResponses

/-- The client's table has the output index of every call so far, and the open
call last. -/
structure Indexed (s : EmitState) (r : Reader) : Prop where
  bound : ∀ i ∈ r.table.map Prod.fst, i < s.nextIndex
  distinct : (r.table.map Prod.fst).Nodup
  latest : ∀ id index callId name args, s.open = some (.tool id index callId name args) →
    (r.table.map Prod.fst).getLast? = some index

/-- The events that change what a client has read. -/
def readKinds : List String :=
  ["response.output_text.delta", "response.reasoning_text.delta", "response.output_item.added",
    "response.function_call_arguments.delta"]

theorem read_writeEvent (name : String) (data : List (String × Value)) (r : Reader)
    (s : EmitState) : (writeEvent s name data).1.foldl Reader.readFrame r =
      r.read name (obj (("type", .string name.toList) :: data ++
        [("sequence_number", .nat s.seq)])) := rfl

theorem read_writeEvent_other {name : String} (other : name ∉ readKinds)
    (data : List (String × Value)) (r : Reader) (s : EmitState) :
    (writeEvent s name data).1.foldl Reader.readFrame r = r := by
  simp only [readKinds, List.mem_cons, List.not_mem_nil, or_false, not_or] at other
  simp only [read_writeEvent, Reader.read, other, if_false]

/-- Events that only frame the answer. -/
def Framing (events : List (String × List (String × Value))) : Prop :=
  ∀ name ∈ events.map Prod.fst, name ∉ readKinds

theorem read_writeEvents {events : List (String × List (String × Value))}
    (h : Framing events) (r : Reader) (s : EmitState) :
    (writeEvents s events).1.foldl Reader.readFrame r = r := by
  induction events generalizing s with
  | nil => rfl
  | cons e es ih =>
      rw [writeEvents, Transducer.run_cons, List.foldl_append,
        read_writeEvent_other (h e.1 (by simp))]
      exact ih (fun name hName => h name (by simp [hName])) _

theorem OpenItem.closing_framing (item : OpenItem) (data : List (String × Value)) :
    Framing (item.closing ++ [("response.output_item.done", data)]) := by
  unfold Framing
  cases item <;> simp only [closing, List.cons_append, List.nil_append, List.map_cons,
    List.map_nil] <;> decide

@[simp] theorem read_closeOpen (r : Reader) (s : EmitState) :
    (closeOpen s).1.foldl Reader.readFrame r = r := by
  unfold closeOpen
  cases s.open with
  | none => rfl
  | some item => exact read_writeEvents (item.closing_framing _) r _

/-- The opening of an item that is no call. -/
theorem read_opening {item : Value} (noCall : optStr item "type" ≠ some "function_call".toList)
    {name : String} (other : name ∉ readKinds) (data : List (String × Value)) (index : Nat)
    (r : Reader) (s : EmitState) :
    (writeEvents s [("response.output_item.added", [("output_index", .nat index), ("item", item)]),
      (name, data)]).1.foldl Reader.readFrame r = r := by
  have hItem : (obj (("type", .string "response.output_item.added".toList) ::
      [("output_index", .nat index), ("item", item)] ++
      [("sequence_number", .nat s.seq)])).get "item" = some item := by simp
  simp only [writeEvents, Transducer.run_cons, Transducer.run_nil, List.append_nil,
    List.foldl_append, read_writeEvent_other other]
  rw [read_writeEvent, Reader.read, if_neg (by decide), if_neg (by decide), if_pos rfl, hItem]
  exact if_neg noCall

theorem ensureMessage_spec (r : Reader) (s : EmitState) :
    (ensureMessage s).1.foldl Reader.readFrame r = r ∧ s.nextIndex ≤ (ensureMessage s).2.nextIndex ∧
      ∃ id index acc, (ensureMessage s).2.open = some (.message id index acc) := by
  unfold ensureMessage
  split
  · next id index acc hOpen => exact ⟨rfl, le_rfl, id, index, acc, hOpen⟩
  · simp only [List.foldl_append, read_closeOpen, closeOpen_nextIndex, writeEvents_nextIndex]
    refine ⟨read_opening ?_ (by decide) _ _ r _, Nat.le_succ _, _, _, _, rfl⟩
    simp

theorem ensureReasoning_spec (r : Reader) (s : EmitState) :
    (ensureReasoning s).1.foldl Reader.readFrame r = r ∧
      s.nextIndex ≤ (ensureReasoning s).2.nextIndex ∧
      ∃ id index acc, (ensureReasoning s).2.open = some (.reasoning id index acc) := by
  unfold ensureReasoning
  split
  · next id index acc hOpen => exact ⟨rfl, le_rfl, id, index, acc, hOpen⟩
  · simp only [List.foldl_append, read_closeOpen, closeOpen_nextIndex, writeEvents_nextIndex]
    refine ⟨read_opening ?_ (by decide) _ _ r _, Nat.le_succ _, _, _, _, rfl⟩
    simp

theorem read_writeCompleted (r : Reader) (s : EmitState) :
    (writeCompleted s).1.foldl Reader.readFrame r = r :=
  read_writeEvent_other (by decide) _ r s

@[simp] theorem read_finish (r : Reader) (s : EmitState) :
    s.finish.1.foldl Reader.readFrame r = r := by
  unfold EmitState.finish
  split_ifs
  · exact read_writeCompleted r _
  · rfl

/-- A fragment under the open call's index extends the latest call. -/
theorem Indexed.extend {s : EmitState} {r : Reader} (h : Indexed s r) {id callId name args : Str}
    {index : Nat} (hOpen : s.open = some (.tool id index callId name args)) (fragment : Str) :
    (gather r.table ⟨index, [], [], fragment⟩).map Prod.snd =
        extendLast fragment (r.table.map Prod.snd) ∧
      (gather r.table ⟨index, [], [], fragment⟩).map Prod.fst = r.table.map Prod.fst ∧
      index ∈ r.table.map Prod.fst := by
  have hLast := h.latest id index callId name args hOpen
  have hSeen : index ∈ r.table.map Prod.fst := List.mem_of_getLast? hLast
  refine ⟨?_, ?_, hSeen⟩
  · rw [← collect_of_mine (f := ⟨index, [], [], fragment⟩) rfl (Or.inr hLast) h.distinct hSeen]
    rfl
  · rw [gather_keys, if_pos hSeen]

/-- Whether the open item is a call. -/
def EmitState.inCall (s : EmitState) : Bool :=
  match s.open with
  | some (.tool ..) => true
  | _ => false

/-- Steps that keep the table and leave no call open. -/
theorem Indexed.of_closed {s s' : EmitState} {r r' : Reader} (h : Indexed s r)
    (hTable : r'.table = r.table) (hNext : s.nextIndex ≤ s'.nextIndex)
    (hOpen : s'.inCall = false) : Indexed s' r' := by
  refine ⟨?_, by rw [hTable]; exact h.distinct, ?_⟩
  · rw [hTable]
    exact fun i hi => lt_of_lt_of_le (h.bound i hi) hNext
  · intro id index callId name args hTool
    simp [EmitState.inCall, hTool] at hOpen

/-- Steps that keep the table and the open item. -/
theorem Indexed.of_same {s s' : EmitState} {r : Reader} (h : Indexed s r)
    (hNext : s'.nextIndex = s.nextIndex) (hOpen : s'.open = s.open) : Indexed s' r :=
  ⟨by rw [hNext]; exact h.bound, h.distinct, by rw [hOpen]; exact h.latest⟩

/-- One event that is no stray fragment. -/
theorem encodeEvent_reading {s : EmitState} {r : Reader} (h : Indexed s r) {e : StreamEvent}
    (hStray : isStray s.inCall e = false) :
    Indexed (encodeEvent s e).2 ((encodeEvent s e).1.foldl Reader.readFrame r) ∧
      ((encodeEvent s e).1.foldl Reader.readFrame r).reading = stepReading s.inCall r.reading e ∧
      (encodeEvent s e).2.inCall = callOpenAfter s.inCall e := by
  cases e with
  | messageStart model =>
      have hRead : (encodeEvent s (.messageStart model)).1.foldl Reader.readFrame r = r := by
        exact read_writeEvents (by unfold Framing; simp only [List.map_cons, List.map_nil]; decide) r _
      rw [hRead]
      exact ⟨h.of_same rfl rfl, by simp [stepReading, StreamEvent.textOf, StreamEvent.thinkingOf],
        rfl⟩
  | textDelta text =>
      obtain ⟨hReady, hNext, id, index, acc, hOpen⟩ := ensureMessage_spec r s
      have hRead : (encodeEvent s (.textDelta text)).1.foldl Reader.readFrame r =
          { r with text := r.text ++ text } := by
        simp [encodeEvent, hOpen, List.foldl_append, hReady, writeEvent, Reader.readFrame,
          Frame.named, Reader.read]
      have hAfter : (encodeEvent s (.textDelta text)).2.inCall = false := by
        simp [encodeEvent, hOpen, writeEvent, EmitState.inCall]
      rw [hRead]
      refine ⟨h.of_closed rfl ?_ hAfter, by simp [stepReading, Reader.reading, StreamEvent.textOf,
        StreamEvent.thinkingOf], hAfter⟩
      simpa [encodeEvent, hOpen, writeEvent] using hNext
  | thinkingDelta text =>
      obtain ⟨hReady, hNext, id, index, acc, hOpen⟩ := ensureReasoning_spec r s
      have hRead : (encodeEvent s (.thinkingDelta text)).1.foldl Reader.readFrame r =
          { r with thinking := r.thinking ++ text } := by
        simp [encodeEvent, hOpen, List.foldl_append, hReady, writeEvent, Reader.readFrame,
          Frame.named, Reader.read]
      have hAfter : (encodeEvent s (.thinkingDelta text)).2.inCall = false := by
        simp [encodeEvent, hOpen, writeEvent, EmitState.inCall]
      rw [hRead]
      refine ⟨h.of_closed rfl ?_ hAfter, by simp [stepReading, Reader.reading, StreamEvent.textOf,
        StreamEvent.thinkingOf], hAfter⟩
      simpa [encodeEvent, hOpen, writeEvent] using hNext
  | toolUseStart id name =>
      have hRead : (encodeEvent s (.toolUseStart id name)).1.foldl Reader.readFrame r =
          { r with table := r.table ++ [(s.nextIndex, ⟨id, name, []⟩)] } := by
        simp [encodeEvent, List.foldl_append, writeEvent, Reader.readFrame, Frame.named,
          Reader.read]
      rw [hRead]
      refine ⟨⟨?_, ?_, ?_⟩, by simp [stepReading, Reader.reading, StreamEvent.textOf,
        StreamEvent.thinkingOf], by simp [encodeEvent, writeEvent, EmitState.inCall,
          callOpenAfter]⟩
      · simp only [encodeEvent, writeEvent, closeOpen_nextIndex, List.map_append, List.mem_append,
          List.map_singleton, List.mem_singleton]
        rintro i (hi | rfl)
        · exact Nat.lt_succ_of_lt (h.bound i hi)
        · exact Nat.lt_succ_self _
      · simp only [List.map_append, List.map_singleton]
        refine List.nodup_append.mpr ⟨h.distinct, by simp, ?_⟩
        rintro i hi _ hj rfl
        exact lt_irrefl _ (List.mem_singleton.mp hj ▸ h.bound i hi)
      · intro id' index callId name' args hTool
        simp only [encodeEvent, writeEvent, closeOpen_nextIndex, Option.some.injEq,
          OpenItem.tool.injEq] at hTool
        simp [hTool.2.1]
  | toolUseDelta fragment =>
      have hCall : s.inCall = true := by simpa [isStray] using hStray
      obtain ⟨id, index, callId, name, args, hOpen⟩ : ∃ id index callId name args,
          s.open = some (.tool id index callId name args) := by
        unfold EmitState.inCall at hCall
        split at hCall
        · next id index callId name args hOpen => exact ⟨id, index, callId, name, args, hOpen⟩
        · cases hCall
      obtain ⟨hCalls, hKeys, hSeen⟩ := h.extend hOpen fragment
      have hRead : (encodeEvent s (.toolUseDelta fragment)).1.foldl Reader.readFrame r =
          { r with table := gather r.table ⟨index, [], [], fragment⟩ } := by
        simp [encodeEvent, hOpen, read_writeEvent, Reader.read, gather, hSeen]
      have hAfter : (encodeEvent s (.toolUseDelta fragment)).2.open =
          some (.tool id index callId name (args ++ fragment)) := by
        simp only [encodeEvent, hOpen, writeEvent_open]
      have hNext : (encodeEvent s (.toolUseDelta fragment)).2.nextIndex = s.nextIndex := by
        simp only [encodeEvent, hOpen, writeEvent_nextIndex]
      rw [hRead]
      refine ⟨⟨?_, ?_, ?_⟩, ?_, by simp [EmitState.inCall, hAfter, callOpenAfter]⟩
      · simpa only [hKeys, hNext] using h.bound
      · simpa only [hKeys] using h.distinct
      · intro id' index' callId' name' args' hTool
        rw [hAfter, Option.some.injEq, OpenItem.tool.injEq] at hTool
        simp only [hKeys, ← hTool.2.1]
        exact h.latest id index callId name args hOpen
      · simp [stepReading, Reader.reading, hCalls, hCall, StreamEvent.textOf,
          StreamEvent.thinkingOf]
  | usageDelta usage =>
      have hRead : (encodeEvent s (.usageDelta usage)).1.foldl Reader.readFrame r = r := by
        simp [encodeEvent]
      rw [hRead]
      exact ⟨h.of_same (by simp [encodeEvent]) (by simp [encodeEvent]),
        by simp [stepReading, StreamEvent.textOf, StreamEvent.thinkingOf],
        by simp [encodeEvent, EmitState.inCall, callOpenAfter]⟩
  | done reason =>
      have hRead : (encodeEvent s (.done reason)).1.foldl Reader.readFrame r = r := by
        simp only [encodeEvent]
        split
        · simp [List.foldl_append, writeCompleted, writeEvent, Reader.readFrame, Frame.named,
            Reader.read]
        · simp
      have hOpen : (encodeEvent s (.done reason)).2.open = none := by
        simp only [encodeEvent]
        split
        · simp [writeCompleted, writeEvent]
        · simp
      have hNext : (encodeEvent s (.done reason)).2.nextIndex = s.nextIndex := by
        simp only [encodeEvent]
        split
        · simp [writeCompleted, writeEvent]
        · simp
      have hAfter : (encodeEvent s (.done reason)).2.inCall = false := by
        simp [EmitState.inCall, hOpen]
      rw [hRead]
      exact ⟨h.of_closed rfl hNext.ge hAfter,
        by simp [stepReading, StreamEvent.textOf, StreamEvent.thinkingOf], hAfter⟩

theorem encodeSse_reading {s : EmitState} {r : Reader} (h : Indexed s r) {es : List StreamEvent}
    (hEvents : Uninterrupted s.inCall es) :
    ((encodeSse es s).1.foldl Reader.readFrame r).reading =
      stepReadings s.inCall r.reading es := by
  induction es generalizing s r with
  | nil => rfl
  | cons e es ih =>
      obtain ⟨hIndexed, hReading, hOpen⟩ := encodeEvent_reading h hEvents.1
      rw [encodeSse, Transducer.run_cons, List.foldl_append, ← encodeSse,
        ih hIndexed (hOpen ▸ hEvents.2), hReading, hOpen, stepReadings]

end OpenaiResponses

end Gateway.Wire
