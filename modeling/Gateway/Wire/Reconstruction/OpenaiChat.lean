import Gateway.Wire.Reconstruction.Step
import Mathlib.Data.List.Nodup

/-! What a Chat Completions client reads from the encoder's frames, as long as no
fragment is a stray one. -/
namespace Gateway.Wire

open Json

namespace OpenaiChat

/-- The index of the n-th call of a stream. -/
def callKey (n : Nat) : Option Value := some (indexValue n)

theorem callKey_injective : Function.Injective callKey := by
  intro a b h
  simpa [callKey, indexValue] using h

/-- The client has the calls the encoder has numbered, each under its number. -/
structure Numbered (s : EmitState) (r : Reader) : Prop where
  count : s.toolIndex + 1 = r.table.length
  keys : r.table.map Prod.fst = (List.range r.table.length).map callKey

theorem Numbered.distinct {s : EmitState} {r : Reader} (h : Numbered s r) :
    (r.table.map Prod.fst).Nodup := by
  rw [h.keys]
  exact (List.nodup_map_iff callKey_injective).mpr List.nodup_range

@[simp] theorem readFrame_writeChunk (r : Reader) (s : EmitState) (delta : Value)
    (finish : Option Str) :
    r.readFrame (writeChunk s delta finish) =
      { text := r.text ++ (optStr delta "content").getD []
        thinking := r.thinking ++ (optStr delta "reasoning_content").getD []
        table := (((optArr delta "tool_calls").getD []).map callFragment).foldl gather r.table } := by
  simp [Reader.readFrame, writeChunk, envelope, Frame.data, firstChoice, valueFragments]

@[simp] theorem readFrame_writeUsageChunk (r : Reader) (s : EmitState) (u : Usage) :
    r.readFrame (writeUsageChunk s u) = r := by
  simp [Reader.readFrame, writeUsageChunk, envelope, Frame.data, firstChoice,
    valueFragments]

@[simp] theorem readFrame_sentinel (r : Reader) : r.readFrame .sentinel = r := rfl

@[simp] theorem read_ensureStarted (r : Reader) (s : EmitState) :
    (ensureStarted s).1.foldl Reader.readFrame r = r := by
  unfold ensureStarted
  split_ifs
  · rfl
  · simp

@[simp] theorem ensureStarted_toolIndex (s : EmitState) :
    (ensureStarted s).2.toolIndex = s.toolIndex := by
  unfold ensureStarted
  split_ifs <;> rfl

@[simp] theorem read_usageFrames (r : Reader) (s : EmitState) :
    (usageFrames s).foldl Reader.readFrame r = r := by
  unfold usageFrames
  split <;> simp

@[simp] theorem read_finish (r : Reader) (s : EmitState) :
    s.finish.1.foldl Reader.readFrame r = r := by
  unfold EmitState.finish
  split_ifs <;> simp [List.foldl_append]

@[simp] theorem finish_toolIndex (s : EmitState) : s.finish.2.toolIndex = s.toolIndex := by
  unfold EmitState.finish
  split_ifs <;> rfl

theorem Numbered.of_same {s s' : EmitState} {r r' : Reader} (h : Numbered s r)
    (hIndex : s'.toolIndex = s.toolIndex) (hTable : r'.table = r.table) : Numbered s' r' :=
  ⟨by rw [hIndex, hTable, h.count], by rw [hTable, h.keys]⟩

/-- A call just started goes under a new number. -/
theorem Numbered.start {s : EmitState} {r : Reader} (h : Numbered s r) (id name : Str) :
    gather r.table ⟨callKey r.table.length, id, name, []⟩ =
      r.table ++ [(callKey r.table.length, ⟨id, name, []⟩)] := by
  have hNew : callKey r.table.length ∉ r.table.map Prod.fst := by
    rw [h.keys]
    intro hMem
    obtain ⟨n, hn, hKey⟩ := List.mem_map.mp hMem
    have := callKey_injective hKey
    simp at hn
    omega
  rw [gather, if_neg hNew]

/-- A fragment under the latest number extends the latest call. -/
theorem Numbered.extend {s : EmitState} {r : Reader} (h : Numbered s r) {n : Nat}
    (hLast : r.table.length = n + 1) (fragment : Str) :
    (gather r.table ⟨callKey n, [], [], fragment⟩).map Prod.snd =
        extendLast fragment (r.table.map Prod.snd) ∧
      (gather r.table ⟨callKey n, [], [], fragment⟩).map Prod.fst = r.table.map Prod.fst := by
  have hKeys := h.keys
  rw [hLast] at hKeys
  have hSeen : callKey n ∈ r.table.map Prod.fst := by
    rw [hKeys]
    exact List.mem_map_of_mem (by simp)
  have hMine : (r.table.map Prod.fst).getLast? = some (callKey n) := by
    rw [hKeys, List.range_succ]
    simp
  refine ⟨?_, ?_⟩
  · rw [← collect_of_mine (f := ⟨callKey n, [], [], fragment⟩) rfl (Or.inr hMine) h.distinct hSeen]
    rfl
  · rw [gather_keys, if_pos hSeen]

/-- One event that is no stray fragment. -/
theorem encodeEvent_reading {s : EmitState} {r : Reader} (h : Numbered s r) {inCall : Bool}
    (hCall : inCall = true → r.table ≠ []) {e : StreamEvent} (hStray : isStray inCall e = false) :
    Numbered (encodeEvent s e).2 ((encodeEvent s e).1.foldl Reader.readFrame r) ∧
      ((encodeEvent s e).1.foldl Reader.readFrame r).reading = stepReading inCall r.reading e ∧
      (callOpenAfter inCall e = true →
        ((encodeEvent s e).1.foldl Reader.readFrame r).table ≠ []) := by
  cases e with
  | messageStart model =>
      have hRead : (encodeEvent s (.messageStart model)).1.foldl Reader.readFrame r = r := by
        simp [encodeEvent]
      rw [hRead]
      exact ⟨h.of_same rfl rfl, by simp [stepReading, StreamEvent.textOf, StreamEvent.thinkingOf],
        hCall⟩
  | textDelta text =>
      have hRead : (encodeEvent s (.textDelta text)).1.foldl Reader.readFrame r =
          { r with text := r.text ++ text } := by
        simp [encodeEvent, writeDelta, List.foldl_append]
      rw [hRead]
      exact ⟨h.of_same (by simp [encodeEvent, writeDelta]) rfl,
        by simp [stepReading, Reader.reading, StreamEvent.textOf, StreamEvent.thinkingOf],
        by simp [callOpenAfter]⟩
  | thinkingDelta text =>
      have hRead : (encodeEvent s (.thinkingDelta text)).1.foldl Reader.readFrame r =
          { r with thinking := r.thinking ++ text } := by
        simp [encodeEvent, writeDelta, List.foldl_append]
      rw [hRead]
      exact ⟨h.of_same (by simp [encodeEvent, writeDelta]) rfl,
        by simp [stepReading, Reader.reading, StreamEvent.textOf, StreamEvent.thinkingOf],
        by simp [callOpenAfter]⟩
  | toolUseStart id name =>
      have hRead : (encodeEvent s (.toolUseStart id name)).1.foldl Reader.readFrame r =
          { r with table := r.table ++ [(callKey r.table.length, ⟨id, name, []⟩)] } := by
        rw [← h.start]
        simp [encodeEvent, List.foldl_append, callFragment, h.count, callKey]
      rw [hRead]
      refine ⟨⟨?_, ?_⟩, by simp [stepReading, Reader.reading, StreamEvent.textOf,
        StreamEvent.thinkingOf], by simp⟩
      · simp [encodeEvent, h.count]
      · simp [h.keys, List.range_succ]
  | toolUseDelta fragment =>
      have hOpen : inCall = true := by simpa [isStray] using hStray
      obtain ⟨n, hLast⟩ := Nat.exists_eq_succ_of_ne_zero
        (fun hEmpty => hCall hOpen (List.eq_nil_of_length_eq_zero hEmpty))
      have hIndex : s.toolIndex = n := by
        have := h.count
        omega
      have hRead : (encodeEvent s (.toolUseDelta fragment)).1.foldl Reader.readFrame r =
          { r with table := gather r.table ⟨callKey n, [], [], fragment⟩ } := by
        simp [encodeEvent, writeDelta, List.foldl_append, callFragment, hIndex,
          callKey]
      obtain ⟨hCalls, hKeys⟩ := h.extend hLast fragment
      have hLength : (gather r.table ⟨callKey n, [], [], fragment⟩).length = r.table.length := by
        simpa using congrArg List.length hKeys
      rw [hRead]
      refine ⟨⟨?_, ?_⟩, ?_, ?_⟩
      · simp only [hLength, ← h.count, encodeEvent, writeDelta, ensureStarted_toolIndex]
      · simp only [hLength, hKeys, h.keys]
      · simp [stepReading, Reader.reading, hCalls, hOpen, StreamEvent.textOf,
          StreamEvent.thinkingOf]
      · intro _ hEmpty
        simp only at hEmpty
        rw [hEmpty, hLast] at hLength
        cases hLength
  | usageDelta usage =>
      have hRead : (encodeEvent s (.usageDelta usage)).1.foldl Reader.readFrame r = r := by
        simp [encodeEvent]
      rw [hRead]
      exact ⟨h.of_same (by simp [encodeEvent]) rfl,
        by simp [stepReading, StreamEvent.textOf, StreamEvent.thinkingOf], hCall⟩
  | done reason =>
      have hRead : (encodeEvent s (.done reason)).1.foldl Reader.readFrame r = r := by
        simp only [encodeEvent]
        split <;> simp [List.foldl_append]
      have hIndex : (encodeEvent s (.done reason)).2.toolIndex = s.toolIndex := by
        simp only [encodeEvent]
        split <;> simp
      rw [hRead]
      exact ⟨h.of_same hIndex rfl,
        by simp [stepReading, StreamEvent.textOf, StreamEvent.thinkingOf],
        by simp [callOpenAfter]⟩

theorem encodeSse_reading {s : EmitState} {r : Reader} (h : Numbered s r) {inCall : Bool}
    (hCall : inCall = true → r.table ≠ []) {es : List StreamEvent}
    (hEvents : Uninterrupted inCall es) :
    ((encodeSse es s).1.foldl Reader.readFrame r).reading = stepReadings inCall r.reading es := by
  induction es generalizing s r inCall with
  | nil => rfl
  | cons e es ih =>
      obtain ⟨hNumbered, hReading, hOpen⟩ := encodeEvent_reading h hCall hEvents.1
      rw [encodeSse, Transducer.run_cons, List.foldl_append, ← encodeSse,
        ih hNumbered hOpen hEvents.2, hReading, stepReadings]

end OpenaiChat

end Gateway.Wire
