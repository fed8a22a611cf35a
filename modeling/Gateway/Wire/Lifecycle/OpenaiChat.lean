import Gateway.Service.Terminal.OpenaiChat
import Gateway.Wire.Lifecycle.Ended

/-! The end of a Chat Completions stream: one sentinel, last, and the usage chunk
before it for a client that asked for one. -/
namespace Gateway.Wire.OpenaiChat

open Json

/-- The chunk that carries a usage report. -/
def isUsageChunk (f : Frame) : Bool :=
  match f.payload with
  | .json v => (v.get "usage").isSome
  | .done => false

/-- Neither the sentinel nor a usage chunk. -/
def Plain (f : Frame) : Prop := f.payload ≠ .done ∧ isUsageChunk f = false

/-- The frames end with the only sentinel, and have a usage chunk just when one is
due. -/
def Closed (due : Bool) (frames : List Frame) : Prop :=
  ∃ front, frames = front ++ [.sentinel] ∧ (∀ f ∈ front, f.payload ≠ .done) ∧
    front.countP isUsageChunk = due.toNat

section

variable {s : EmitState}

theorem plain_writeChunk (s : EmitState) (delta : Value) (finish : Option Str) :
    Plain (writeChunk s delta finish) := by
  refine ⟨nofun, ?_⟩
  simp [isUsageChunk, writeChunk, envelope, Frame.data]

theorem isUsageChunk_writeUsageChunk (s : EmitState) (u : Usage) :
    isUsageChunk (writeUsageChunk s u) = true := by
  simp [isUsageChunk, writeUsageChunk, envelope, Frame.data]

theorem plain_ensureStarted (s : EmitState) : ∀ f ∈ (ensureStarted s).1, Plain f := by
  unfold ensureStarted
  split
  · exact nofun
  · intro f hf
    cases List.mem_singleton.mp hf
    exact plain_writeChunk _ _ _

theorem plain_writeDelta (s : EmitState) (delta : Value) : ∀ f ∈ (writeDelta s delta).1, Plain f := by
  intro f hf
  rcases List.mem_append.mp hf with hOpening | hChunk
  · exact plain_ensureStarted s f hOpening
  · cases List.mem_singleton.mp hChunk
    exact plain_writeChunk _ _ _

theorem finish_free (hHeld : s.pendingDone = false) : s.finish = ([], s) := by
  unfold EmitState.finish
  rw [hHeld]
  rfl

theorem encodeEvent_report (hHeld : s.pendingDone = false) (usage : Usage) :
    encodeEvent s (.usageDelta usage) =
      ([], { s with usage := some ((s.usage.getD {}).merge usage) }) :=
  finish_free hHeld

/-- Before the end no frame is the sentinel, nor a usage chunk. -/
theorem plain_encodeEvent {e : StreamEvent} (hHeld : s.pendingDone = false) (hDone : e.isDone = false) :
    ∀ f ∈ (encodeEvent s e).1, Plain f := by
  cases e with
  | messageStart model =>
      intro f hf
      cases List.mem_singleton.mp hf
      exact plain_writeChunk _ _ _
  | textDelta text => exact plain_writeDelta _ _
  | thinkingDelta text => exact plain_writeDelta _ _
  | toolUseDelta partialJson => exact plain_writeDelta _ _
  | toolUseStart id name =>
      intro f hf
      rcases List.mem_append.mp hf with hOpening | hChunk
      · exact plain_ensureStarted s f hOpening
      · cases List.mem_singleton.mp hChunk
        exact plain_writeChunk _ _ _
  | usageDelta usage =>
      rw [encodeEvent_report hHeld]
      exact nofun
  | done reason => cases hDone

theorem plain_body {body : List StreamEvent} (hHeld : s.gate.held = false)
    (hBody : ∀ e ∈ body, e.isDone = false) : ∀ f ∈ (encodeSse body s).1, Plain f := by
  unfold encodeSse
  induction body generalizing s with
  | nil => exact nofun
  | cons e rest ih =>
      have hFirst := hBody e List.mem_cons_self
      have hNext : (encodeEvent s e).2.gate.held = false := by
        rw [gate_encodeEvent]
        exact Gate.held_after hHeld hFirst
      intro f hf
      rcases List.mem_append.mp hf with hHead | hTail
      · exact plain_encodeEvent hHeld hFirst f hHead
      · exact ih hNext (fun e he => hBody e (List.mem_cons_of_mem _ he)) f hTail

/-- Frames that are plain leave the closing ones to close. -/
theorem Closed.after_plain {due : Bool} {front frames : List Frame} (hPlain : ∀ f ∈ front, Plain f)
    (h : Closed due frames) : Closed due (front ++ frames) := by
  obtain ⟨rest, rfl, hRest, hCount⟩ := h
  refine ⟨front ++ rest, (List.append_assoc _ _ _).symm, fun f hf => ?_, ?_⟩
  · rcases List.mem_append.mp hf with hFront | hLater
    · exact (hPlain f hFront).1
    · exact hRest f hLater
  · rw [List.countP_append, hCount, List.countP_eq_zero.mpr fun f hf => by simp [(hPlain f hf).2],
      Nat.zero_add]

theorem closed_sentinel : Closed false [.sentinel] := ⟨[], rfl, nofun, rfl⟩

theorem closed_usage (s : EmitState) (u : Usage) : Closed true [writeUsageChunk s u, .sentinel] := by
  refine ⟨[writeUsageChunk s u], rfl, fun f hf => ?_, ?_⟩
  · cases List.mem_singleton.mp hf
    nofun
  · rw [List.countP_singleton, if_pos (isUsageChunk_writeUsageChunk s u)]
    rfl

/-- Once the end is out, reports write nothing. -/
theorem reports_free {reports : List StreamEvent} (hHeld : s.pendingDone = false)
    (hReports : ∀ e ∈ reports, e.isUsage = true) :
    (encodeSse reports s).1 = [] ∧ (encodeSse reports s).2.pendingDone = false := by
  unfold encodeSse
  induction reports generalizing s with
  | nil => exact ⟨rfl, hHeld⟩
  | cons e rest ih =>
      have hFirst := hReports e List.mem_cons_self
      cases e with
      | usageDelta usage =>
          rw [Transducer.run_cons, encodeEvent_report hHeld]
          exact ih hHeld fun e he => hReports e (List.mem_cons_of_mem _ he)
      | _ => cases hFirst

/-- An end that is held back goes out with the first report, or when all is over. -/
theorem reports_held {reports : List StreamEvent} (hHeld : s.pendingDone = true)
    (hUsage : s.usage = none) (hReports : ∀ e ∈ reports, e.isUsage = true) :
    Closed (reports.any StreamEvent.isUsage)
      ((encodeSse reports s).1 ++ (encodeSse reports s).2.finish.1) := by
  cases reports with
  | nil =>
      have hFinish : s.finish.1 = [.sentinel] := by
        unfold EmitState.finish usageFrames
        rw [hHeld, hUsage]
        rfl
      show Closed false s.finish.1
      rw [hFinish]
      exact closed_sentinel
  | cons e rest =>
      have hFirst := hReports e List.mem_cons_self
      cases e with
      | usageDelta usage =>
          let told : EmitState :=
            { s with usage := some ((s.usage.getD {}).merge usage), pendingDone := false }
          have hStep : encodeEvent s (.usageDelta usage) =
              ([writeUsageChunk told ((s.usage.getD {}).merge usage), .sentinel], told) := by
            show EmitState.finish _ = _
            unfold EmitState.finish
            rw [if_pos hHeld]
            rfl
          obtain ⟨hNone, hFree⟩ := reports_free (s := told) rfl
            fun e he => hReports e (List.mem_cons_of_mem _ he)
          unfold encodeSse at hNone hFree ⊢
          rw [Transducer.run_cons, hStep, hNone, finish_free hFree]
          exact closed_usage told _
      | _ => cases hFirst

/-- The frames of the end itself. -/
def closing (s : EmitState) (reason : StopReason) : List Frame :=
  (ensureStarted s).1 ++ [writeChunk (ensureStarted s).2 (obj []) (some (stopToFinish reason))]

theorem plain_closing (s : EmitState) (reason : StopReason) : ∀ f ∈ closing s reason, Plain f := by
  intro f hf
  rcases List.mem_append.mp hf with hOpening | hChunk
  · exact plain_ensureStarted s f hOpening
  · cases List.mem_singleton.mp hChunk
    exact plain_writeChunk _ _ _

theorem done_unasked (hAsked : s.includeUsage = false) (reason : StopReason) :
    encodeEvent s (.done reason) = (closing s reason ++ [.sentinel], (ensureStarted s).2) := by
  simp only [encodeEvent, ensureStarted_includeUsage, hAsked, closing]

theorem done_told {u : Usage} (hAsked : s.includeUsage = true) (hTold : s.usage = some u)
    (reason : StopReason) : encodeEvent s (.done reason) =
      (closing s reason ++ [writeUsageChunk (ensureStarted s).2 u, .sentinel], (ensureStarted s).2) := by
  simp only [encodeEvent, ensureStarted_includeUsage, ensureStarted_usage, hAsked, hTold, closing]

theorem done_waiting (hAsked : s.includeUsage = true) (hTold : s.usage = none) (reason : StopReason) :
    encodeEvent s (.done reason) =
      (closing s reason, { (ensureStarted s).2 with pendingDone := true }) := by
  simp only [encodeEvent, ensureStarted_includeUsage, ensureStarted_usage, hAsked, hTold, closing]

/-- The end closes the stream, at once or with what follows. -/
theorem closed_done {reports : List StreamEvent} (hHeld : s.pendingDone = false) (reason : StopReason)
    (hReports : ∀ e ∈ reports, e.isUsage = true) :
    Closed (s.includeUsage && (s.usage.isSome || reports.any StreamEvent.isUsage))
      ((encodeSse (.done reason :: reports) s).1 ++ (encodeSse (.done reason :: reports) s).2.finish.1) := by
  have hStill : (ensureStarted s).2.pendingDone = false :=
    (congrArg Gate.held (ensureStarted_gate s)).trans hHeld
  have hNow {frames : List Frame} {due : Bool} (hClosed : Closed due frames)
      (hEvent : encodeEvent s (.done reason) = (closing s reason ++ frames, (ensureStarted s).2)) :
      Closed due ((encodeSse (.done reason :: reports) s).1 ++
        (encodeSse (.done reason :: reports) s).2.finish.1) := by
    obtain ⟨hNone, hFree⟩ := reports_free hStill hReports
    unfold encodeSse at hNone hFree ⊢
    rw [Transducer.run_cons, hEvent, hNone, finish_free hFree, List.append_nil, List.append_nil]
    exact hClosed.after_plain (plain_closing s reason)
  cases hAsked : s.includeUsage with
  | false => exact hNow closed_sentinel (done_unasked hAsked reason)
  | true =>
      cases hTold : s.usage with
      | some u => exact hNow (closed_usage _ u) (done_told hAsked hTold reason)
      | none =>
          have hUsage : (ensureStarted s).2.usage = none := (ensureStarted_usage s).trans hTold
          have hLater := reports_held (s := { (ensureStarted s).2 with pendingDone := true }) rfl hUsage
            hReports
          unfold encodeSse at hLater ⊢
          rw [Transducer.run_cons, done_waiting hAsked hTold, List.append_assoc]
          exact hLater.after_plain (plain_closing s reason)

end

/-- All frames of an answer: those of its batches, and those still owed. -/
def streamOf (includeUsage : Bool) (batches : List (List StreamEvent)) : List Frame :=
  let (frames, state) := Transducer.run (fun s batch => encodeSse batch s)
    (EmitState.setIncludeUsage {} includeUsage) batches
  frames ++ state.finish.1

/-- However an answer is batched, its stream ends with the only sentinel, and has
a usage chunk just when the client asked for usage and there was a report. -/
theorem streamOf_closed {batches : List (List StreamEvent)} (hEnded : Ended batches.flatten)
    (includeUsage : Bool) : Closed (includeUsage && batches.flatten.any StreamEvent.isUsage)
      (streamOf includeUsage batches) := by
  obtain ⟨body, reason, reports, hSplit, hBody, hReports⟩ := hEnded.split
  let start : EmitState := EmitState.setIncludeUsage {} includeUsage
  have hRuns : Transducer.run (fun s batch => encodeSse batch s) start batches =
      encodeSse batches.flatten start := Transducer.run_flatten encodeEvent start batches
  have hGate : (encodeSse body start).2.gate =
      { start.gate with reported := body.any StreamEvent.isUsage } :=
    (Gate.run_gate gate_encodeEvent start body).trans (Gate.foldl_body rfl hBody)
  have hDone := closed_done (s := (encodeSse body start).2) (congrArg Gate.held hGate) reason hReports
  have hInclude : (encodeSse body start).2.includeUsage = includeUsage := congrArg Gate.waits hGate
  have hUsage : (encodeSse body start).2.usage.isSome = body.any StreamEvent.isUsage :=
    congrArg Gate.reported hGate
  rw [hInclude, hUsage] at hDone
  have hAny : batches.flatten.any StreamEvent.isUsage =
      (body.any StreamEvent.isUsage || reports.any StreamEvent.isUsage) := by
    rw [hSplit, List.any_append, List.any_cons]
    rfl
  have hAppend : encodeSse (body ++ .done reason :: reports) start =
      ((encodeSse body start).1 ++ (encodeSse (.done reason :: reports) (encodeSse body start).2).1,
        (encodeSse (.done reason :: reports) (encodeSse body start).2).2) :=
    Transducer.run_append encodeEvent start body _
  unfold streamOf
  rw [hRuns, hAny, hSplit, hAppend]
  dsimp only
  rw [List.append_assoc]
  exact hDone.after_plain (plain_body rfl hBody)

theorem sample_streamOf_closed : Closed true (streamOf true sampleBatches) :=
  streamOf_closed sampleBatches_ended true

end Gateway.Wire.OpenaiChat
