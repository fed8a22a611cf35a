import Gateway.Wire.OpenaiChat
import Gateway.Wire.OpenaiResponses

/-! What an encoder says once it is told more about the request: a Chat
Completions encoder that usage is asked for, and a Responses encoder that has
prompt-cache fields to echo. -/
namespace Gateway

open Json Wire

namespace Wire.OpenaiChat

/-- Before the end, an encoder that is asked for usage says nothing else. -/
theorem encodeEvent_setIncludeUsage (s : EmitState) (on : Bool) {e : StreamEvent}
    (hDone : e.isDone = false) :
    encodeEvent (s.setIncludeUsage on) e =
      ((encodeEvent s e).1, (encodeEvent s e).2.setIncludeUsage on) := by
  obtain ⟨started, model, toolIndex, usage, asked, held⟩ := s
  cases e with
  | done reason => cases hDone
  | messageStart model => rfl
  | usageDelta usage => cases held <;> rfl
  | _ => cases started <;> rfl

theorem encodeSse_setIncludeUsage (s : EmitState) (on : Bool) {events : List StreamEvent}
    (hNone : ∀ e ∈ events, e.isDone = false) :
    encodeSse events (s.setIncludeUsage on) =
      ((encodeSse events s).1, (encodeSse events s).2.setIncludeUsage on) :=
  Transducer.run_map encodeEvent (fun s _ hDone => encodeEvent_setIncludeUsage s on hDone) s hNone

/-- The end, once usage is known: the report comes before the sentinel when it is
asked for. -/
theorem encodeEvent_done (s : EmitState) (reason : StopReason) {u : Usage} (hUsage : s.usage = some u) :
    ∃ closing, (encodeEvent (s.setIncludeUsage false) (.done reason)).1 = closing ++ [.sentinel] ∧
      (encodeEvent (s.setIncludeUsage true) (.done reason)).1 =
        closing ++ [writeUsageChunk s u, .sentinel] := by
  obtain ⟨started, model, toolIndex, usage, asked, held⟩ := s
  cases hUsage
  exact ⟨(ensureStarted ⟨started, model, toolIndex, some u, asked, held⟩).1 ++
    [writeChunk (ensureStarted ⟨started, model, toolIndex, some u, asked, held⟩).2 (obj [])
      (some (stopToFinish reason))], by cases started <;> rfl, by cases started <;> rfl⟩

end Wire.OpenaiChat

namespace Wire.OpenaiResponses

variable (s : EmitState) (key retention : Option Str)

theorem writeEvents_setPromptCache (events : List (String × List (String × Value))) :
    writeEvents (s.setPromptCache key retention) events =
      ((writeEvents s events).1, (writeEvents s events).2.setPromptCache key retention) := by
  have hStep (s : EmitState) (event : String × List (String × Value)) (_ : True) :
      writeEvent (s.setPromptCache key retention) event.1 event.2 =
        ((writeEvent s event.1 event.2).1,
          (writeEvent s event.1 event.2).2.setPromptCache key retention) := rfl
  exact Transducer.run_map
    (fun s (event : String × List (String × Value)) => writeEvent s event.1 event.2) hStep s
    fun _ _ => trivial

theorem closeOpen_setPromptCache :
    closeOpen (s.setPromptCache key retention) =
      ((closeOpen s).1, (closeOpen s).2.setPromptCache key retention) := by
  unfold closeOpen
  have hOpen : (s.setPromptCache key retention).open = s.open := rfl
  rw [hOpen]
  cases s.open with
  | none => rfl
  | some item =>
      have hWrites := writeEvents_setPromptCache { s with «open» := none } key retention
      simp only [EmitState.setPromptCache] at hWrites ⊢
      simp only [hWrites]

theorem ensureMessage_setPromptCache :
    ensureMessage (s.setPromptCache key retention) =
      ((ensureMessage s).1, (ensureMessage s).2.setPromptCache key retention) := by
  have hClosed := closeOpen_setPromptCache s key retention
  unfold ensureMessage
  have hOpen : (s.setPromptCache key retention).open = s.open := rfl
  rw [hOpen]
  split
  · rfl
  · rw [hClosed]
    rfl

theorem ensureReasoning_setPromptCache :
    ensureReasoning (s.setPromptCache key retention) =
      ((ensureReasoning s).1, (ensureReasoning s).2.setPromptCache key retention) := by
  have hClosed := closeOpen_setPromptCache s key retention
  unfold ensureReasoning
  have hOpen : (s.setPromptCache key retention).open = s.open := rfl
  rw [hOpen]
  split
  · rfl
  · rw [hClosed]
    rfl

/-- An item's end leaves the fields alone. -/
theorem closeOpen_cacheFields :
    cacheFields (closeOpen s).2.promptCacheKey (closeOpen s).2.promptCacheRetention =
      cacheFields s.promptCacheKey s.promptCacheRetention := by
  have hSelf : (closeOpen s).2 =
      (closeOpen s).2.setPromptCache s.promptCacheKey s.promptCacheRetention :=
    congrArg Prod.snd (closeOpen_setPromptCache s s.promptCacheKey s.promptCacheRetention)
  rw [hSelf]
  rfl

variable {s key retention}

theorem responseObj_setPromptCache
    (hSame : cacheFields key retention = cacheFields s.promptCacheKey s.promptCacheRetention)
    (status : String) (output : List Value) :
    (s.setPromptCache key retention).responseObj status output = s.responseObj status output := by
  unfold EmitState.responseObj
  rw [← hSame]
  rfl

theorem writeCompleted_setPromptCache
    (hSame : cacheFields key retention = cacheFields s.promptCacheKey s.promptCacheRetention) :
    writeCompleted (s.setPromptCache key retention) =
      ((writeCompleted s).1, (writeCompleted s).2.setPromptCache key retention) := by
  unfold writeCompleted
  rw [responseObj_setPromptCache hSame]
  rfl

/-- Cache fields that read the same are not told apart. -/
theorem encodeEvent_setPromptCache
    (hSame : cacheFields key retention = cacheFields s.promptCacheKey s.promptCacheRetention)
    (e : StreamEvent) :
    encodeEvent (s.setPromptCache key retention) e =
      ((encodeEvent s e).1, (encodeEvent s e).2.setPromptCache key retention) := by
  cases e with
  | messageStart model =>
      let started : EmitState := { s with
        model, respId := if s.respId.isEmpty then "resp_stream".toList else s.respId }
      have hObject := responseObj_setPromptCache (s := started) hSame "in_progress" []
      show writeEvents (started.setPromptCache key retention) [("response.created", [("response",
        (started.setPromptCache key retention).responseObj "in_progress" [])]),
        ("response.in_progress", [("response",
          (started.setPromptCache key retention).responseObj "in_progress" [])])] = _
      rw [hObject, writeEvents_setPromptCache]
      rfl
  | textDelta text =>
      simp only [encodeEvent, ensureMessage_setPromptCache]
      cases hOpen : (ensureMessage s).2.open with
      | none => simp only [EmitState.setPromptCache, hOpen]
      | some item =>
          cases item with
          | message id index acc =>
              simp only [EmitState.setPromptCache, hOpen]
              rfl
          | _ => simp only [EmitState.setPromptCache, hOpen]
  | thinkingDelta text =>
      simp only [encodeEvent, ensureReasoning_setPromptCache]
      cases hOpen : (ensureReasoning s).2.open with
      | none => simp only [EmitState.setPromptCache, hOpen]
      | some item =>
          cases item with
          | reasoning id index acc =>
              simp only [EmitState.setPromptCache, hOpen]
              rfl
          | _ => simp only [EmitState.setPromptCache, hOpen]
  | toolUseStart id name =>
      simp only [encodeEvent, closeOpen_setPromptCache]
      rfl
  | toolUseDelta fragment =>
      cases hOpen : s.open with
      | none => simp only [encodeEvent, EmitState.setPromptCache, hOpen]
      | some item =>
          cases item with
          | tool id index callId name args =>
              simp only [encodeEvent, EmitState.setPromptCache, hOpen]
              rfl
          | _ => simp only [encodeEvent, EmitState.setPromptCache, hOpen]
  | usageDelta usage =>
      have hCompleted := writeCompleted_setPromptCache (s := { s with
        usage := some ((s.usage.getD {}).merge usage), pendingCompleted := false }) hSame
      cases hHeld : s.pendingCompleted with
      | false => simp only [encodeEvent, EmitState.finish, EmitState.setPromptCache, hHeld]; rfl
      | true =>
          simp only [EmitState.setPromptCache] at hCompleted
          simp only [encodeEvent, EmitState.finish, EmitState.setPromptCache, hHeld, if_true, hCompleted]
  | done reason =>
      have hCompleted := writeCompleted_setPromptCache (hSame.trans (closeOpen_cacheFields s).symm)
      simp only [encodeEvent, closeOpen_setPromptCache]
      cases hUsage : (closeOpen s).2.usage with
      | none => simp only [EmitState.setPromptCache, hUsage]
      | some u =>
          have hKept : ((closeOpen s).2.setPromptCache key retention).usage = some u := hUsage
          simp only [hKept, hCompleted]

theorem encodeSse_setPromptCache
    (hSame : cacheFields key retention = cacheFields s.promptCacheKey s.promptCacheRetention)
    (events : List StreamEvent) :
    encodeSse events (s.setPromptCache key retention) =
      ((encodeSse events s).1, (encodeSse events s).2.setPromptCache key retention) := by
  unfold encodeSse
  induction events generalizing s with
  | nil => rfl
  | cons e rest ih =>
      have hSelf : (encodeEvent s e).2 =
          (encodeEvent s e).2.setPromptCache s.promptCacheKey s.promptCacheRetention :=
        congrArg Prod.snd (encodeEvent_setPromptCache (s := s) rfl e)
      have hNext : cacheFields key retention = cacheFields (encodeEvent s e).2.promptCacheKey
          (encodeEvent s e).2.promptCacheRetention := by
        rw [hSelf]
        exact hSame
      rw [Transducer.run_cons, Transducer.run_cons, encodeEvent_setPromptCache hSame, ih hNext]

end Wire.OpenaiResponses

end Gateway
