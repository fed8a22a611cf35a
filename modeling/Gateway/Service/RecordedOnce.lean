import Gateway.Service.Handle
import Gateway.Wire.OpenaiChat.Request

/-! How often a turn is recorded. Every turn owes one telemetry row, and a step
that pays or keeps what is owed is a covered one. The steps that are not covered
lose the row, or write a second one. -/
namespace Gateway.Service

open Json Wire

/-- The telemetry rows among some effects. -/
def rows (effects : List Effect) : Nat := effects.countP Effect.isTelemetry

@[simp] theorem rows_nil : rows [] = 0 := rfl

theorem rows_cons (e : Effect) (rest : List Effect) :
    rows (e :: rest) = rows [e] + rows rest := by
  simp [rows, List.countP_cons, add_comm]

theorem rows_pos_iff (effects : List Effect) :
    0 < rows effects ↔ effects.any Effect.isTelemetry = true := by
  rw [rows, List.countP_pos_iff, List.any_eq_true]

namespace RecordCtx

variable (rctx : RecordCtx) (turn : Turn)

@[simp] theorem rows_finishNow : rows (rctx.finishNow turn) = 0 := by
  rw [rows, List.countP_eq_length_filter, finishNow_telemetry]
  rfl

@[simp] theorem rows_finishLater : rows (rctx.finishLater turn) = 1 := by
  rw [rows, List.countP_eq_length_filter, finishLater_telemetry]
  rfl

@[simp] theorem rows_finish : rows (rctx.finish turn) = 1 := by
  rw [finish, rows, List.countP_append]
  exact congrArg₂ (· + ·) (rctx.rows_finishNow turn) (rctx.rows_finishLater turn)

end RecordCtx

/-! ### The relay -/

namespace Streaming

variable (rctx : RecordCtx)

/-- The rows that the relay still owes. -/
def due (s : Streaming) : Nat :=
  (match s.phase with
    | .open st => if st.recorded then 0 else 1
    | .finishing _ pending => rows pending
    | .over => 0) + rows s.spawned

/-- A relay is over when a task is left behind, and is done with the turn when
the turn is recorded. -/
def Sound (s : Streaming) : Prop :=
  match s.phase with
  | .open st => s.spawned = [] ∧ st.done = st.recorded
  | .finishing st pending => s.spawned = [] ∧ st.recorded = false ∧ rows pending ≤ 1
  | .over => True

/-- The client does not go away once the row is written and the call has not
returned. -/
def Covered (s : Streaming) (move : Move) : Prop :=
  match s.phase, move with
  | .finishing _ pending, .drop => pending.any Effect.isTelemetry = true
  | _, _ => True

theorem due_record (turn : Turn) {st : StreamState} (hNew : st.recorded = false) :
    rows (record rctx turn st).1 = 0 ∧ (record rctx turn st).2.due = 1 ∧
      (record rctx turn st).2.Sound := by
  simp [record, due, Sound, hNew]

theorem step_open {st : StreamState} (hDone : st.done = st.recorded) (move : Move) :
    rows (step rctx ⟨.open st, []⟩ move).1 + (step rctx ⟨.open st, []⟩ move).2.due =
        due ⟨.open st, []⟩ ∧ (step rctx ⟨.open st, []⟩ move).2.Sound := by
  have hStay : rows [] + due ⟨.open st, []⟩ = due ⟨.open st, []⟩ ∧ Sound ⟨.open st, []⟩ :=
    ⟨Nat.zero_add _, rfl, hDone⟩
  cases move with
  | advance => exact hStay
  | spawned => exact hStay
  | item i =>
      by_cases hEnd : st.done = true
      · simp only [step, hEnd, if_true]
        exact hStay
      have hNew : st.recorded = false := hDone ▸ Bool.eq_false_iff.mpr hEnd
      have hOwed : due ⟨.open st, []⟩ = 1 := by simp [due, hNew]
      rcases st.receive_took i with ⟨st', hReceive, hTook, hOpen⟩ |
        ⟨turn, output, st', hReceive, hTook, hTurn⟩
      · have hStep : step rctx ⟨.open st, []⟩ (.item i) = ([], ⟨.open st', []⟩) := by
          simp only [step, hEnd]
          rcases hReceive with hReceive | ⟨frames, hReceive⟩ <;> rw [hReceive] <;> rfl
        rw [hStep, hOwed]
        exact ⟨by simp [due, hTook.recorded, hNew], rfl, by rw [hOpen, hTook.recorded, hDone]⟩
      · have hStep : step rctx ⟨.open st, []⟩ (.item i) = record rctx turn st' := by
          simp only [step, hEnd, hReceive]
          rfl
        obtain ⟨hNow, hDue, hSound⟩ := due_record rctx turn (hTook.recorded.trans hNew)
        rw [hStep, hOwed]
        exact ⟨(congrArg₂ (· + ·) hNow hDue).trans rfl, hSound⟩
  | poll =>
      by_cases hEnd : st.done = true
      · have hOld : st.recorded = true := hDone ▸ hEnd
        simp [step, hEnd, hOld, due, Sound]
      · simp only [step, hEnd]
        exact hStay
  | drop =>
      show rows [] + (drop rctx st).due = _ ∧ (drop rctx st).Sound
      by_cases hOld : st.recorded = true <;> simp [drop, due, Sound, hOld]

theorem step_finishing {st : StreamState} {pending : List Effect} (hNew : st.recorded = false)
    (hOnce : rows pending ≤ 1) (move : Move) :
    (rows (step rctx ⟨.finishing st pending, []⟩ move).1 +
          (step rctx ⟨.finishing st pending, []⟩ move).2.due = due ⟨.finishing st pending, []⟩ ↔
        Covered ⟨.finishing st pending, []⟩ move) ∧
      (step rctx ⟨.finishing st pending, []⟩ move).2.Sound := by
  have hDue : due ⟨.finishing st pending, []⟩ = rows pending := rfl
  have hStay : (rows [] + due ⟨.finishing st pending, []⟩ = due ⟨.finishing st pending, []⟩ ↔
      True) ∧ Sound ⟨.finishing st pending, []⟩ :=
    ⟨iff_true_intro (Nat.zero_add _), rfl, hNew, hOnce⟩
  cases move with
  | item i => exact hStay
  | poll => exact hStay
  | spawned => exact hStay
  | advance =>
      cases pending with
      | nil => exact ⟨iff_of_true rfl trivial, rfl, rfl⟩
      | cons e rest =>
          cases rest with
          | nil => exact ⟨iff_of_true rfl trivial, rfl, rfl⟩
          | cons e' rest =>
              rw [rows_cons e (e' :: rest)] at hOnce
              refine ⟨iff_of_true ?_ trivial, rfl, hNew, by omega⟩
              rw [hDue, rows_cons e (e' :: rest)]
              rfl
  | drop =>
      show (rows [] + (drop rctx st).due = _ ↔ pending.any Effect.isTelemetry = true) ∧ _
      have hDropped : (drop rctx st).due = 1 := by simp [drop, due, hNew]
      rw [hDropped, hDue, ← rows_pos_iff, rows_nil]
      exact ⟨by omega, trivial⟩

/-- A move keeps what is written and what is owed exactly when it is covered. -/
theorem step_due {s : Streaming} (h : s.Sound) (move : Move) :
    (rows (step rctx s move).1 + (step rctx s move).2.due = s.due ↔ s.Covered move) ∧
      (step rctx s move).2.Sound := by
  obtain ⟨phase, spawned⟩ := s
  cases phase with
  | «open» st =>
      obtain ⟨rfl, hDone⟩ := h
      obtain ⟨hDue, hSound⟩ := step_open rctx hDone move
      exact ⟨iff_of_true hDue trivial, hSound⟩
  | finishing st pending =>
      obtain ⟨rfl, hNew, hOnce⟩ := h
      exact step_finishing rctx hNew hOnce move
  | «over» =>
      have hStay : (rows [] + due ⟨.over, spawned⟩ = due ⟨.over, spawned⟩ ↔ True) ∧
          Sound ⟨.over, spawned⟩ := ⟨iff_true_intro (Nat.zero_add _), trivial⟩
      cases move with
      | item i => exact hStay
      | poll => exact hStay
      | advance => exact hStay
      | drop => exact hStay
      | spawned =>
          cases spawned with
          | nil => exact hStay
          | cons e rest =>
              refine ⟨iff_of_true ?_ trivial, trivial⟩
              show rows [e] + (0 + rows rest) = 0 + rows (e :: rest)
              rw [rows_cons e rest, Nat.zero_add, Nat.zero_add]

/-- A relay that is over stays over, and a move that is not covered ends it. -/
theorem step_over (s : Streaming) (move : Move) :
    (s.phase = .over → (step rctx s move).2.phase = .over) ∧
      (¬ s.Covered move → (step rctx s move).2.phase = .over) := by
  obtain ⟨phase, spawned⟩ := s
  cases phase with
  | «open» st => exact ⟨fun h => by (cases h), fun h => absurd trivial h⟩
  | finishing st pending =>
      refine ⟨fun h => by (cases h), fun h => ?_⟩
      cases move with
      | drop => rfl
      | _ => exact absurd trivial h
  | «over» =>
      refine ⟨fun _ => ?_, fun h => absurd trivial h⟩
      cases move with
      | spawned => cases spawned <;> rfl
      | _ => rfl

end Streaming

/-! ### The turn -/

def Act.effect : Act → Option Effect
  | .sent _ => none
  | .did e => some e

/-- The rows that some acts write. -/
def written (acts : List Act) : Nat := rows (acts.filterMap Act.effect)

theorem written_append (acts more : List Act) :
    written (acts ++ more) = written acts + written more := by
  simp [written, rows]

@[simp] theorem written_did (effects : List Effect) :
    written (effects.map .did) = rows effects := by
  simp [written, List.filterMap_map, Function.comp_def, Act.effect]

namespace TurnState

/-- The rows that a turn still owes. -/
def due (s : TurnState) : Nat :=
  match s.stage with
  | .dispatching .. | .draining .. | .aggregating .. => 1 + rows s.spawned
  | .failing _ pending | .recording pending _ => rows pending + rows s.spawned
  | .streaming _ phase => Streaming.due ⟨phase, s.spawned⟩
  | .returned _ | .gone => rows s.spawned

def Sound (s : TurnState) : Prop :=
  match s.stage with
  | .streaming _ phase => Streaming.Sound ⟨phase, s.spawned⟩
  | .gone => True
  | _ => s.spawned = []

/-- Nothing more comes but what a task left behind does. -/
def Ended (s : TurnState) : Prop :=
  match s.stage with
  | .streaming _ phase => phase = .over
  | .returned _ | .gone => True
  | _ => False

end TurnState

namespace Inbound

variable (t : Inbound)

/-- A response that is passed on whole can be emitted. -/
def Emits (resp : ChatResponse) : Prop :=
  (t.codec.emitResponse t.surface (applyCacheEcho resp t.cacheEcho)).isOk = true

/-- A success that can be adapted to what the client asked for. -/
def Adapts (f : WireFormat) : ResponseBody → Prop
  | .stream => True
  | .full bytes =>
      match t.codec.parseResponse f bytes with
      | .error _ => False
      | .ok resp => t.chat.stream = true ∨ t.Emits resp

/-- The steps that keep what a turn owes: an answer that is passed on whole can
be parsed and emitted, and the client does not go away while an answer is
aggregated, while a record is still to be written by the handler, or after it is
written by the relay and before the call returns. -/
def Covered (s : TurnState) (input : Input) : Prop :=
  match s.stage, input with
  | .dispatching _ f _, .answer (.ok resp) => isSuccess resp.status = true → t.Adapts f resp.body
  | .aggregating _ _ fold, .move (.item .ended) =>
      t.Emits (fold.flush.agg.intoResponse t.ctx.requestId)
  | .aggregating .., .move .drop => False
  | .failing _ pending, .move .drop | .recording pending _, .move .drop =>
      pending.any Effect.isTelemetry = false
  | .streaming _ phase, .move m => Streaming.Covered ⟨phase, s.spawned⟩ m
  | _, _ => True

/-- Acts that write no row, and a state that owes one. -/
def Owes (r : List Act × TurnState) : Prop := written r.1 = 0 ∧ r.2.due = 1 ∧ r.2.Sound

theorem owes_fail (e : Error) : Owes (t.fail e) := ⟨rfl, rfl, rfl⟩

theorem owes_abandon : Owes t.abandon := ⟨rfl, rfl, trivial⟩

theorem owes_commit (d : Deployment) (turn : Turn) (reply : Reply) :
    Owes (t.commit d turn reply) :=
  ⟨by simp [commit], by simp [commit, TurnState.due], rfl⟩

theorem owes_dispatch (lastErr : Option Error) (embedOnly : Bool) (rest : List Deployment) :
    Owes (t.dispatch lastErr embedOnly rest) := by
  induction rest with
  | nil => exact t.owes_fail _
  | cons d rest ih =>
      rw [dispatch]
      split
      · split
        · exact t.owes_fail _
        · exact ⟨rfl, rfl, rfl⟩
      · exact ih
      · exact ih

theorem owes_begin : Owes t.begin := by
  unfold begin
  split
  · exact t.owes_fail _
  · dsimp only
    split_ifs
    · exact t.owes_fail _
    · exact t.owes_dispatch ..

theorem owes_refuse (d : Deployment) (rest : List Deployment) (status : Nat) (message : Str) :
    Owes (t.refuse d rest status message) := by
  unfold refuse
  dsimp only
  split_ifs
  · exact t.owes_dispatch ..
  · exact t.owes_commit ..

/-- Whether the row is still owed depends on a condition; else the turn ends
without. -/
def OwesIf (condition : Prop) (r : List Act × TurnState) : Prop :=
  written r.1 = 0 ∧ r.2.Sound ∧ (r.2.due = 1 ↔ condition) ∧ (¬ condition → r.2.Ended)

theorem Owes.owesIf {r : List Act × TurnState} (h : Owes r) {condition : Prop}
    (hTrue : condition) : OwesIf condition r :=
  ⟨h.1, h.2.2, iff_of_true h.2.1 hTrue, fun hNot => absurd hTrue hNot⟩

theorem owesIf_returned (reply : Reply) {condition : Prop} (hFalse : ¬ condition) :
    OwesIf condition ([], { stage := .returned reply }) :=
  ⟨rfl, rfl, iff_of_false Nat.zero_ne_one hFalse, fun _ => trivial⟩

theorem owesIf_emitFull (d : Deployment) (status : Nat) (resp : ChatResponse) :
    OwesIf (t.Emits resp) (t.emitFull d status (applyCacheEcho resp t.cacheEcho)) := by
  unfold emitFull Emits
  cases t.codec.emitResponse t.surface (applyCacheEcho resp t.cacheEcho) with
  | error e => exact owesIf_returned _ Bool.false_ne_true
  | ok bytes => exact (t.owes_commit ..).owesIf rfl

theorem owesIf_accept (d : Deployment) (f : WireFormat) (status : Nat) (body : ResponseBody) :
    OwesIf (t.Adapts f body) (t.accept d f status body) := by
  cases body with
  | stream =>
      unfold accept
      cases hStream : t.chat.stream with
      | false =>
          have hOwes : Owes ([], { stage := .aggregating d status { decoder := Decoder.new f } }) :=
            ⟨rfl, rfl, rfl⟩
          exact hOwes.owesIf trivial
      | true =>
          have hOwes : Owes ([], { stage := .streaming d (.open (translateStream f t.surface
              t.ctx.requestId status t.cacheEcho t.chat.includeUsage)) }) :=
            ⟨rfl, rfl, rfl, rfl⟩
          exact hOwes.owesIf trivial
  | full bytes =>
      unfold accept Adapts
      dsimp only
      cases t.codec.parseResponse f bytes with
      | error e => exact owesIf_returned _ id
      | ok resp =>
          dsimp only
          split_ifs with hStream
          · exact (t.owes_commit ..).owesIf (Or.inl hStream)
          · simpa [hStream] using t.owesIf_emitFull d status resp

theorem owesIf_answered (d : Deployment) (f : WireFormat) (rest : List Deployment)
    (resp : UpstreamResponse) :
    OwesIf (isSuccess resp.status = true → t.Adapts f resp.body)
      (t.answered d f rest (.ok resp)) := by
  unfold answered
  dsimp only
  split_ifs with hSuccess
  · simpa [hSuccess] using t.owesIf_accept d f resp.status resp.body
  · cases resp.body with
    | full bytes => exact (t.owes_refuse ..).owesIf fun h => absurd h hSuccess
    | stream =>
        have hOwes : Owes ([], { stage := .draining d rest resp.status [] }) := ⟨rfl, rfl, rfl⟩
        exact hOwes.owesIf fun h => absurd h hSuccess

/-- What a step does to what is written and owed: both together stay the same
exactly where the step is covered, and a step that is not covered ends the turn. -/
structure Pays (s : TurnState) (covered : Prop) (r : List Act × TurnState) : Prop where
  kept : written r.1 + r.2.due = s.due ↔ covered
  sound : r.2.Sound
  ended : ¬ covered → r.2.Ended

theorem OwesIf.pays {r : List Act × TurnState} {condition : Prop} (h : OwesIf condition r)
    {s : TurnState} (hDue : s.due = 1) : Pays s condition r :=
  ⟨by rw [h.1, Nat.zero_add, hDue]; exact h.2.2.1, h.2.1, h.2.2.2⟩

theorem Pays.stay {s : TurnState} (h : s.Sound) : Pays s True ([], s) :=
  ⟨iff_true_intro (Nat.zero_add _), h, fun hNot => absurd trivial hNot⟩

/-- The row is lost where the handler is dropped before it is written. -/
theorem pays_gone {s : TurnState} {pending : List Effect} (hDue : s.due = rows pending) :
    Pays s (pending.any Effect.isTelemetry = false) ([], { stage := .gone }) where
  kept := by
    have hPositive := rows_pos_iff pending
    rw [hDue, Bool.eq_false_iff, ne_eq, ← hPositive]
    show 0 + 0 = rows pending ↔ _
    omega
  sound := trivial
  ended := fun _ => trivial

theorem pays_advance {s : TurnState} {pending : List Effect} {suspended : List Effect → Stage}
    {done : Stage} (hDue : s.due = rows pending)
    (hSuspended : ∀ rest, (⟨suspended rest, []⟩ : TurnState).due = rows rest ∧
      (⟨suspended rest, []⟩ : TurnState).Sound)
    (hDone : (⟨done, []⟩ : TurnState).due = 0 ∧ (⟨done, []⟩ : TurnState).Sound) :
    Pays s True (advance pending suspended done) := by
  have hEnded (covered : Prop) (hTrue : covered) (s' : TurnState) : ¬ covered → s'.Ended :=
    fun hNot => absurd hTrue hNot
  cases pending with
  | nil =>
      refine ⟨iff_true_intro ?_, hDone.2, hEnded _ trivial _⟩
      rw [hDue]
      exact (Nat.zero_add _).trans hDone.1
  | cons e rest =>
      cases rest with
      | nil =>
          refine ⟨iff_true_intro ?_, hDone.2, hEnded _ trivial _⟩
          rw [hDue]
          exact congrArg (rows [e] + ·) hDone.1
      | cons e' rest =>
          refine ⟨iff_true_intro ?_, (hSuspended _).2, hEnded _ trivial _⟩
          rw [hDue, rows_cons e (e' :: rest)]
          exact congrArg (rows [e] + ·) (hSuspended (e' :: rest)).1

theorem step_pays {s : TurnState} (h : s.Sound) (input : Input) :
    Pays s (t.Covered s input) (t.step s input) := by
  obtain ⟨stage, spawned⟩ := s
  cases stage with
  | dispatching d f rest =>
      cases h
      cases input with
      | answer r =>
          cases r with
          | error e => exact ((t.owes_dispatch ..).owesIf trivial).pays rfl
          | ok resp => exact (t.owesIf_answered d f rest resp).pays rfl
      | move m =>
          cases m with
          | drop => exact (t.owes_abandon.owesIf trivial).pays rfl
          | _ => exact Pays.stay rfl
  | draining d rest status read =>
      cases h
      cases input with
      | answer r => exact Pays.stay rfl
      | move m =>
          cases m with
          | drop => exact (t.owes_abandon.owesIf trivial).pays rfl
          | item i =>
              simp only [step]
              split
              · exact ⟨iff_true_intro rfl, rfl, fun hNot => absurd trivial hNot⟩
              · exact ((t.owes_refuse ..).owesIf trivial).pays rfl
          | _ => exact Pays.stay rfl
  | failing e pending =>
      cases h
      cases input with
      | answer r => exact Pays.stay rfl
      | move m =>
          cases m with
          | drop => exact pays_gone (Nat.add_zero _)
          | advance => exact pays_advance (Nat.add_zero _) (fun _ => ⟨Nat.add_zero _, rfl⟩) ⟨rfl, rfl⟩
          | _ => exact Pays.stay rfl
  | recording pending reply =>
      cases h
      cases input with
      | answer r => exact Pays.stay rfl
      | move m =>
          cases m with
          | drop => exact pays_gone (Nat.add_zero _)
          | advance => exact pays_advance (Nat.add_zero _) (fun _ => ⟨Nat.add_zero _, rfl⟩) ⟨rfl, rfl⟩
          | _ => exact Pays.stay rfl
  | aggregating d status fold =>
      cases h
      cases input with
      | answer r => exact Pays.stay rfl
      | move m =>
          cases m with
          | drop =>
              exact ⟨iff_of_false Nat.zero_ne_one id, trivial, fun _ => trivial⟩
          | item i =>
              cases i with
              | chunk bytes => exact ⟨iff_true_intro rfl, rfl, fun hNot => absurd trivial hNot⟩
              | failed => exact ((t.owes_commit ..).owesIf trivial).pays rfl
              | ended => exact (t.owesIf_emitFull ..).pays rfl
          | _ => exact Pays.stay rfl
  | streaming d phase =>
      cases input with
      | answer r => exact Pays.stay h
      | move m =>
          have hRelay := Streaming.step_due (t.recordCtx d) h m
          have hOver := (Streaming.step_over (t.recordCtx d) ⟨phase, spawned⟩ m).2
          have hStep : t.step ⟨.streaming d phase, spawned⟩ (.move m) =
              ((Streaming.step (t.recordCtx d) ⟨phase, spawned⟩ m).1.map .did,
                ⟨.streaming d (Streaming.step (t.recordCtx d) ⟨phase, spawned⟩ m).2.phase,
                  (Streaming.step (t.recordCtx d) ⟨phase, spawned⟩ m).2.spawned⟩) := rfl
          rw [hStep]
          refine ⟨?_, hRelay.2, hOver⟩
          rw [written_did]
          exact hRelay.1
  | returned reply =>
      cases h
      cases input with
      | answer r => exact Pays.stay rfl
      | move m => cases m <;> exact Pays.stay rfl
  | gone =>
      cases input with
      | answer r => exact Pays.stay trivial
      | move m =>
          cases m with
          | spawned =>
              cases spawned with
              | nil => exact Pays.stay trivial
              | cons e rest =>
                  refine ⟨iff_true_intro ?_, trivial, fun hNot => absurd trivial hNot⟩
                  exact (rows_cons e rest).symm
          | _ => exact Pays.stay trivial

/-- A turn that has ended stays so, and is kept whatever happens. -/
theorem step_ended {s : TurnState} (h : s.Ended) (input : Input) :
    (t.step s input).2.Ended ∧ t.Covered s input := by
  obtain ⟨stage, spawned⟩ := s
  cases stage with
  | streaming d phase =>
      cases h
      cases input with
      | answer r => exact ⟨rfl, trivial⟩
      | move m => exact ⟨(Streaming.step_over (t.recordCtx d) ⟨.over, spawned⟩ m).1 rfl, trivial⟩
  | returned reply =>
      cases input with
      | answer r => exact ⟨trivial, trivial⟩
      | move m =>
          cases m with
          | spawned => cases spawned <;> exact ⟨trivial, trivial⟩
          | _ => exact ⟨trivial, trivial⟩
  | gone =>
      cases input with
      | answer r => exact ⟨trivial, trivial⟩
      | move m =>
          cases m with
          | spawned => cases spawned <;> exact ⟨trivial, trivial⟩
          | _ => exact ⟨trivial, trivial⟩
  | _ => cases h

/-! ### Runs -/

def AllCovered (past : List (TurnState × Input)) : Prop := ∀ p ∈ past, t.Covered p.1 p.2

/-- What is written and owed in a run: one row while its steps are covered, and
never one again after a step that is not. -/
def Paid (past : List (TurnState × Input)) (acts : List Act) (s : TurnState) : Prop :=
  s.Sound ∧
    ((t.AllCovered past ∧ written (t.begin.1 ++ acts) + s.due = 1) ∨
      (¬ t.AllCovered past ∧ s.Ended ∧ written (t.begin.1 ++ acts) + s.due ≠ 1))

theorem Paid.step {past : List (TurnState × Input)} {acts : List Act} {s : TurnState}
    (h : t.Paid past acts s) (input : Input) :
    t.Paid (past ++ [(s, input)]) (acts ++ (t.step s input).1) (t.step s input).2 := by
  obtain ⟨hSound, hSum⟩ := h
  obtain ⟨hKept, hNext, hEnds⟩ := t.step_pays hSound input
  have hAll : t.AllCovered (past ++ [(s, input)]) ↔ t.AllCovered past ∧ t.Covered s input := by
    simp [AllCovered, or_imp, forall_and]
  refine ⟨hNext, ?_⟩
  rw [hAll, ← List.append_assoc, written_append]
  rcases hSum with ⟨hPast, hOne⟩ | ⟨hPast, hEnded, hNot⟩
  · by_cases hCovered : t.Covered s input
    · have hSame := hKept.mpr hCovered
      exact Or.inl ⟨⟨hPast, hCovered⟩, by omega⟩
    · have hChanged := mt hKept.mp hCovered
      exact Or.inr ⟨fun h => hCovered h.2, hEnds hCovered, by omega⟩
  · obtain ⟨hStays, hCovered⟩ := t.step_ended hEnded input
    have hSame := hKept.mpr hCovered
    exact Or.inr ⟨fun h => hPast h.1, hStays, by omega⟩

theorem run_paid (inputs : List Input) :
    t.Paid (t.history inputs) (Transducer.run t.step t.begin.2 inputs).1 (t.run inputs).2 := by
  obtain ⟨hWritten, hDue, hSound⟩ := t.owes_begin
  have hStart : t.Paid [] [] t.begin.2 := by
    refine ⟨hSound, Or.inl ⟨by simp [AllCovered], ?_⟩⟩
    rw [List.append_nil, hWritten, hDue]
  exact Transducer.run_along hStart (fun past acts s input h => h.step t input) inputs

/-- A turn that has come to its end is recorded exactly once if and only if all
its steps are covered, and as long as they are, it is not recorded twice. -/
theorem recorded_once_iff (inputs : List Input) :
    (t.AllCovered (t.history inputs) → written (t.run inputs).1 ≤ 1) ∧
      ((t.run inputs).2.Ended → (t.run inputs).2.spawned = [] →
        (written (t.run inputs).1 = 1 ↔ t.AllCovered (t.history inputs))) := by
  have hPaid := (t.run_paid inputs).2
  have hSum : (t.AllCovered (t.history inputs) ∧
        written (t.run inputs).1 + (t.run inputs).2.due = 1) ∨
      (¬ t.AllCovered (t.history inputs) ∧ (t.run inputs).2.Ended ∧
        written (t.run inputs).1 + (t.run inputs).2.due ≠ 1) := hPaid
  constructor
  · intro hAll
    rcases hSum with ⟨-, hOne⟩ | ⟨hNot, -⟩
    · omega
    · exact absurd hAll hNot
  · intro hEnded hIdle
    have hDue : (t.run inputs).2.due = 0 := by
      generalize t.run inputs = r at hEnded hIdle
      obtain ⟨acts, stage, spawned⟩ := r
      cases hIdle
      cases stage with
      | streaming d phase =>
          cases hEnded
          rfl
      | returned reply => rfl
      | gone => rfl
      | _ => cases hEnded
    rw [hDue, Nat.add_zero] at hSum
    tauto

/-- A turn with one candidate that takes chat requests. -/
def oneCandidate : Inbound where
  codec :=
    { emitRequest := fun _ req opts => .ok (Text.toUtf8 (OpenaiChat.emitRequest req opts).1)
      parseResponse := fun _ _ => .error (.wire [])
      emitResponse := fun _ _ => .error (.wire []) }
  surface := .openaiChat
  chat := { model := "m".toList }
  ctx := { access := {}, excludedModelIds := [], excludedProviderIds := [] }
  resolved := .ok [{ modelId := "m".toList, providerId := "p".toList }]

/-- A client that goes away while its answer is aggregated leaves no record. -/
theorem hang_up_unrecorded :
    ¬ ∀ (t : Inbound) (inputs : List Input), (t.run inputs).2.Ended →
      (t.run inputs).2.spawned = [] → written (t.run inputs).1 = 1 := by
  intro h
  have hNone : 0 = 1 := h oneCandidate [.answer (.ok ⟨200, .stream⟩), .move .drop] trivial rfl
  exact absurd hNone (by decide)

end Inbound

end Gateway.Service
