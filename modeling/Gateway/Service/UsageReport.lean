import Gateway.Service.Ledger
import Gateway.Service.RecordedOnce

/-! The usage report beside the spend of the days. A turn writes to both, one
call after the other: the two agree as long as no client goes away between the
calls. -/
namespace Gateway.Service

open Json Wire Store

/-- What an effect adds to the turns of a class. -/
def Effect.reports (p : TelemetryRecord → Bool) (amount : Amount) : Effect → Int
  | .telemetry record => if p record then amount.ofTurn record else 0
  | .charge _ | .observed _ | .rollup _ | .log _ => 0

theorem sum_records (p : TelemetryRecord → Bool) (amount : Amount) (effects : List Effect) :
    (((effects.filterMap Effect.record).filter p).map amount.ofTurn).sum =
      (effects.map (Effect.reports p amount)).sum := by
  induction effects with
  | nil => rfl
  | cons e rest ih =>
      rw [List.map_cons, List.sum_cons, ← ih]
      cases e with
      | telemetry record =>
          by_cases h : p record = true
          · simp [Effect.record, Effect.reports, h]
          · simp [Effect.record, Effect.reports, h]
      | _ => exact (zero_add _).symm

/-- The place of a key's day. -/
def dayPlace (key : Id) (day : Timestamp) : Place := ((.key, key), .day, dayStart day)

def Effect.isKeyRollup : Effect → Bool
  | .rollup delta => delta.subjectType = .key
  | .charge _ | .observed _ | .telemetry _ | .log _ => false

section

variable (key : Id) (day : Timestamp) (amount : Amount)

/-- How far an effect takes the report of a key and a day from their row. -/
def Effect.drift (e : Effect) : Int :=
  e.reports (fun t => OfDay key day t) amount - e.spends (fun p => p = dayPlace key day) amount

def drift (effects : List Effect) : Int := (effects.map (Effect.drift key day amount)).sum

@[simp] theorem drift_nil : drift key day amount [] = 0 := rfl

theorem drift_cons (e : Effect) (rest : List Effect) :
    drift key day amount (e :: rest) = e.drift key day amount + drift key day amount rest := by
  simp [drift]

theorem drift_append (effects more : List Effect) : drift key day amount (effects ++ more) =
    drift key day amount effects + drift key day amount more := by
  simp [drift]

theorem drift_eq_sub (effects : List Effect) : drift key day amount effects =
    (effects.map (Effect.reports (fun t => OfDay key day t) amount)).sum -
      (effects.map (Effect.spends (fun p => p = dayPlace key day) amount)).sum := by
  induction effects with
  | nil => rfl
  | cons e rest ih =>
      rw [drift_cons, ih, List.map_cons, List.map_cons, List.sum_cons, List.sum_cons, Effect.drift]
      ring

/-- Neither a row of telemetry nor one of a key. -/
theorem drift_eq_zero {effects : List Effect} (hTelemetry : effects.any Effect.isTelemetry = false)
    (hRollup : effects.any Effect.isKeyRollup = false) : drift key day amount effects = 0 := by
  apply List.sum_eq_zero
  intro x hx
  obtain ⟨e, he, rfl⟩ := List.mem_map.mp hx
  have hNot := List.any_eq_false.mp hTelemetry e he
  have hOther := List.any_eq_false.mp hRollup e he
  cases e with
  | telemetry record => simp [Effect.isTelemetry] at hNot
  | rollup delta =>
      have hPlace : place delta ≠ dayPlace key day := by
        intro hSame
        have hType : delta.subjectType = .key := congrArg (fun p => p.1.1) hSame
        simp [Effect.isKeyRollup, hType] at hOther
      simp [Effect.drift, Effect.reports, Effect.spends, hPlace]
  | _ => rfl

namespace RecordCtx

variable (rctx : RecordCtx) (turn : Turn)

theorem drift_finishNow : drift key day amount (rctx.finishNow turn) = 0 := by
  apply drift_eq_zero
  · unfold finishNow charges
    split_ifs <;> rfl
  · unfold finishNow charges
    split_ifs <;> rfl

theorem reports_finish : ((rctx.finish turn).map
    (Effect.reports (fun t => OfDay key day t) amount)).sum =
      if OfDay key day (rctx.telemetry turn) then amount.ofTurn (rctx.telemetry turn) else 0 := by
  have hCharges : ((rctx.charges turn.usage).map
      (Effect.reports (fun t => OfDay key day t) amount)).sum = 0 := by
    unfold charges
    split_ifs <;> simp [Effect.reports]
  simp [finish, finishNow, finishLater, hCharges, Effect.reports, Function.comp_def]

/-- Both tables get the same of a finished turn. -/
theorem drift_finish : drift key day amount (rctx.finish turn) = 0 := by
  have hPlaces (p : Place) (hp : decide (p = dayPlace key day) = true) :
      p.1 = (SubjectType.key, key) := by
    rw [of_decide_eq_true hp]
    rfl
  have hMem : (SubjectType.key, key) ∈ rctx.subjects ↔ rctx.apiKeyId = some key := by
    unfold subjects
    simp
  have hSame : OfDay key day (rctx.telemetry turn) ↔ (SubjectType.key, key) ∈ rctx.subjects ∧
      decide (((SubjectType.key, key), Period.day, dayStart rctx.createdAt) = dayPlace key day) =
        true := by
    rw [hMem, decide_eq_true_iff]
    unfold OfDay dayPlace telemetry
    simp
  have hAmount : amount.ofTurn (rctx.telemetry turn) =
      amount.ofDelta (rctx.rollup turn.usage (.key, key)) := by
    cases amount <;> rfl
  rw [drift_eq_sub, reports_finish, rctx.spends_finish hPlaces, hAmount, if_congr hSame rfl rfl]
  exact sub_self _

theorem drift_finishLater : drift key day amount (rctx.finishLater turn) = 0 := by
  have hAll := rctx.drift_finish key day amount turn
  rwa [finish, drift_append, drift_finishNow, zero_add] at hAll

end RecordCtx

/-! ### The relay -/

/-- The effects of a recording that are left: all of it, or those after its
telemetry. -/
def Begun (pending : List Effect) : Prop :=
  (∃ (rctx : RecordCtx) (turn : Turn), pending = rctx.finishLater turn) ∨
    pending.any Effect.isTelemetry = false

/-- A recording that is dropped here has written to both tables, or to neither. -/
def Whole (pending : List Effect) : Prop :=
  pending.any Effect.isTelemetry = true ∨ pending.any Effect.isKeyRollup = false

theorem Begun.rest {e : Effect} {rest : List Effect} (h : Begun (e :: rest)) : Begun rest := by
  right
  rcases h with ⟨rctx, turn, hAll⟩ | hNone
  · have hOne := rctx.rows_finishLater turn
    rw [← hAll, rows_cons] at hOne
    have hFirst : rows [e] = 1 := by
      rw [(List.cons.inj hAll).1]
      rfl
    rw [Bool.eq_false_iff, ne_eq, ← rows_pos_iff]
    omega
  · rw [List.any_cons, Bool.or_eq_false_iff] at hNone
    exact hNone.2

theorem Begun.drift_eq_zero {pending : List Effect} (h : Begun pending) (hWhole : Whole pending) :
    drift key day amount pending = 0 := by
  rcases h with ⟨rctx, turn, rfl⟩ | hNone
  · exact rctx.drift_finishLater key day amount turn
  · rcases hWhole with hSome | hRollup
    · rw [hNone] at hSome
      exact absurd hSome Bool.false_ne_true
    · exact Gateway.Service.drift_eq_zero key day amount hNone hRollup

def Phase.pending : Phase → List Effect
  | .finishing _ pending => pending
  | .open _ | .over => []

namespace Streaming

variable (rctx : RecordCtx)

/-- What the relay, or the task it left behind, has still to do. -/
def owed (s : Streaming) : List Effect := s.phase.pending ++ s.spawned

/-- A client does not go away between the calls that write the two tables. -/
def Whole (s : Streaming) (move : Move) : Prop :=
  match s.phase, move with
  | .finishing _ pending, .drop => Service.Whole pending
  | _, _ => True

/-- What is done and what is left make no difference to what was left. -/
def Keeps (before : List Effect) (r : List Effect × Streaming) : Prop :=
  drift key day amount r.1 + drift key day amount r.2.owed = drift key day amount before ∧
    Begun r.2.phase.pending

theorem keeps_of_nothing (phase : Phase) (h : phase.pending = []) :
    Keeps key day amount [] ([], ⟨phase, []⟩) := by
  unfold Keeps owed
  dsimp only
  rw [h]
  exact ⟨rfl, .inr rfl⟩

theorem keeps_record (turn : Turn) (st : StreamState) :
    Keeps key day amount [] (record rctx turn st) := by
  refine ⟨?_, .inl ⟨rctx, turn, rfl⟩⟩
  show drift key day amount (rctx.finishNow turn) +
    drift key day amount (rctx.finishLater turn ++ []) = 0
  rw [List.append_nil, rctx.drift_finishNow, rctx.drift_finishLater, add_zero]

theorem keeps_drop (st : StreamState) : Keeps key day amount [] ([], drop rctx st) := by
  refine ⟨?_, .inr rfl⟩
  show 0 + drift key day amount ([] ++ if st.recorded then [] else
    rctx.finish (st.turn 499 true)) = 0
  split_ifs
  · rfl
  · rw [List.nil_append, rctx.drift_finish, add_zero]

theorem step_keeps {s : Streaming} (hSound : s.Sound) (hBegun : Begun s.phase.pending) (move : Move)
    (hWhole : s.Whole move) : Keeps key day amount s.owed (step rctx s move) := by
  obtain ⟨phase, spawned⟩ := s
  cases phase with
  | «open» st =>
      obtain ⟨rfl, -⟩ := hSound
      have hStay (st' : StreamState) : Keeps key day amount [] ([], ⟨.open st', []⟩) :=
        keeps_of_nothing key day amount (.open st') rfl
      show Keeps key day amount [] _
      cases move with
      | advance => exact hStay st
      | spawned => exact hStay st
      | item i =>
          unfold step
          dsimp only
          split_ifs
          · exact hStay st
          · cases st.receive i with
            | more st' => exact hStay st'
            | yield frames st' => exact hStay st'
            | record turn output st' => exact keeps_record key day amount rctx turn st'
      | poll =>
          unfold step
          dsimp only
          split_ifs
          · exact hStay st
          · exact keeps_of_nothing key day amount .over rfl
          · exact keeps_record key day amount rctx _ _
      | drop => exact keeps_drop key day amount rctx st
  | finishing st pending =>
      obtain ⟨rfl, -, -⟩ := hSound
      have hOwed : owed ⟨.finishing st pending, []⟩ = pending := List.append_nil pending
      have hStay : Keeps key day amount pending ([], ⟨.finishing st pending, []⟩) :=
        ⟨by rw [hOwed]; exact zero_add _, hBegun⟩
      rw [hOwed]
      cases move with
      | item i => exact hStay
      | poll => exact hStay
      | spawned => exact hStay
      | advance =>
          cases pending with
          | nil => exact keeps_of_nothing key day amount _ rfl
          | cons e rest =>
              cases rest with
              | nil => exact ⟨add_zero _, .inr rfl⟩
              | cons e' rest =>
                  refine ⟨?_, hBegun.rest⟩
                  show drift key day amount [e] + drift key day amount ((e' :: rest) ++ []) = _
                  rw [List.append_nil, ← drift_append]
                  rfl
      | drop =>
          obtain ⟨hDrop, hNext⟩ := keeps_drop key day amount rctx st
          exact ⟨hDrop.trans (hBegun.drift_eq_zero key day amount hWhole).symm, hNext⟩
  | «over» =>
      have hStay : Keeps key day amount spawned ([], ⟨.over, spawned⟩) := ⟨zero_add _, .inr rfl⟩
      show Keeps key day amount spawned _
      cases move with
      | item i => exact hStay
      | poll => exact hStay
      | advance => exact hStay
      | drop => exact hStay
      | spawned =>
          cases spawned with
          | nil => exact hStay
          | cons e rest =>
              refine ⟨?_, .inr rfl⟩
              show drift key day amount [e] + drift key day amount ([] ++ rest) = _
              rw [List.nil_append, ← drift_append]
              rfl

end Streaming

/-! ### The turn -/

/-- The row of a turn that nothing was spent on. -/
def Effect.Unspent (e : Effect) : Prop :=
  ∃ record : TelemetryRecord, e = .telemetry record ∧ ∀ amount : Amount, amount.ofTurn record = 0

theorem drift_unspent {effects : List Effect} (h : ∀ e ∈ effects, e.Unspent) :
    drift key day amount effects = 0 := by
  apply List.sum_eq_zero
  intro x hx
  obtain ⟨e, he, rfl⟩ := List.mem_map.mp hx
  obtain ⟨record, rfl, hNone⟩ := h e he
  simp [Effect.drift, Effect.reports, Effect.spends, hNone]

namespace TurnState

def pending (s : TurnState) : List Effect :=
  match s.stage with
  | .failing _ pending | .recording pending _ => pending
  | .streaming _ phase => phase.pending
  | .dispatching .. | .draining .. | .aggregating .. | .returned _ | .gone => []

/-- What the turn, or a task it left behind, has still to do. -/
def owed (s : TurnState) : List Effect := s.pending ++ s.spawned

def Steady (s : TurnState) : Prop :=
  match s.stage with
  | .failing _ pending => ∀ e ∈ pending, e.Unspent
  | .recording pending _ => Begun pending
  | .streaming _ phase => Begun phase.pending
  | .dispatching .. | .draining .. | .aggregating .. | .returned _ | .gone => True

/-- What is done and what is left make no difference to what was left. -/
def Keeps (before : List Effect) (r : List Act × TurnState) : Prop :=
  drift key day amount (r.1.filterMap Act.effect) + drift key day amount r.2.owed =
    drift key day amount before ∧ r.2.Steady

theorem keeps_of_owed {s : TurnState} (h : s.Steady) : Keeps key day amount s.owed ([], s) :=
  ⟨zero_add _, h⟩

end TurnState

namespace Inbound

open TurnState

variable (t : Inbound)

/-- A client does not go away between the calls that write the two tables. -/
def Whole (s : TurnState) (input : Input) : Prop :=
  match s.stage, input with
  | .recording pending _, .move .drop => Service.Whole pending
  | .streaming _ phase, .move m => Streaming.Whole ⟨phase, s.spawned⟩ m
  | _, _ => True

theorem guardRecord_unspent (status : Nat) :
    (Effect.telemetry (t.guardRecord status)).Unspent :=
  ⟨_, rfl, fun amount => by cases amount <;> rfl⟩

theorem keeps_fail (e : Error) : Keeps key day amount [] (t.fail e) := by
  have hUnspent : ∀ e' ∈ [Effect.telemetry (t.guardRecord e.httpStatus)], e'.Unspent := by
    simpa using t.guardRecord_unspent e.httpStatus
  exact ⟨congrArg (0 + ·) (drift_unspent key day amount hUnspent), hUnspent⟩

theorem keeps_abandon : Keeps key day amount [] t.abandon := by
  have hUnspent : ∀ e' ∈ [Effect.telemetry (t.guardRecord 499)], e'.Unspent := by
    simpa using t.guardRecord_unspent 499
  exact ⟨congrArg (0 + ·) (drift_unspent key day amount hUnspent), trivial⟩

theorem filterMap_did (effects : List Effect) : (effects.map .did).filterMap Act.effect = effects := by
  rw [List.filterMap_map]
  exact List.filterMap_some

theorem keeps_commit (d : Deployment) (turn : Turn) (reply : Reply) :
    Keeps key day amount [] (t.commit d turn reply) := by
  refine ⟨?_, .inl ⟨t.recordCtx d, turn, rfl⟩⟩
  show drift key day amount ((((t.recordCtx d).finishNow turn).map .did).filterMap Act.effect) +
    drift key day amount ((t.recordCtx d).finishLater turn ++ []) = 0
  rw [filterMap_did, List.append_nil, RecordCtx.drift_finishNow, RecordCtx.drift_finishLater, add_zero]

theorem keeps_dispatch (lastErr : Option Error) (embedOnly : Bool) (rest : List Deployment) :
    Keeps key day amount [] (t.dispatch lastErr embedOnly rest) := by
  induction rest with
  | nil => exact t.keeps_fail key day amount _
  | cons d rest ih =>
      rw [dispatch]
      split
      · split
        · exact t.keeps_fail key day amount _
        · exact ⟨rfl, trivial⟩
      · exact ih
      · exact ih

theorem keeps_begin : Keeps key day amount [] t.begin := by
  unfold begin
  split
  · exact t.keeps_fail key day amount _
  · dsimp only
    split_ifs
    · exact t.keeps_fail key day amount _
    · exact t.keeps_dispatch key day amount ..

theorem keeps_refuse (d : Deployment) (rest : List Deployment) (status : Nat) (message : Str) :
    Keeps key day amount [] (t.refuse d rest status message) := by
  unfold refuse
  dsimp only
  split_ifs
  · exact t.keeps_dispatch key day amount ..
  · exact t.keeps_commit key day amount ..

theorem keeps_emitFull (d : Deployment) (status : Nat) (resp : ChatResponse) :
    Keeps key day amount [] (t.emitFull d status resp) := by
  unfold emitFull
  split
  · exact ⟨rfl, trivial⟩
  · exact t.keeps_commit key day amount ..

theorem keeps_accept (d : Deployment) (f : WireFormat) (status : Nat) (body : ResponseBody) :
    Keeps key day amount [] (t.accept d f status body) := by
  unfold accept
  split
  · exact ⟨rfl, trivial⟩
  · exact ⟨rfl, .inr rfl⟩
  · split
    · exact ⟨rfl, trivial⟩
    · split_ifs
      · exact t.keeps_commit key day amount ..
      · exact t.keeps_emitFull key day amount ..

theorem keeps_answered (d : Deployment) (f : WireFormat) (rest : List Deployment)
    (r : Except Error UpstreamResponse) : Keeps key day amount [] (t.answered d f rest r) := by
  unfold answered
  split
  · exact t.keeps_dispatch key day amount ..
  · split_ifs
    · exact t.keeps_accept key day amount ..
    · split
      · exact t.keeps_refuse key day amount ..
      · exact ⟨rfl, trivial⟩

theorem keeps_aggregate (d : Deployment) (status : Nat) (fold : Fold) (item : Item) :
    Keeps key day amount [] (t.aggregate d status fold item) := by
  cases item with
  | chunk bytes => exact ⟨rfl, trivial⟩
  | failed => exact t.keeps_commit key day amount ..
  | ended => exact t.keeps_emitFull key day amount ..

theorem keeps_advance {pending : List Effect} {suspended : List Effect → Stage} {done : Stage}
    (hSuspended : ∀ e rest, pending = e :: rest → (⟨suspended rest, []⟩ : TurnState).owed = rest ∧
      (⟨suspended rest, []⟩ : TurnState).Steady)
    (hDone : (⟨done, []⟩ : TurnState).owed = [] ∧ (⟨done, []⟩ : TurnState).Steady) :
    Keeps key day amount pending (advance pending suspended done) := by
  cases pending with
  | nil => exact ⟨by rw [advance, hDone.1]; rfl, hDone.2⟩
  | cons e rest =>
      cases rest with
      | nil => exact ⟨by rw [advance, hDone.1]; exact add_zero _, hDone.2⟩
      | cons e' rest =>
          obtain ⟨hOwed, hSteady⟩ := hSuspended e (e' :: rest) rfl
          refine ⟨?_, hSteady⟩
          show drift key day amount [e] + drift key day amount (owed ⟨suspended (e' :: rest), []⟩) = _
          rw [hOwed, ← drift_append]
          rfl

theorem step_keeps {s : TurnState} (hSound : s.Sound) (hSteady : s.Steady) (input : Input)
    (hWhole : Whole s input) : Keeps key day amount s.owed (t.step s input) := by
  have hStay := keeps_of_owed key day amount hSteady
  obtain ⟨stage, spawned⟩ := s
  cases stage with
  | dispatching d f rest =>
      cases hSound
      cases input with
      | answer r => exact t.keeps_answered key day amount d f rest r
      | move m =>
          cases m with
          | drop => exact t.keeps_abandon key day amount
          | _ => exact hStay
  | draining d rest status read =>
      cases hSound
      cases input with
      | answer r => exact hStay
      | move m =>
          cases m with
          | drop => exact t.keeps_abandon key day amount
          | item i =>
              simp only [step]
              split
              · exact ⟨rfl, trivial⟩
              · exact t.keeps_refuse key day amount ..
          | _ => exact hStay
  | failing e pending =>
      cases hSound
      have hOwed : owed ⟨.failing e pending, []⟩ = pending := List.append_nil pending
      cases input with
      | answer r => exact hStay
      | move m =>
          cases m with
          | drop =>
              rw [hOwed]
              exact ⟨(drift_unspent key day amount hSteady).symm, trivial⟩
          | advance =>
              rw [hOwed]
              refine keeps_advance key day amount (fun e' rest hSplit => ?_) ⟨rfl, trivial⟩
              subst hSplit
              exact ⟨List.append_nil rest, fun e'' he => hSteady e'' (List.mem_cons_of_mem e' he)⟩
          | _ => exact hStay
  | recording pending reply =>
      cases hSound
      have hOwed : owed ⟨.recording pending reply, []⟩ = pending := List.append_nil pending
      cases input with
      | answer r => exact hStay
      | move m =>
          cases m with
          | drop =>
              rw [hOwed]
              exact ⟨(Begun.drift_eq_zero key day amount hSteady hWhole).symm, trivial⟩
          | advance =>
              rw [hOwed]
              refine keeps_advance key day amount (fun e' rest hSplit => ?_) ⟨rfl, trivial⟩
              subst hSplit
              exact ⟨List.append_nil rest, Begun.rest hSteady⟩
          | _ => exact hStay
  | aggregating d status fold =>
      cases hSound
      cases input with
      | answer r => exact hStay
      | move m =>
          cases m with
          | drop => exact ⟨rfl, trivial⟩
          | item i => exact t.keeps_aggregate key day amount d status fold i
          | _ => exact hStay
  | streaming d phase =>
      cases input with
      | answer r => exact hStay
      | move m =>
          obtain ⟨hDrift, hBegun⟩ := Streaming.step_keeps key day amount (t.recordCtx d)
            (s := ⟨phase, spawned⟩) hSound hSteady m hWhole
          refine ⟨?_, hBegun⟩
          show drift key day amount (((Streaming.step (t.recordCtx d) ⟨phase, spawned⟩ m).1.map
            .did).filterMap Act.effect) + _ = _
          rw [filterMap_did]
          exact hDrift
  | returned reply =>
      cases input with
      | answer r => exact hStay
      | move m =>
          cases hSound
          cases m <;> exact hStay
  | gone =>
      cases input with
      | answer r => exact hStay
      | move m =>
          cases m with
          | spawned =>
              cases spawned with
              | nil => exact hStay
              | cons e rest =>
                  refine ⟨?_, trivial⟩
                  show drift key day amount [e] + drift key day amount ([] ++ rest) = _
                  rw [List.nil_append, ← drift_append]
                  rfl
          | _ => exact hStay

/-- What a run has done and what is left make no difference, while its steps are
whole. -/
def Matched (past : List (TurnState × Input)) (acts : List Act) (s : TurnState) : Prop :=
  (∀ p ∈ past, Whole p.1 p.2) → Keeps key day amount [] (t.begin.1 ++ acts, s) ∧ s.Sound

theorem Matched.step {past : List (TurnState × Input)} {acts : List Act} {s : TurnState}
    (h : t.Matched key day amount past acts s) (input : Input) :
    t.Matched key day amount (past ++ [(s, input)]) (acts ++ (t.step s input).1)
      (t.step s input).2 := by
  intro hAll
  obtain ⟨⟨hKept, hSteady⟩, hSound⟩ := h fun p hp => hAll p (List.mem_append_left _ hp)
  have hNow : Whole s input := hAll (s, input) (by simp)
  obtain ⟨hStep, hNext⟩ := t.step_keeps key day amount hSound hSteady input hNow
  refine ⟨⟨?_, hNext⟩, (t.step_pays hSound input).sound⟩
  rw [← List.append_assoc, List.filterMap_append, drift_append, add_assoc, hStep]
  exact hKept

theorem run_matched (inputs : List Input) :
    t.Matched key day amount (t.history inputs) (Transducer.run t.step t.begin.2 inputs).1
      (t.run inputs).2 := by
  have hStart : t.Matched key day amount [] [] t.begin.2 := by
    intro _
    rw [List.append_nil]
    exact ⟨t.keeps_begin key day amount, t.owes_begin.2.2⟩
  exact Transducer.run_along hStart (fun past acts s input h => h.step key day amount t input) inputs

/-- A turn that is over has written to both tables alike. -/
theorem run_drift (inputs : List Input) (hWhole : ∀ p ∈ t.history inputs, Whole p.1 p.2)
    (hEnded : (t.run inputs).2.Ended) (hIdle : (t.run inputs).2.spawned = []) :
    drift key day amount ((t.run inputs).1.filterMap Act.effect) = 0 := by
  obtain ⟨⟨hKept, -⟩, -⟩ := t.run_matched key day amount inputs hWhole
  have hOwed : (t.run inputs).2.owed = [] := by
    unfold owed
    rw [hIdle, List.append_nil]
    generalize (t.run inputs).2 = s at hEnded
    obtain ⟨stage, spawned⟩ := s
    cases stage with
    | streaming d phase =>
        cases hEnded
        rfl
    | returned reply => rfl
    | gone => rfl
    | _ => cases hEnded
  have hAll : drift key day amount ((t.run inputs).1.filterMap Act.effect) +
      drift key day amount (t.run inputs).2.owed = 0 := hKept
  rwa [hOwed, drift_nil, add_zero] at hAll

end Inbound

end

open Calendar Inbound

/-- Turns whose effects may take place in any order, each turn over with its
tasks done. -/
structure Recorded (turns : List (Inbound × List Input)) (effects : List Effect) : Prop where
  effects : effects.Perm (turns.flatMap fun x => (x.1.run x.2).1.filterMap Act.effect)
  ended : ∀ x ∈ turns, (x.1.run x.2).2.Ended
  idle : ∀ x ∈ turns, (x.1.run x.2).2.spawned = []

/-- In every run in which no client goes away between the two tables, a report
that ends before the year 10000 says of a key's day what the day's row says. -/
theorem report_follows_spend {turns : List (Inbound × List Input)} {effects : List Effect}
    (hRun : Recorded turns effects)
    (hWhole : ∀ x ∈ turns, ∀ p ∈ x.1.history x.2, Inbound.Whole p.1 p.2)
    {db : Db} (hTelemetry : db.telemetry = []) (hSpend : db.spendRollup = [])
    {day start stop : Timestamp} (hDay : FourDigits day) (hStart : start ≤ dayStart day)
    (hStop : dayStart day + dayLength ≤ stop) (hEnd : FourDigits stop) (key : Id)
    (amount : Amount) :
    reported key day amount (usageRows (performAll db effects).telemetry start stop) =
      amountAt (dayPlace key day) amount (performAll db effects).spendRollup := by
  have hDrift : drift key day amount effects = 0 := by
    unfold drift
    rw [(hRun.effects.map _).sum_eq, List.map_flatMap, List.flatMap_def, List.sum_flatten]
    apply List.sum_eq_zero
    intro n hn
    obtain ⟨_, hx, rfl⟩ := List.mem_map.mp hn
    obtain ⟨x, hMem, rfl⟩ := List.mem_map.mp hx
    exact x.1.run_drift key day amount x.2 (hWhole x hMem) (hRun.ended x hMem) (hRun.idle x hMem)
  rw [reported_usageRows hDay hStart hStop hEnd, telemetry_performAll, hTelemetry, List.nil_append,
    sum_records, amountAt_performAll, hSpend]
  rw [drift_eq_sub] at hDrift
  have hNone : amountAt (dayPlace key day) amount [] = 0 := rfl
  rw [hNone, zero_add]
  exact Int.sub_eq_zero.mp hDrift

/-- A client that stays never goes away between the tables. -/
theorem Inbound.whole_of_stays (t : Inbound) (inputs : List Input)
    (hStays : ∀ input ∈ inputs, input ≠ .move .drop) : ∀ p ∈ t.history inputs,
      Inbound.Whole p.1 p.2 := by
  intro p hp
  have hMem : p.2 ∈ inputs := by
    rw [← Transducer.trace_map_snd t.step t.begin.2 inputs]
    exact List.mem_map_of_mem hp
  obtain ⟨⟨stage, spawned⟩, input⟩ := p
  have hNot : input ≠ .move .drop := hStays _ hMem
  cases input with
  | answer r => cases stage <;> trivial
  | move m =>
      cases m with
      | drop => exact absurd rfl hNot
      | _ =>
          cases stage with
          | streaming d phase => cases phase <;> trivial
          | _ => trivial

/-- A turn of a key that is answered whole, at one token. -/
def oneToken : Inbound :=
  { oneCandidate with
    codec := { oneCandidate.codec with
      parseResponse := fun _ _ => .ok
        { id := [], model := [], content := [], stopReason := .endTurn, usage := { inputTokens := 1 } }
      emitResponse := fun _ _ => .ok [] }
    ctx := { oneCandidate.ctx with apiKeyId := some ['k'] } }

/-- The client stays until it has the answer. -/
def untilAnswered : List Input :=
  [.answer (.ok ⟨200, .full []⟩), .move .advance, .move .advance, .move .advance]

/-- What the turn leaves in an empty database. -/
def afterOneToken : Db := performAll {} ((oneToken.run untilAnswered).1.filterMap Act.effect)

theorem one_token_agrees :
    reported ['k'] 0 .inputTokens (usageRows afterOneToken.telemetry 0 dayLength) =
      amountAt (dayPlace ['k'] 0) .inputTokens afterOneToken.spendRollup := by
  have hRun : Recorded [(oneToken, untilAnswered)]
      ((oneToken.run untilAnswered).1.filterMap Act.effect) :=
    ⟨by simp, List.forall_mem_singleton.mpr trivial, List.forall_mem_singleton.mpr rfl⟩
  have hStays := oneToken.whole_of_stays untilAnswered (by simp [untilAnswered])
  exact report_follows_spend hRun (List.forall_mem_singleton.mpr hStays) rfl rfl (by decide)
    (by decide) (by decide) (by decide) ['k'] .inputTokens

/-- A client that goes away between the row of telemetry and the row of its key. -/
theorem hang_up_between_tables :
    ¬ ∀ (turns : List (Inbound × List Input)) (effects : List Effect), Recorded turns effects →
      ∀ (key : Id) (day start stop : Timestamp) (amount : Amount), start ≤ dayStart day →
        dayStart day + dayLength ≤ stop →
          reported key day amount (usageRows (performAll {} effects).telemetry start stop) =
            amountAt (dayPlace key day) amount (performAll {} effects).spendRollup := by
  intro h
  let inputs : List Input := [.answer (.ok ⟨200, .full []⟩), .move .advance, .move .drop]
  have hRun : Recorded [(oneToken, inputs)] ((oneToken.run inputs).1.filterMap Act.effect) :=
    ⟨by simp, List.forall_mem_singleton.mpr trivial, List.forall_mem_singleton.mpr rfl⟩
  have hSame := h _ _ hRun ['k'] 0 0 dayLength .inputTokens (by decide) (by decide)
  exact absurd hSame (by decide +kernel)

end Gateway.Service
