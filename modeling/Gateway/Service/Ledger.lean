import Gateway.Service.Record
import Gateway.Store.Spend

/-! What the effects of turns leave in the database. The order in which they take
place does not change any sum. -/
namespace Gateway.Service

open Json Store

/-- An effect with its call to the store, if it has one. -/
def perform (db : Db) : Effect → Db
  | .telemetry record => db.insertTelemetry record
  | .rollup delta => db.upsertRollup delta
  | .charge _ | .observed _ | .log _ => db

def performAll (db : Db) (effects : List Effect) : Db := effects.foldl perform db

/-- The record that an effect adds. -/
def Effect.record : Effect → Option TelemetryRecord
  | .telemetry record => some record
  | .charge _ | .observed _ | .rollup _ | .log _ => none

/-- What an effect adds to the days of some places. -/
def Effect.spends (places : Place → Bool) (amount : Amount) : Effect → Int
  | .rollup delta => if places (place delta) then amount.ofDelta delta else 0
  | .charge _ | .observed _ | .telemetry _ | .log _ => 0

theorem telemetry_performAll (db : Db) (effects : List Effect) :
    (performAll db effects).telemetry = db.telemetry ++ effects.filterMap Effect.record := by
  induction effects generalizing db with
  | nil => simp [performAll]
  | cons e rest ih =>
      show (performAll (perform db e) rest).telemetry = _
      rw [ih]
      cases e with
      | telemetry record => exact List.append_assoc db.telemetry [record] _
      | _ => rfl

theorem sumOver_performAll (places : Place → Bool) (amount : Amount) (db : Db)
    (effects : List Effect) : sumOver places amount (performAll db effects).spendRollup =
      sumOver places amount db.spendRollup +
        (effects.map (Effect.spends places amount)).sum := by
  induction effects generalizing db with
  | nil => simp [performAll]
  | cons e rest ih =>
      have hStep : sumOver places amount (perform db e).spendRollup =
          sumOver places amount db.spendRollup + e.spends places amount := by
        cases e with
        | rollup delta => exact sumOver_addSpend places amount delta db.spendRollup
        | _ => exact (add_zero _).symm
      show sumOver places amount (performAll (perform db e) rest).spendRollup = _
      rw [ih, hStep, List.map_cons, List.sum_cons, add_assoc]

theorem amountAt_performAll (key : Place) (amount : Amount) (db : Db) (effects : List Effect) :
    amountAt key amount (performAll db effects).spendRollup =
      amountAt key amount db.spendRollup +
        (effects.map (Effect.spends (fun p => p = key) amount)).sum := by
  induction effects generalizing db with
  | nil => simp [performAll]
  | cons e rest ih =>
      have hStep : amountAt key amount (perform db e).spendRollup =
          amountAt key amount db.spendRollup + e.spends (fun p => p = key) amount := by
        cases e with
        | rollup delta =>
            refine (amountAt_addSpend key amount delta db.spendRollup).trans ?_
            simp [Effect.spends]
        | _ => exact (add_zero _).symm
      show amountAt key amount (performAll (perform db e) rest).spendRollup = _
      rw [ih, hStep, List.map_cons, List.sum_cons, add_assoc]

/-- The other tables stay as they are. -/
theorem budgets_performAll (db : Db) (effects : List Effect) :
    (performAll db effects).budgets = db.budgets := by
  induction effects generalizing db with
  | nil => rfl
  | cons e rest ih => exact (ih (perform db e)).trans (by cases e <;> rfl)

/-! ### Finished turns -/

namespace RecordCtx

variable (rctx : RecordCtx)

theorem subjects_nodup : rctx.subjects.Nodup := by
  unfold subjects
  cases rctx.apiKeyId <;> cases rctx.userId <;> cases rctx.teamId <;> simp

theorem spends_subjects (places : Place → Bool) (amount : Amount) (turn : Turn) :
    ((rctx.finish turn).map (Effect.spends places amount)).sum =
      ((rctx.subjects.map fun subject => Effect.rollup (rctx.rollup turn.usage subject)).map
        (Effect.spends places amount)).sum := by
  have hCharges : ((rctx.charges turn.usage).map (Effect.spends places amount)).sum = 0 := by
    unfold charges
    split_ifs <;> simp [Effect.spends]
  simp [finish, finishNow, finishLater, hCharges, Effect.spends]

/-- A turn spends for a subject what it costs, on its day. -/
theorem spends_finish {places : Place → Bool} {subject : SubjectType × Id}
    (hPlaces : ∀ p, places p = true → p.1 = subject) (amount : Amount) (turn : Turn) :
    ((rctx.finish turn).map (Effect.spends places amount)).sum =
      if subject ∈ rctx.subjects ∧ places (subject, .day, dayStart rctx.createdAt) = true then
        amount.ofDelta (rctx.rollup turn.usage subject) else 0 := by
  have hEach (other : SubjectType × Id) :
      Effect.spends places amount (.rollup (rctx.rollup turn.usage other)) =
        if other = subject then (if places (subject, .day, dayStart rctx.createdAt) = true then
          amount.ofDelta (rctx.rollup turn.usage subject) else 0) else 0 := by
    have hPlace : place (rctx.rollup turn.usage other) =
        (other, .day, dayStart rctx.createdAt) := rfl
    show (if places (place (rctx.rollup turn.usage other)) = true then
      amount.ofDelta (rctx.rollup turn.usage other) else 0) = _
    rw [hPlace]
    by_cases hSame : other = subject
    · rw [hSame, if_pos rfl]
    · rw [if_neg hSame, if_neg fun h => hSame (hPlaces _ h)]
  rw [spends_subjects, List.map_map, Function.comp_def, funext hEach, Firsts.sum_at rctx.subjects_nodup]
  by_cases hMem : subject ∈ rctx.subjects <;> simp [hMem]

end RecordCtx

end Gateway.Service
