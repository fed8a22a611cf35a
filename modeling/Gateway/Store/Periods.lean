import Gateway.Store.Rows
import Gateway.Text.Calendar

/-! The periods of budgets: when one begins, and what it covers. -/
namespace Gateway.Store

open Calendar Json

namespace Period

def asStr : Period → Str
  | .day => "day".toList
  | .week => "week".toList
  | .month => "month".toList
  | .total => "total".toList

/-- The start of the period of an instant. Weeks begin on Monday. -/
def bucketStart (period : Period) (now : Timestamp) : Timestamp :=
  let date := dateOf (dayOf now)
  match period with
  | .total => 0
  | .day => midnight date.days
  | .month => midnight date.firstOfMonth.days
  | .week => midnight date.days - weekday (dayOf now) * dayLength

/-- The day on which the period of a day begins. -/
def firstDay (period : Period) (day : Int) : Int :=
  match period with
  | .total => epoch
  | .day => day
  | .month => (dateOf day).firstOfMonth.days
  | .week => day - weekday day

variable (period : Period)

theorem bucketStart_eq (now : Timestamp) :
    period.bucketStart now = midnight (period.firstDay (dayOf now)) := by
  cases period with
  | day => exact congrArg midnight (days_dateOf _)
  | month => rfl
  | total => rfl
  | week =>
      show midnight (dateOf (dayOf now)).days - weekday (dayOf now) * dayLength =
        midnight (dayOf now - weekday (dayOf now))
      rw [days_dateOf]
      unfold midnight
      ring

theorem bucketStart_day (now : Timestamp) : Period.day.bucketStart now = dayStart now := by
  rw [bucketStart_eq]
  show midnight (dayOf now) = dayStart now
  unfold midnight dayOf dayStart dayLength
  omega

theorem dayStart_le (now : Timestamp) : dayStart now ≤ now :=
  Int.sub_le_self now (Int.emod_nonneg now (by decide))

theorem firstDay_le {period : Period} (h : period ≠ .total) (day : Int) :
    period.firstDay day ≤ day := by
  cases period with
  | total => exact absurd rfl h
  | day => exact le_refl day
  | week =>
      show day - weekday day ≤ day
      unfold weekday
      omega
  | month =>
      have hDays := days_dateOf day
      have hPos := dateOf_day_pos day
      show (dateOf day).firstOfMonth.days ≤ day
      unfold Date.days Date.firstOfMonth at *
      dsimp only
      omega

/-- A day between the start of a period and a day of it is in the period. -/
theorem firstDay_within {period : Period} {day other : Int} (hFrom : period.firstDay day ≤ other)
    (hTo : other ≤ day) : period.firstDay other = period.firstDay day := by
  cases period with
  | total => rfl
  | day => exact le_antisymm hTo hFrom
  | week =>
      simp only [firstDay, weekday] at *
      omega
  | month =>
      have hFirst : dateOf (firstDay .month day) = (dateOf day).firstOfMonth :=
        dateOf_firstOfMonth day
      have hAfter : (dateOf day).firstOfMonth = dateOf other ∨
          (dateOf day).firstOfMonth.Before (dateOf other) := by
        rw [← hFirst]
        exact hFrom.eq_or_lt.imp (congrArg dateOf) dateOf_before
      have hBefore : dateOf other = dateOf day ∨ (dateOf other).Before (dateOf day) :=
        hTo.eq_or_lt.imp (congrArg dateOf) dateOf_before
      apply congrArg Date.days
      rcases hBefore with hSame | hBefore
      · rw [hSame]
      rcases hAfter with hSame | hAfter
      · rw [← hSame]
        rfl
      unfold Date.Before Date.firstOfMonth at *
      dsimp only at *
      rw [Date.mk.injEq]
      omega

theorem firstDay_firstDay (day : Int) :
    period.firstDay (period.firstDay day) = period.firstDay day := by
  by_cases h : period = .total
  · rw [h]
    rfl
  · exact firstDay_within (le_refl _) (firstDay_le h day)

/-- The start of a period is that of its own period. -/
theorem bucketStart_bucketStart (now : Timestamp) :
    period.bucketStart (period.bucketStart now) = period.bucketStart now := by
  rw [bucketStart_eq, bucketStart_eq, dayOf_midnight, firstDay_firstDay]

/-- An instant is in or after the period exactly when its day is. -/
theorem bucketStart_le_dayStart (now instant : Timestamp) :
    period.bucketStart now ≤ dayStart instant ↔ period.bucketStart now ≤ instant := by
  rw [← bucketStart_day, bucketStart_eq, bucketStart_eq, midnight_le_iff, midnight_le_iff,
    dayOf_midnight]
  exact Iff.rfl

/-- The instants up to now that are not before the current period are in it. -/
theorem bucketStart_eq_iff {period : Period} (h : period ≠ .total) {now earlier : Timestamp}
    (hPast : earlier ≤ now) :
    period.bucketStart earlier = period.bucketStart now ↔ period.bucketStart now ≤ earlier := by
  constructor
  · intro hSame
    rw [← hSame, bucketStart_eq, midnight_le_iff]
    exact firstDay_le h _
  · intro hFrom
    rw [bucketStart_eq, midnight_le_iff] at hFrom
    rw [bucketStart_eq, bucketStart_eq, firstDay_within hFrom (dayOf_mono hPast)]

/-- From 1970 on a period does not begin before the year 0. -/
theorem fourDigits_bucketStart {now : Timestamp} (hFrom : 0 ≤ now)
    (hYear : (dateOf (dayOf now)).year ≤ 9999) : FourDigits (period.bucketStart now) := by
  have hDay : epoch ≤ dayOf now := dayOf_mono hFrom
  have hTo (day : Int) (h : day ≤ dayOf now) : (dateOf day).year ≤ 9999 :=
    (yearOf_mono h).trans hYear
  have hSince (day : Int) (h : epoch - 6 ≤ day) : 0 ≤ (dateOf day).year :=
    le_trans (by decide : 0 ≤ yearOf (epoch - 6)) (yearOf_mono h)
  unfold FourDigits
  rw [bucketStart_eq, dayOf_midnight]
  cases period with
  | total => exact (by decide : FourDigits 0)
  | day => exact ⟨hSince (dayOf now) (by omega), hTo (dayOf now) (le_refl _)⟩
  | week =>
      refine ⟨hSince _ ?_, hTo _ (firstDay_le (by decide) _)⟩
      show epoch - 6 ≤ dayOf now - weekday (dayOf now)
      unfold weekday
      omega
  | month =>
      have hFirst : dateOf (firstDay .month (dayOf now)) = (dateOf (dayOf now)).firstOfMonth :=
        dateOf_firstOfMonth _
      rw [hFirst]
      exact ⟨hSince (dayOf now) (by omega), hTo (dayOf now) (le_refl _)⟩

end Period

end Gateway.Store
