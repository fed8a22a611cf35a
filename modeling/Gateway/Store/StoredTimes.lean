import Gateway.Store.Database
import Gateway.Text.Utc

/-! Times in their columns. A statement compares the texts that were written, byte by
byte; the rows it selects are those that the times select. -/
namespace Gateway.Store

open Calendar Json

/-- A time as its column holds it. -/
def stored (t : Utc) : List UInt8 := Text.toUtf8 t.toRfc3339

theorem ascii_digits (width n : Nat) : ∀ c ∈ Text.digits width n, c.toNat < 0x80 := by
  induction width generalizing n with
  | zero => exact fun c hc => absurd hc List.not_mem_nil
  | succ width ih =>
      have hDigit : ∀ d < 10, (Nat.digitChar d).toNat < 0x80 := by decide
      rw [Text.digits, List.forall_mem_append]
      refine ⟨ih _, fun c hc => ?_⟩
      obtain rfl := List.mem_singleton.mp hc
      exact hDigit _ (Nat.mod_lt n (by decide))

theorem ascii_zone : ∀ c ∈ "+00:00".toList, c.toNat < 0x80 := by
  simp

theorem ascii_fraction (nanos : Nat) : ∀ c ∈ fraction nanos, c.toNat < 0x80 := by
  unfold fraction
  split_ifs
  · exact fun c hc => absurd hc List.not_mem_nil
  all_goals exact List.forall_mem_cons.mpr ⟨by decide, ascii_digits _ _⟩

theorem ascii_toRfc3339 (t : Utc) : ∀ c ∈ t.toRfc3339, c.toNat < 0x80 := by
  unfold Utc.toRfc3339 Date.text yearText clockText
  rw [if_pos (show 0 ≤ (dateOf t.day).year ∧ (dateOf t.day).year ≤ 9999 from t.fourDigits)]
  simp only [List.forall_mem_append, List.forall_mem_cons]
  exact ⟨⟨ascii_digits _ _, by decide, ascii_digits _ _, by decide, ascii_digits _ _⟩, by decide,
    ascii_digits _ _, by decide, ascii_digits _ _, by decide, ascii_digits _ _,
    ascii_fraction _, ascii_zone⟩

theorem stored_lt_iff {a b : Utc} : stored a < stored b ↔ a.Before b := by
  unfold stored
  rw [Text.toUtf8_lt_iff (ascii_toRfc3339 a) (ascii_toRfc3339 b), Utc.toRfc3339_lt_iff]

/-- The columns of other tables are written in the same way. -/
theorem stored_eq_ts (t : Utc) (h : t.nanos < 1000000000) :
    stored t = Text.toUtf8 (ts (t.seconds * 1000000000 + t.nanos)) :=
  congrArg Text.toUtf8 (t.toRfc3339_eq h)

/-! ### The statements -/

/-- A row of a table: its time, which the column holds as text, and the rest. -/
structure Timed (α : Type) where
  time : Utc
  columns : α

def Timed.cell {α : Type} (r : Timed α) : List UInt8 := stored r.time

/-- The session of a token that has not expired. -/
def selectSession (sessions : List (Timed (Str × Id))) (token : Str) (now : Utc) :
    Option (Timed (Str × Id)) :=
  sessions.find? fun r => r.columns.1 == token && decide (stored now < r.cell)

/-- The days of a subject that a period's spend is the sum of. -/
def selectDays (rollup : List (Timed SpendRow)) (subjectType : SubjectType) (subjectId : Id)
    (start : Utc) : List (Timed SpendRow) :=
  rollup.filter fun r => r.columns.subjectType = subjectType ∧ r.columns.subjectId = subjectId ∧
    r.columns.period = .day ∧ ¬r.cell < stored start

/-- The turns that a report is made of. -/
def selectTurns (telemetry : List (Timed TelemetryRecord)) (start stop : Utc) :
    List (Timed TelemetryRecord) :=
  telemetry.filter fun r => ¬r.cell < stored start ∧ r.cell < stored stop

/-- The bytes of two columns are in the order of their times, and what a statement
selects by them is what the times select. -/
theorem stored_selects :
    (∀ a b : Utc, stored a < stored b ↔ a.Before b) ∧
    (∀ sessions token now, selectSession sessions token now =
      sessions.find? fun r => r.columns.1 == token && decide (now.Before r.time)) ∧
    (∀ rollup subjectType subjectId start, selectDays rollup subjectType subjectId start =
      rollup.filter fun r => r.columns.subjectType = subjectType ∧
        r.columns.subjectId = subjectId ∧ r.columns.period = .day ∧ ¬r.time.Before start) ∧
    ∀ telemetry start stop, selectTurns telemetry start stop =
      telemetry.filter fun r => ¬r.time.Before start ∧ r.time.Before stop := by
  refine ⟨fun _ _ => stored_lt_iff, fun sessions token now => ?_, fun rollup _ _ start => ?_,
    fun telemetry start stop => ?_⟩
  · unfold selectSession Timed.cell
    simp only [stored_lt_iff]
  · unfold selectDays Timed.cell
    simp only [stored_lt_iff]
  · unfold selectTurns Timed.cell
    simp only [stored_lt_iff]

end Gateway.Store
