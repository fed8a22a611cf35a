import Gateway.Text.Calendar

/-! Points in time as the program keeps them, with the seconds that are inserted
now and then, and their text as bytes. -/
namespace Calendar

/-- A point in time in one of the years that are written without a sign. In the last
second of a minute the nanoseconds may run on into an inserted one. -/
structure Utc where
  seconds : Int
  nanos : Nat
  inserted : nanos < 1000000000 ∨ seconds % 60 = 59 ∧ nanos < 2000000000
  fourDigits : 0 ≤ (dateOf (seconds / 86400 + epoch)).year ∧
    (dateOf (seconds / 86400 + epoch)).year ≤ 9999

namespace Utc

def day (u : Utc) : Int := u.seconds / 86400 + epoch

/-- The seconds since midnight. -/
def clock (u : Utc) : Nat := (u.seconds % 86400).toNat

/-- An inserted second comes after the one that it belongs to. -/
def Before (a b : Utc) : Prop :=
  a.seconds < b.seconds ∨ a.seconds = b.seconds ∧ a.nanos < b.nanos

instance (a b : Utc) : Decidable (a.Before b) :=
  inferInstanceAs (Decidable (a.seconds < b.seconds ∨ a.seconds = b.seconds ∧ a.nanos < b.nanos))

theorem before_trichotomy (a b : Utc) : a.Before b ∨ a = b ∨ b.Before a := by
  unfold Before
  rcases lt_trichotomy a.seconds b.seconds with hLess | hSame | hMore
  · exact .inl (.inl hLess)
  · rcases lt_trichotomy a.nanos b.nanos with hLess | hNanos | hMore
    · exact .inl (.inr ⟨hSame, hLess⟩)
    · cases a
      cases b
      exact .inr (.inl (by simp_all))
    · exact .inr (.inr (.inr ⟨hSame.symm, hMore⟩))
  · exact .inr (.inr (.inl hMore))

theorem not_before_self (a : Utc) : ¬a.Before a := by
  unfold Before
  omega

theorem before_asymm {a b : Utc} (h : a.Before b) : ¬b.Before a := by
  unfold Before at *
  omega

end Utc

/-- The time of a day, where a minute may have a sixty-first second. -/
def clockText (clock nanos : Nat) : List Char :=
  Text.digits 2 (clock / 3600) ++ ':' :: (Text.digits 2 (clock / 60 % 60) ++
    ':' :: (Text.digits 2 (clock % 60 + nanos / 1000000000) ++
      (fraction (nanos % 1000000000) ++ "+00:00".toList)))

def Utc.toRfc3339 (u : Utc) : List Char := (dateOf u.day).text ++ 'T' :: clockText u.clock u.nanos

/-- Without inserted seconds it is the text of the nanoseconds since 1970. -/
theorem Utc.toRfc3339_eq (u : Utc) (h : u.nanos < 1000000000) :
    u.toRfc3339 = Calendar.toRfc3339 (u.seconds * 1000000000 + u.nanos) := by
  have hDay : dayOf (u.seconds * 1000000000 + u.nanos) = u.day := by
    unfold dayOf dayLength day
    omega
  have hClock : sinceMidnight (u.seconds * 1000000000 + u.nanos) =
      u.clock * 1000000000 + u.nanos := by
    unfold sinceMidnight dayLength clock
    omega
  unfold Utc.toRfc3339 Calendar.toRfc3339 timeText clockText
  dsimp only
  rw [hDay, hClock, show (u.clock * 1000000000 + u.nanos) / 1000000000 = u.clock by omega,
    show (u.clock * 1000000000 + u.nanos) % 1000000000 = u.nanos % 1000000000 by omega,
    show u.nanos / 1000000000 = 0 by omega, Nat.add_zero]

/-! ### The order of the texts -/

theorem clockText_lt {m n a b : Nat} (hm : a < 1000000000 ∨ m % 60 = 59 ∧ a < 2000000000)
    (hn : b < 1000000000 ∨ n % 60 = 59 ∧ b < 2000000000) (hDay : m < 86400 ∧ n < 86400)
    (h : m < n ∨ m = n ∧ a < b) : clockText m a < clockText n b := by
  unfold clockText
  rw [Text.append_lt_append_iff _ _ (by simp), Text.digits_lt_iff (by omega) (by omega),
    Text.digits_inj (by omega) (by omega), List.cons_lt_cons_self,
    Text.append_lt_append_iff _ _ (by simp), Text.digits_lt_iff (by omega) (by omega),
    Text.digits_inj (by omega) (by omega), List.cons_lt_cons_self,
    Text.append_lt_append_iff _ _ (by simp), Text.digits_lt_iff (by omega) (by omega),
    Text.digits_inj (by omega) (by omega)]
  rcases h with hClock | ⟨rfl, hNanos⟩
  · -- A later second of the same minute is not the one that runs on.
    omega
  · refine .inr ⟨rfl, .inr ⟨rfl, ?_⟩⟩
    by_cases hSecond : a / 1000000000 = b / 1000000000
    · exact .inr ⟨by rw [hSecond], fraction_lt (by omega) (by omega)⟩
    · exact .inl (by omega)

namespace Utc

theorem toRfc3339_lt {a b : Utc} (h : a.Before b) : a.toRfc3339 < b.toRfc3339 := by
  have hSeconds : a.seconds ≤ b.seconds := by
    unfold Before at h
    omega
  have hMono : a.day ≤ b.day := by
    unfold day
    omega
  rcases hMono.lt_or_eq with hDay | hDay
  · exact Date.text_lt ⟨a.fourDigits.1, a.fourDigits.2, dateOf_bounds _⟩
      ⟨b.fourDigits.1, b.fourDigits.2, dateOf_bounds _⟩ (dateOf_before hDay) _ _
  · have hA := a.inserted
    have hB := b.inserted
    unfold Utc.toRfc3339
    rw [hDay, Text.append_lt_append_iff _ _ rfl]
    refine .inr ⟨rfl, List.cons_lt_cons_self.mpr (clockText_lt ?_ ?_ ?_ ?_)⟩ <;>
      unfold day at hDay <;> unfold clock <;> unfold Before at h <;> omega

/-- The order of the texts is that of the points in time. -/
theorem toRfc3339_lt_iff {a b : Utc} : a.toRfc3339 < b.toRfc3339 ↔ a.Before b := by
  rcases before_trichotomy a b with h | rfl | h
  · exact iff_of_true (toRfc3339_lt h) h
  · exact iff_of_false (List.lt_irrefl _) (not_before_self a)
  · exact iff_of_false (List.lt_asymm (toRfc3339_lt h)) (before_asymm h)

end Utc

end Calendar
