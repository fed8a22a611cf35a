import Gateway.Text.Digits
import Mathlib.Tactic.Ring

/-! The Gregorian calendar, also before it was adopted. Days are counted from the
first day of the year 0. -/
namespace Calendar

def isLeap (year : Int) : Bool := year % 4 = 0 && (year % 100 ≠ 0 || year % 400 = 0)

/-- The days before the first of January. -/
def daysBefore (year : Int) : Int :=
  365 * year + (year + 3) / 4 - (year + 99) / 100 + (year + 399) / 400

def monthLengths (year : Int) : List Nat :=
  [31, if isLeap year then 29 else 28, 31, 30, 31, 30, 31, 31, 30, 31, 30, 31]

theorem daysBefore_succ (year : Int) :
    daysBefore (year + 1) = daysBefore year + (monthLengths year).sum := by
  have hLength : ((monthLengths year).sum : Int) = if isLeap year then 366 else 365 := by
    unfold monthLengths
    cases isLeap year <;> rfl
  rw [hLength]
  unfold daysBefore isLeap
  simp only [Bool.and_eq_true, Bool.or_eq_true, decide_eq_true_eq]
  split <;> omega

theorem daysBefore_mono {a b : Int} (h : a ≤ b) : daysBefore a ≤ daysBefore b := by
  unfold daysBefore
  omega

/-- The year of a day, from the mean length of a year. -/
def yearOf (day : Int) : Int :=
  let year := day * 400 / 146097
  if day < daysBefore year then year - 1 else if daysBefore (year + 1) ≤ day then year + 1 else year

theorem yearOf_bounds (day : Int) :
    daysBefore (yearOf day) ≤ day ∧ day < daysBefore (yearOf day + 1) := by
  unfold yearOf daysBefore
  dsimp only
  split_ifs
  · rw [Int.sub_add_cancel]
    omega
  · omega
  · omega

theorem yearOf_mono {a b : Int} (h : a ≤ b) : yearOf a ≤ yearOf b := by
  by_contra hLess
  have hYears := daysBefore_mono (Int.add_one_le_of_lt (not_le.mp hLess))
  have hA := (yearOf_bounds a).1
  have hB := (yearOf_bounds b).2
  omega

/-! ### Months -/

/-- The month of a day, and its day, where both are counted from one. -/
def monthDay : List Nat → Nat → Nat × Nat
  | [], day => (1, day + 1)
  | length :: rest, day =>
      if day < length then (1, day + 1)
      else ((monthDay rest (day - length)).1 + 1, (monthDay rest (day - length)).2)

/-- The days before a month. -/
def monthStart (lengths : List Nat) (month : Nat) : Nat := (lengths.take (month - 1)).sum

theorem monthDay_pos (lengths : List Nat) (day : Nat) :
    0 < (monthDay lengths day).1 ∧ 0 < (monthDay lengths day).2 := by
  induction lengths generalizing day with
  | nil => simp [monthDay]
  | cons length rest ih =>
      rw [monthDay]
      split_ifs
      · simp
      · exact ⟨Nat.succ_pos _, (ih _).2⟩

theorem monthStart_cons (length : Nat) (rest : List Nat) {month : Nat} (h : 0 < month) :
    monthStart (length :: rest) (month + 1) = length + monthStart rest month := by
  obtain ⟨month, rfl⟩ := Nat.exists_eq_succ_of_ne_zero h.ne'
  simp [monthStart]

theorem monthStart_monthDay (lengths : List Nat) (day : Nat) :
    monthStart lengths (monthDay lengths day).1 + (monthDay lengths day).2 = day + 1 := by
  induction lengths generalizing day with
  | nil => simp [monthDay, monthStart]
  | cons length rest ih =>
      rw [monthDay]
      split_ifs with h
      · simp [monthStart]
      · rw [monthStart_cons _ _ (monthDay_pos rest _).1, Nat.add_assoc, ih]
        omega

/-- The first of the month of a day is the first of that month. -/
theorem monthDay_first (lengths : List Nat) (day : Nat) :
    monthDay lengths (monthStart lengths (monthDay lengths day).1) =
      ((monthDay lengths day).1, 1) := by
  induction lengths generalizing day with
  | nil => simp [monthDay, monthStart]
  | cons length rest ih =>
      by_cases h : day < length
      · have hMonth : monthDay (length :: rest) day = (1, day + 1) := by rw [monthDay, if_pos h]
        have hStart : monthStart (length :: rest) 1 = 0 := rfl
        rw [hMonth, hStart, monthDay, if_pos (by omega)]
      · have hMonth : monthDay (length :: rest) day =
            ((monthDay rest (day - length)).1 + 1, (monthDay rest (day - length)).2) := by
          rw [monthDay, if_neg h]
        rw [hMonth, monthStart_cons _ _ (monthDay_pos rest _).1, monthDay, if_neg (by omega),
          Nat.add_sub_cancel_left, ih]

theorem monthDay_lt (lengths : List Nat) {a b : Nat} (h : a < b) :
    (monthDay lengths a).1 < (monthDay lengths b).1 ∨
      (monthDay lengths a).1 = (monthDay lengths b).1 ∧
        (monthDay lengths a).2 < (monthDay lengths b).2 := by
  induction lengths generalizing a b with
  | nil => exact .inr ⟨rfl, Nat.succ_lt_succ h⟩
  | cons length rest ih =>
      rw [monthDay, monthDay]
      split_ifs with hA hB hB
      · exact .inr ⟨rfl, Nat.succ_lt_succ h⟩
      · exact .inl (Nat.succ_lt_succ (monthDay_pos rest _).1)
      · omega
      · rcases ih (a := a - length) (b := b - length) (by omega) with hMonth | ⟨hMonth, hDay⟩
        · exact .inl (Nat.succ_lt_succ hMonth)
        · exact .inr ⟨congrArg Nat.succ hMonth, hDay⟩

theorem monthDay_le (lengths : List Nat) {day bound : Nat} (hDay : day < lengths.sum)
    (hBound : ∀ length ∈ lengths, length ≤ bound) :
    (monthDay lengths day).1 ≤ lengths.length ∧ (monthDay lengths day).2 ≤ bound := by
  induction lengths generalizing day with
  | nil => simp at hDay
  | cons length rest ih =>
      have hFirst := hBound length List.mem_cons_self
      rw [List.sum_cons] at hDay
      rw [monthDay]
      split_ifs with h
      · simp only [List.length_cons]
        omega
      · have hRest : (monthDay rest (day - length)).1 ≤ rest.length ∧
            (monthDay rest (day - length)).2 ≤ bound :=
          ih (by omega) fun l hl => hBound l (List.mem_cons_of_mem length hl)
        exact ⟨Nat.succ_le_succ hRest.1, hRest.2⟩

/-! ### Dates -/

structure Date where
  year : Int
  month : Nat
  day : Nat
  deriving DecidableEq

def Date.Before (a b : Date) : Prop :=
  a.year < b.year ∨ a.year = b.year ∧ (a.month < b.month ∨ a.month = b.month ∧ a.day < b.day)

/-- The days before a date. -/
def Date.days (date : Date) : Int :=
  daysBefore date.year + monthStart (monthLengths date.year) date.month + date.day - 1

def Date.firstOfMonth (date : Date) : Date := { date with day := 1 }

def dateOf (day : Int) : Date :=
  let year := yearOf day
  let (month, ofMonth) := monthDay (monthLengths year) (day - daysBefore year).toNat
  ⟨year, month, ofMonth⟩

theorem dateOf_eq (day : Int) : dateOf day = ⟨yearOf day,
    (monthDay (monthLengths (yearOf day)) (day - daysBefore (yearOf day)).toNat).1,
    (monthDay (monthLengths (yearOf day)) (day - daysBefore (yearOf day)).toNat).2⟩ := rfl

theorem days_dateOf (day : Int) : (dateOf day).days = day := by
  have hYear := (yearOf_bounds day).1
  have hMonth := monthStart_monthDay (monthLengths (yearOf day)) (day - daysBefore (yearOf day)).toNat
  unfold dateOf Date.days
  dsimp only
  omega

theorem dateOf_before {a b : Int} (h : a < b) : (dateOf a).Before (dateOf b) := by
  rcases (yearOf_mono h.le).lt_or_eq with hYear | hYear
  · exact .inl hYear
  · refine .inr ⟨hYear, ?_⟩
    have hA := (yearOf_bounds a).1
    unfold dateOf
    dsimp only
    rw [hYear] at hA ⊢
    exact monthDay_lt _ (by omega)

theorem dateOf_bounds (day : Int) : (dateOf day).month ≤ 12 ∧ (dateOf day).day ≤ 31 := by
  have hYear := yearOf_bounds day
  rw [daysBefore_succ] at hYear
  apply monthDay_le (monthLengths (yearOf day)) (by omega)
  intro length hLength
  simp only [monthLengths, List.mem_cons, List.not_mem_nil, or_false] at hLength
  have hFebruary : (if isLeap (yearOf day) then 29 else 28) ≤ 31 := by split_ifs <;> decide
  omega

theorem dateOf_day_pos (day : Int) : 0 < (dateOf day).day :=
  (monthDay_pos (monthLengths (yearOf day)) (day - daysBefore (yearOf day)).toNat).2

theorem yearOf_eq {day year : Int} (h : daysBefore year ≤ day ∧ day < daysBefore (year + 1)) :
    yearOf day = year := by
  have hBounds := yearOf_bounds day
  by_contra hOther
  rcases lt_or_gt_of_ne hOther with hLess | hMore
  · have hYears := daysBefore_mono (Int.add_one_le_of_lt hLess)
    omega
  · have hYears := daysBefore_mono (Int.add_one_le_of_lt hMore)
    omega

/-- The first of a month is a date of its own. -/
theorem dateOf_firstOfMonth (day : Int) :
    dateOf (dateOf day).firstOfMonth.days = (dateOf day).firstOfMonth := by
  have hBounds := yearOf_bounds day
  have hMonth := monthStart_monthDay (monthLengths (yearOf day)) (day - daysBefore (yearOf day)).toNat
  have hPos := (monthDay_pos (monthLengths (yearOf day)) (day - daysBefore (yearOf day)).toNat).2
  have hDays : (dateOf day).firstOfMonth.days = daysBefore (yearOf day) +
      monthStart (monthLengths (yearOf day)) (dateOf day).month := by
    simp [Date.firstOfMonth, Date.days, dateOf]
  have hYear : yearOf (dateOf day).firstOfMonth.days = yearOf day := by
    apply yearOf_eq
    rw [hDays]
    unfold dateOf
    dsimp only
    omega
  have hFirst := monthDay_first (monthLengths (yearOf day)) (day - daysBefore (yearOf day)).toNat
  have hArg : ((dateOf day).firstOfMonth.days - daysBefore (yearOf day)).toNat =
      monthStart (monthLengths (yearOf day)) (dateOf day).month := by
    rw [hDays]
    omega
  rw [dateOf_eq, hYear, hArg]
  exact congrArg (fun m : Nat × Nat => Date.mk (yearOf day) m.1 m.2) hFirst

/-! ### Instants -/

/-- The nanoseconds of a day. -/
def dayLength : Int := 86400000000000

/-- The first day of 1970, from which instants are counted. -/
def epoch : Int := 719528

def dayOf (instant : Int) : Int := instant / dayLength + epoch

def midnight (day : Int) : Int := (day - epoch) * dayLength

def sinceMidnight (instant : Int) : Nat := (instant % dayLength).toNat

/-- The days from the last Monday on. -/
def weekday (day : Int) : Int := (day + 5) % 7

/-! ### Instants as text -/

def yearText (year : Int) : List Char :=
  if 0 ≤ year ∧ year ≤ 9999 then Text.digits 4 year.toNat
  else
    let number := Nat.toDigits 10 year.natAbs
    (if year < 0 then '-' else '+') :: (List.replicate (4 - number.length) '0' ++ number)

def Date.text (date : Date) : List Char :=
  yearText date.year ++ '-' :: (Text.digits 2 date.month ++ '-' :: Text.digits 2 date.day)

/-- As many groups of three digits as it takes. -/
def fraction (nanos : Nat) : List Char :=
  if nanos = 0 then []
  else if nanos % 1000000 = 0 then '.' :: Text.digits 3 (nanos / 1000000)
  else if nanos % 1000 = 0 then '.' :: Text.digits 6 (nanos / 1000)
  else '.' :: Text.digits 9 nanos

def timeText (nanos : Nat) : List Char :=
  let seconds := nanos / 1000000000
  Text.digits 2 (seconds / 3600) ++ ':' :: (Text.digits 2 (seconds / 60 % 60) ++
    ':' :: (Text.digits 2 (seconds % 60) ++ (fraction (nanos % 1000000000) ++ "+00:00".toList)))

def toRfc3339 (instant : Int) : List Char :=
  (dateOf (dayOf instant)).text ++ 'T' :: timeText (sinceMidnight instant)

/-- The year is written without a sign. -/
def FourDigits (instant : Int) : Prop :=
  0 ≤ (dateOf (dayOf instant)).year ∧ (dateOf (dayOf instant)).year ≤ 9999

instance (instant : Int) : Decidable (FourDigits instant) :=
  inferInstanceAs (Decidable (0 ≤ (dateOf (dayOf instant)).year ∧
    (dateOf (dayOf instant)).year ≤ 9999))

theorem Date.text_lt {a b : Date} (hA : 0 ≤ a.year ∧ a.year ≤ 9999 ∧ a.month ≤ 12 ∧ a.day ≤ 31)
    (hB : 0 ≤ b.year ∧ b.year ≤ 9999 ∧ b.month ≤ 12 ∧ b.day ≤ 31) (h : a.Before b)
    (s t : List Char) : a.text ++ s < b.text ++ t := by
  unfold text yearText
  rw [if_pos (by omega), if_pos (by omega)]
  simp only [List.append_assoc, List.cons_append]
  rw [Text.append_lt_append_iff _ _ (by simp), Text.digits_lt_iff (by omega) (by omega),
    Text.digits_inj (by omega) (by omega), List.cons_lt_cons_self,
    Text.append_lt_append_iff _ _ (by simp), Text.digits_lt_iff (by omega) (by omega),
    Text.digits_inj (by omega) (by omega), List.cons_lt_cons_self,
    Text.append_lt_append_iff _ _ (by simp), Text.digits_lt_iff (by omega) (by omega)]
  rcases h with hYear | ⟨hYear, hMonth | ⟨hMonth, hDay⟩⟩
  · exact .inl (by omega)
  · exact .inr ⟨by omega, .inl hMonth⟩
  · exact .inr ⟨by omega, .inr ⟨hMonth, .inl hDay⟩⟩

theorem fraction_lt {m n : Nat} (h : m < n) (hn : n < 1000000000) :
    fraction m ++ "+00:00".toList < fraction n ++ "+00:00".toList := by
  have hPlus : ∀ d < 10, '+' < Nat.digitChar d := by decide
  have hZone : "+00:00".toList = '+' :: "00:00".toList := rfl
  unfold fraction
  rw [hZone, if_neg (by omega : n ≠ 0)]
  by_cases hZero : m = 0
  · rw [if_pos hZero]
    split_ifs <;> exact List.cons_lt_cons_iff.mpr (.inl (by decide))
  rw [if_neg hZero]
  split_ifs with hM hN hN' hM' hN hN' hN hN' <;>
    simp only [List.cons_append, List.cons_lt_cons_self]
  · rw [Text.append_lt_append_iff _ _ (by simp), Text.digits_lt_iff (by omega) (by omega)]
    omega
  · exact Text.shorter_lt 3 2 _ hPlus (by omega) (by omega) (by omega)
  · exact Text.shorter_lt 3 5 _ hPlus (by omega) (by omega) (by omega)
  · exact Text.longer_lt 3 3 _ (by omega) (by omega) (by omega)
  · rw [Text.append_lt_append_iff _ _ (by simp), Text.digits_lt_iff (by omega) (by omega)]
    omega
  · exact Text.shorter_lt 6 2 _ hPlus (by omega) (by omega) (by omega)
  · exact Text.longer_lt 3 6 _ (by omega) (by omega) (by omega)
  · exact Text.longer_lt 6 3 _ (by omega) (by omega) (by omega)
  · rw [Text.append_lt_append_iff _ _ (by simp), Text.digits_lt_iff (by omega) (by omega)]
    omega

theorem timeText_lt {m n : Nat} (h : m < n) (hn : n < 86400000000000) :
    timeText m < timeText n := by
  unfold timeText
  dsimp only
  rw [Text.append_lt_append_iff _ _ (by simp), Text.digits_lt_iff (by omega) (by omega),
    Text.digits_inj (by omega) (by omega), List.cons_lt_cons_self,
    Text.append_lt_append_iff _ _ (by simp), Text.digits_lt_iff (by omega) (by omega),
    Text.digits_inj (by omega) (by omega), List.cons_lt_cons_self,
    Text.append_lt_append_iff _ _ (by simp), Text.digits_lt_iff (by omega) (by omega),
    Text.digits_inj (by omega) (by omega)]
  by_cases hSecond : m / 1000000000 = n / 1000000000
  · refine .inr ⟨by rw [hSecond], .inr ⟨by rw [hSecond], .inr ⟨by rw [hSecond], ?_⟩⟩⟩
    exact fraction_lt (by omega) (by omega)
  · omega

theorem dayOf_mono {a b : Int} (h : a ≤ b) : dayOf a ≤ dayOf b := by
  unfold dayOf dayLength
  omega

theorem toRfc3339_lt {a b : Int} (hA : FourDigits a) (hB : FourDigits b) (h : a < b) :
    toRfc3339 a < toRfc3339 b := by
  unfold toRfc3339
  rcases (dayOf_mono h.le).lt_or_eq with hDay | hDay
  · exact Date.text_lt ⟨hA.1, hA.2, dateOf_bounds _⟩ ⟨hB.1, hB.2, dateOf_bounds _⟩
      (dateOf_before hDay) _ _
  · rw [hDay, Text.append_lt_append_iff _ _ rfl]
    refine .inr ⟨rfl, List.cons_lt_cons_self.mpr (timeText_lt ?_ ?_)⟩ <;>
      unfold sinceMidnight <;> unfold dayOf at hDay <;> unfold dayLength at * <;> omega

/-- A year with a sign comes before every year without. -/
theorem toRfc3339_signed_lt {a b : Int} (hA : ¬ FourDigits a) (hB : FourDigits b) :
    toRfc3339 a < toRfc3339 b := by
  unfold FourDigits at hA hB
  unfold toRfc3339 Date.text yearText
  rw [if_neg hA, if_pos hB]
  simp only [List.append_assoc, List.cons_append]
  split_ifs
  · exact Text.lt_digits_append (by decide) 3 _ _ _
  · exact Text.lt_digits_append (by decide) 3 _ _ _

/-- Up to the year 9999 the order of the texts is that of the instants. -/
theorem toRfc3339_lt_iff {a b : Int} (hA : (dateOf (dayOf a)).year ≤ 9999) (hB : FourDigits b) :
    toRfc3339 a < toRfc3339 b ↔ a < b := by
  by_cases hYear : 0 ≤ (dateOf (dayOf a)).year
  · rcases lt_trichotomy a b with h | rfl | h
    · exact iff_of_true (toRfc3339_lt ⟨hYear, hA⟩ hB h) h
    · exact iff_of_false (List.lt_irrefl _) (lt_irrefl _)
    · exact iff_of_false (List.lt_asymm (toRfc3339_lt hB ⟨hYear, hA⟩ h)) (lt_asymm h)
  · refine iff_of_true (toRfc3339_signed_lt (fun h => hYear h.1) hB) ?_
    by_contra hLater
    have hYears : (dateOf (dayOf b)).year ≤ (dateOf (dayOf a)).year :=
      yearOf_mono (dayOf_mono (not_lt.mp hLater))
    have hPositive := hB.1
    omega

@[simp] theorem dayOf_midnight (day : Int) : dayOf (midnight day) = day := by
  unfold dayOf midnight dayLength
  omega

/-- A midnight is no later than an instant where its day is none later. -/
theorem midnight_le_iff (day instant : Int) : midnight day ≤ instant ↔ day ≤ dayOf instant := by
  unfold midnight dayOf dayLength
  omega

end Calendar
