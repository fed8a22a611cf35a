import Gateway.Store.Database
import Mathlib.Algebra.BigOperators.Group.List.Basic

/-! The rows that turns leave: one for each turn, and one for each subject and
day, to which its turns add. -/
namespace Gateway.Store

/-- What both tables count. -/
inductive Amount where
  | cost
  | inputTokens
  | outputTokens

namespace Amount

def ofTurn : Amount → TelemetryRecord → Int
  | cost, t => t.costMicros
  | inputTokens, t => t.inputTokens
  | outputTokens, t => t.outputTokens

def ofDelta : Amount → RollupDelta → Int
  | cost, d => d.spendMicros
  | inputTokens, d => d.inputTokens
  | outputTokens, d => d.outputTokens

def ofDay : Amount → SpendRow → Int
  | cost, r => r.spendMicros
  | inputTokens, r => r.inputTokens
  | outputTokens, r => r.outputTokens

def ofReport : Amount → UsageRow → Int
  | cost, r => r.costMicros
  | inputTokens, r => r.inputTokens
  | outputTokens, r => r.outputTokens

end Amount

/-- The primary key of a day's row. -/
abbrev Place := (SubjectType × Id) × Period × Timestamp

def SpendRow.place (r : SpendRow) : Place :=
  ((r.subjectType, r.subjectId), r.period, r.periodStart)

def place (delta : RollupDelta) : Place :=
  ((delta.subjectType, delta.subjectId), .day, delta.periodStart)

def spendRow (delta : RollupDelta) : SpendRow where
  subjectType := delta.subjectType
  subjectId := delta.subjectId
  period := .day
  periodStart := delta.periodStart
  spendMicros := delta.spendMicros
  requestCount := delta.requestCount
  inputTokens := delta.inputTokens
  outputTokens := delta.outputTokens

def SpendRow.add (r : SpendRow) (delta : RollupDelta) : SpendRow :=
  { r with
    spendMicros := r.spendMicros + delta.spendMicros
    requestCount := r.requestCount + delta.requestCount
    inputTokens := r.inputTokens + delta.inputTokens
    outputTokens := r.outputTokens + delta.outputTokens }

/-- A turn adds to the row of its day, which is made where there is none. -/
def addSpend (delta : RollupDelta) : List SpendRow → List SpendRow
  | [] => [spendRow delta]
  | r :: rest => if r.place = place delta then r.add delta :: rest else r :: addSpend delta rest

/-- The sum of a column over the rows of some places. -/
def sumOver (places : Place → Bool) (amount : Amount) (rows : List SpendRow) : Int :=
  ((rows.filter fun r => places r.place).map amount.ofDay).sum

/-- A column of the row of a place. -/
def amountAt (key : Place) (amount : Amount) (rows : List SpendRow) : Int :=
  ((rows.find? fun r => r.place = key).map amount.ofDay).getD 0

theorem Amount.ofDay_add (amount : Amount) (r : SpendRow) (delta : RollupDelta) :
    amount.ofDay (r.add delta) = amount.ofDay r + amount.ofDelta delta := by
  cases amount <;> rfl

theorem Amount.ofDay_spendRow (amount : Amount) (delta : RollupDelta) :
    amount.ofDay (spendRow delta) = amount.ofDelta delta := by
  cases amount <;> rfl

theorem sumOver_addSpend (places : Place → Bool) (amount : Amount) (delta : RollupDelta)
    (rows : List SpendRow) : sumOver places amount (addSpend delta rows) =
      sumOver places amount rows + if places (place delta) then amount.ofDelta delta else 0 := by
  induction rows with
  | nil =>
      have hPlace : (spendRow delta).place = place delta := rfl
      unfold sumOver addSpend
      by_cases h : places (place delta) = true <;>
        simp [hPlace, h, amount.ofDay_spendRow]
  | cons r rest ih =>
      unfold sumOver at ih ⊢
      rw [addSpend]
      by_cases hHere : r.place = place delta
      · have hPlace : (r.add delta).place = place delta := hHere
        rw [if_pos hHere]
        by_cases h : places (place delta) = true
        · simp [hPlace, hHere, h, amount.ofDay_add]
          ring
        · simp [hPlace, hHere, h]
      · rw [if_neg hHere]
        by_cases h : places r.place = true
        · simp only [h, List.filter_cons_of_pos, List.map_cons, List.sum_cons, ih]
          ring
        · simp only [h, Bool.false_eq_true, not_false_eq_true, List.filter_cons_of_neg, ih]

theorem amountAt_addSpend (key : Place) (amount : Amount) (delta : RollupDelta)
    (rows : List SpendRow) : amountAt key amount (addSpend delta rows) =
      amountAt key amount rows + if place delta = key then amount.ofDelta delta else 0 := by
  induction rows with
  | nil =>
      have hPlace : (spendRow delta).place = place delta := rfl
      unfold amountAt addSpend
      by_cases h : place delta = key <;> simp [hPlace, h, amount.ofDay_spendRow]
  | cons r rest ih =>
      unfold amountAt at ih ⊢
      rw [addSpend]
      by_cases hHere : r.place = place delta
      · have hPlace : (r.add delta).place = place delta := hHere
        rw [if_pos hHere]
        by_cases h : place delta = key <;> simp [hPlace, hHere, h, amount.ofDay_add]
      · rw [if_neg hHere]
        by_cases h : r.place = key
        · have hOther : place delta ≠ key := fun hSame => hHere (h.trans hSame.symm)
          simp [h, hOther]
        · simp [h, ih]

namespace Db

variable (db : Db)

def insertTelemetry (record : TelemetryRecord) : Db :=
  { db with telemetry := db.telemetry ++ [record] }

def upsertRollup (delta : RollupDelta) : Db :=
  { db with spendRollup := addSpend delta db.spendRollup }

/-- The days that a period's spend is the sum of. -/
def daysSince (subjectType : SubjectType) (subjectId : Id) (period : Period)
    (periodStart : Timestamp) (p : Place) : Bool :=
  p.1 = (subjectType, subjectId) && p.2.1 = .day &&
    !decide (ts p.2.2 < ts (period.bucketStart periodStart))

/-- Spend is kept by day; that of a longer period is the sum of the days since it
began. -/
def periodSpend (subjectType : SubjectType) (subjectId : Id) (period : Period)
    (periodStart : Timestamp) : Micros :=
  sumOver (daysSince subjectType subjectId period periodStart) .cost db.spendRollup

end Db

/-! ### The report of a key and a day -/

/-- What a report says of a key and a day, in all its rows. -/
def reported (key : Id) (day : Timestamp) (amount : Amount) (rows : List UsageRow) : Int :=
  ((rows.filter fun r => r.apiKeyId = some key ∧ r.day = dayText day).map amount.ofReport).sum

/-- The turns of a key on a day. -/
def OfDay (key : Id) (day : Timestamp) (t : TelemetryRecord) : Prop :=
  t.apiKeyId = some key ∧ dayStart t.createdAt = dayStart day

instance (key : Id) (day : Timestamp) : DecidablePred (OfDay key day) := fun t =>
  inferInstanceAs (Decidable (t.apiKeyId = some key ∧ dayStart t.createdAt = dayStart day))

section

variable {day start stop : Timestamp}

open Calendar

theorem dayOf_eq_iff (a b : Timestamp) : dayOf a = dayOf b ↔ dayStart a = dayStart b := by
  have hStart (t : Timestamp) : dayStart t = midnight (dayOf t) := by
    rw [← Period.bucketStart_day, Period.bucketStart_eq]
    rfl
  rw [hStart, hStart]
  constructor
  · exact congrArg midnight
  · intro hSame
    rw [← dayOf_midnight (dayOf a), hSame, dayOf_midnight]

theorem dayText_of_fourDigits {instant : Timestamp} (h : FourDigits instant) :
    dayText instant = (dateOf (dayOf instant)).text := by
  have hLength : (dateOf (dayOf instant)).text.length = 10 := by
    unfold FourDigits at h
    unfold Date.text yearText
    rw [if_pos h]
    simp
  unfold dayText ts toRfc3339
  rw [List.take_append_of_le_length (by omega), List.take_of_length_le (by omega)]

/-- A signed year comes before every date without a sign. -/
theorem dayText_signed_lt {instant : Timestamp} (h : ¬ FourDigits instant) (hDay : FourDigits day) :
    dayText instant < dayText day := by
  rw [dayText_of_fourDigits hDay]
  unfold dayText ts toRfc3339 Date.text yearText
  unfold FourDigits at h hDay
  rw [if_neg h, if_pos hDay]
  simp only [List.append_assoc, List.cons_append, List.take_succ_cons]
  split_ifs
  · exact Text.lt_digits_append (by decide) 3 _ _ _
  · exact Text.lt_digits_append (by decide) 3 _ _ _

/-- The dates of two days differ. -/
theorem dayText_eq_iff (hDay : FourDigits day) (instant : Timestamp) :
    dayText instant = dayText day ↔ dayStart instant = dayStart day := by
  rw [← dayOf_eq_iff]
  constructor
  · intro hText
    by_cases hYear : FourDigits instant
    · rw [dayText_of_fourDigits hYear, dayText_of_fourDigits hDay] at hText
      have hBounds (t : Timestamp) (h : FourDigits t) := And.intro h.1 (And.intro h.2 (dateOf_bounds (dayOf t)))
      by_contra hOther
      rcases lt_or_gt_of_ne hOther with hLess | hMore
      · have hLt := Date.text_lt (hBounds _ hYear) (hBounds _ hDay) (dateOf_before hLess) [] []
        rw [hText] at hLt
        exact List.lt_irrefl _ hLt
      · have hLt := Date.text_lt (hBounds _ hDay) (hBounds _ hYear) (dateOf_before hMore) [] []
        rw [hText] at hLt
        exact List.lt_irrefl _ hLt
    · exact absurd (hText ▸ dayText_signed_lt hYear hDay) (List.lt_irrefl _)
  · intro hSame
    have hYear : FourDigits instant := by
      unfold FourDigits
      rwa [hSame]
    rw [dayText_of_fourDigits hYear, dayText_of_fourDigits hDay, hSame]

/-- The turns of a day are in every range that covers it. -/
theorem within_of_day (hDay : FourDigits day) (hStart : start ≤ dayStart day)
    (hStop : dayStart day + dayLength ≤ stop) (hEnd : FourDigits stop) {instant : Timestamp}
    (hSame : dayStart instant = dayStart day) : ¬ ts instant < ts start ∧ ts instant < ts stop := by
  have hYear : FourDigits instant := by
    unfold FourDigits
    rwa [(dayOf_eq_iff _ _).mpr hSame]
  have hFrom : start ≤ instant := hStart.trans (hSame ▸ Period.dayStart_le instant)
  have hTo : instant < stop := by
    have hRest : instant % dayLength < dayLength := Int.emod_lt_of_pos instant (by decide)
    have hInstant : instant = dayStart instant + instant % dayLength := (Int.sub_add_cancel ..).symm
    rw [hSame] at hInstant
    calc instant = dayStart day + instant % dayLength := hInstant
      _ < dayStart day + dayLength := Int.add_lt_add_left hRest _
      _ ≤ stop := hStop
  refine ⟨?_, toRfc3339_lt hYear hEnd hTo⟩
  have hStartYear : (dateOf (dayOf start)).year ≤ 9999 :=
    (yearOf_mono (dayOf_mono hFrom)).trans hYear.2
  rcases hFrom.eq_or_lt with rfl | hLess
  · exact List.lt_irrefl _
  · exact List.lt_asymm ((toRfc3339_lt_iff hStartYear hYear).mpr hLess)

theorem reported_usageRows (hDay : FourDigits day) (hStart : start ≤ dayStart day)
    (hStop : dayStart day + dayLength ≤ stop) (hEnd : FourDigits stop) (key : Id) (amount : Amount)
    (telemetry : List TelemetryRecord) :
    reported key day amount (usageRows telemetry start stop) =
      ((telemetry.filter fun t => OfDay key day t).map amount.ofTurn).sum := by
  let turns := telemetry.filter fun t => ¬ ts t.createdAt < ts start ∧ ts t.createdAt < ts stop
  have hRows (t : TelemetryRecord) : amount.ofReport (usageRow turns t) =
      ((turns.filter (usageGroup · = usageGroup t)).map amount.ofTurn).sum := by
    cases amount <;> rfl
  have hClass (a b : TelemetryRecord) (h : usageGroup a = usageGroup b) :
      decide (OfDay key day a) = decide (OfDay key day b) := by
    have hDays : dayText a.createdAt = dayText b.createdAt := congrArg Prod.fst h
    have hKeys : a.apiKeyId = b.apiKeyId := congrArg (fun g => g.2.1) h
    apply decide_eq_decide.mpr
    unfold OfDay
    rw [hKeys, ← dayText_eq_iff hDay, ← dayText_eq_iff hDay, hDays]
  have hOfDay (t : TelemetryRecord) :
      decide ((usageRow turns t).apiKeyId = some key ∧ (usageRow turns t).day = dayText day) =
        decide (OfDay key day t) := by
    apply decide_eq_decide.mpr
    unfold OfDay
    rw [← dayText_eq_iff hDay]
    exact Iff.rfl
  calc reported key day amount (usageRows telemetry start stop)
      = ((((Firsts.fresh usageGroup [] turns).map (usageRow turns)).filter fun r =>
          r.apiKeyId = some key ∧ r.day = dayText day).map amount.ofReport).sum :=
        (((List.perm_insertionSort _ _).filter _).map _).sum_eq
    _ = (((Firsts.fresh usageGroup [] turns).filter fun t => OfDay key day t).map fun t =>
          ((turns.filter (usageGroup · = usageGroup t)).map amount.ofTurn).sum).sum := by
        rw [List.filter_map, List.map_map]
        simp only [Function.comp_def, hOfDay, hRows]
    _ = ((turns.filter fun t => OfDay key day t).map amount.ofTurn).sum :=
        Firsts.sum_fresh hClass amount.ofTurn turns
    _ = ((telemetry.filter fun t => OfDay key day t).map amount.ofTurn).sum := by
        rw [List.filter_filter]
        congr 2
        apply List.filter_congr
        intro t _
        by_cases h : OfDay key day t
        · have hWithin := within_of_day hDay hStart hStop hEnd h.2
          simp [h, hWithin.1, hWithin.2]
        · simp [h]

/-- A report that ends after the year 9999 is empty. -/
theorem usageRows_signed_end {telemetry : List TelemetryRecord}
    (hYears : ∀ t ∈ telemetry, FourDigits t.createdAt) (hEnd : ¬ FourDigits stop) :
    usageRows telemetry start stop = [] := by
  have hNone : (telemetry.filter fun t =>
      ¬ ts t.createdAt < ts start ∧ ts t.createdAt < ts stop) = [] := by
    apply List.filter_eq_nil_iff.mpr
    intro t ht
    have hLess : ts stop < ts t.createdAt := toRfc3339_signed_lt hEnd (hYears t ht)
    simp [List.lt_asymm hLess]
  unfold usageRows
  rw [hNone]
  rfl

end

end Gateway.Store
