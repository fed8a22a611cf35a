import Gateway.Service.Ledger

/-! Budgets. What is spent in the current period of a budget is what the turns in
it cost, and a request is turned away when that has reached a limit. -/
namespace Gateway.Server

open Calendar Json Service Store

/-- The loop's body: an enabled blocking budget whose period's spend has reached
its limit ends it. -/
def checkBudget (db : Db) (now : Timestamp) (b : BudgetRow) : Except Error Unit :=
  if !b.enabled || b.action ≠ .block then .ok ()
  else
    let spent := db.periodSpend b.subjectType b.subjectId b.period (b.period.bucketStart now)
    if b.hardLimitMicros ≤ spent then
      .error (.budgetExceeded (b.period.asStr ++ " budget for ".toList ++ b.subjectType.asStr ++
        " exhausted (".toList ++ (toString spent).toList ++ " / ".toList ++
        (toString b.hardLimitMicros).toList ++ " micros)".toList))
    else .ok ()

/-- The budgets of the key, of its owner and of its team, one after the other. -/
def enforceBudgets (db : Db) (key : ApiKeyRow) (now : Timestamp) : Except Error Unit :=
  forM (db.listBudgets .key key.id ++ db.listBudgets .user key.ownerUserId ++
    match key.teamId with
    | some teamId => db.listBudgets .team teamId
    | none => []) (checkBudget db now)

/-- The subjects whose budgets count for a key. -/
def budgetSubjects (key : ApiKeyRow) : List (SubjectType × Id) :=
  [(.key, key.id), (.user, key.ownerUserId)] ++ (key.teamId.map (SubjectType.team, ·)).toList

/-- A live budget of a subject. -/
def HasBudget (db : Db) (subject : SubjectType × Id) (b : BudgetRow) : Prop :=
  b ∈ db.budgets.rows ∧ (b.subjectType, b.subjectId) = subject ∧ b.deletedAt = none

theorem mem_listBudgets {db : Db} {subjectType : SubjectType} {subjectId : Id} {b : BudgetRow} :
    b ∈ db.listBudgets subjectType subjectId ↔ HasBudget db (subjectType, subjectId) b := by
  unfold Db.listBudgets orderBy HasBudget
  rw [List.mem_insertionSort, List.mem_filter]
  simp [and_assoc]

theorem forM_error_iff {α : Type} {f : α → Except Error Unit} (l : List α) :
    (∃ e, forM l f = .error e) ↔ ∃ a ∈ l, ∃ e, f a = .error e := by
  induction l with
  | nil => simp [pure, Except.pure]
  | cons a rest ih =>
      rw [List.forM_cons]
      cases hHead : f a with
      | error e => simp [hHead, bind, Except.bind]
      | ok _ => simpa [hHead, bind, Except.bind] using ih

theorem checkBudget_error_iff {db : Db} {now : Timestamp} {b : BudgetRow} :
    (∃ e, checkBudget db now b = .error e) ↔ b.enabled = true ∧ b.action = .block ∧
      b.hardLimitMicros ≤
        db.periodSpend b.subjectType b.subjectId b.period (b.period.bucketStart now) := by
  unfold checkBudget
  cases hEnabled : b.enabled <;> cases hAction : b.action <;> simp
  split_ifs with hSpent
  · exact iff_of_true ⟨_, rfl⟩ hSpent
  · exact iff_of_false (by simp) hSpent

theorem enforceBudgets_error_iff (db : Db) (key : ApiKeyRow) (now : Timestamp) :
    (∃ e, enforceBudgets db key now = .error e) ↔
      ∃ subject ∈ budgetSubjects key, ∃ b, HasBudget db subject b ∧ b.enabled = true ∧
        b.action = .block ∧ b.hardLimitMicros ≤
          db.periodSpend subject.1 subject.2 b.period (b.period.bucketStart now) := by
  have hMem (b : BudgetRow) : (b ∈ db.listBudgets .key key.id ++
      db.listBudgets .user key.ownerUserId ++ match key.teamId with
        | some teamId => db.listBudgets .team teamId
        | none => []) ↔ ∃ subject ∈ budgetSubjects key, HasBudget db subject b := by
    unfold budgetSubjects
    cases key.teamId <;> simp [mem_listBudgets]
  unfold enforceBudgets
  rw [forM_error_iff]
  constructor
  · rintro ⟨b, hb, hError⟩
    obtain ⟨subject, hSubject, hHas⟩ := (hMem b).mp hb
    obtain ⟨hEnabled, hBlock, hSpent⟩ := checkBudget_error_iff.mp hError
    obtain rfl := hHas.2.1
    exact ⟨_, hSubject, b, hHas, hEnabled, hBlock, hSpent⟩
  · rintro ⟨subject, hSubject, b, hHas, hEnabled, hBlock, hSpent⟩
    refine ⟨b, (hMem b).mpr ⟨subject, hSubject, hHas⟩, checkBudget_error_iff.mpr ?_⟩
    obtain rfl := hHas.2.1
    exact ⟨hEnabled, hBlock, hSpent⟩

/-! ### The spend of a period -/

/-- What the turns of a subject at some times cost. -/
def costOf (subject : SubjectType × Id) (times : Timestamp → Prop) [DecidablePred times]
    (turns : List (RecordCtx × Turn)) : Micros :=
  ((turns.filter fun x => subject ∈ x.1.subjects ∧ times x.1.createdAt).map
    fun x => x.1.cost x.2.usage).sum

/-- What turns do when they are finished. -/
def finishes (turns : List (RecordCtx × Turn)) : List Effect := turns.flatMap fun x => x.1.finish x.2

/-- The instants of the period of an instant; a total counts from 1970 on. -/
def InPeriod (period : Period) (now instant : Timestamp) : Prop :=
  if period = .total then 0 ≤ instant else period.bucketStart instant = period.bucketStart now

instance (period : Period) (now : Timestamp) : DecidablePred (InPeriod period now) := fun instant =>
  inferInstanceAs (Decidable (if period = .total then 0 ≤ instant
    else period.bucketStart instant = period.bucketStart now))

section

variable {turns : List (RecordCtx × Turn)} {effects : List Effect} {db : Db} {now : Timestamp}

theorem spends_finishes (subject : SubjectType × Id) (period : Period) (t : Timestamp)
    (hNow : (dateOf (dayOf now)).year ≤ 9999) (hStart : FourDigits (period.bucketStart t))
    (hPast : ∀ x ∈ turns, x.1.createdAt ≤ now) :
    ((finishes turns).map (Effect.spends (Db.daysSince subject.1 subject.2 period
      (period.bucketStart t)) .cost)).sum =
        costOf subject (period.bucketStart t ≤ ·) turns := by
  induction turns with
  | nil => rfl
  | cons x rest ih =>
      have hYear : (dateOf (dayOf (dayStart x.1.createdAt))).year ≤ 9999 := by
        have hLe : dayStart x.1.createdAt ≤ now :=
          (Period.dayStart_le x.1.createdAt).trans (hPast x List.mem_cons_self)
        exact (yearOf_mono (dayOf_mono hLe)).trans hNow
      have hDay : Db.daysSince subject.1 subject.2 period (period.bucketStart t)
          (subject, .day, dayStart x.1.createdAt) = true ↔
            period.bucketStart t ≤ x.1.createdAt := by
        unfold Db.daysSince ts
        rw [period.bucketStart_bucketStart, ← period.bucketStart_le_dayStart]
        simp [toRfc3339_lt_iff hYear hStart]
      have hPlaces (p : Place) (hp : Db.daysSince subject.1 subject.2 period
          (period.bucketStart t) p = true) : p.1 = subject := by
        simp only [Db.daysSince, Bool.and_eq_true, decide_eq_true_eq] at hp
        exact hp.1.1
      have hFinish := x.1.spends_finish hPlaces .cost x.2
      have hRest := ih fun y hy => hPast y (List.mem_cons_of_mem x hy)
      unfold finishes costOf at *
      rw [List.flatMap_cons, List.map_append, List.sum_append, hRest,
        hFinish.trans (if_congr (and_congr_right fun _ => hDay) rfl rfl)]
      by_cases h : subject ∈ x.1.subjects ∧ period.bucketStart t ≤ x.1.createdAt
      · rw [if_pos h]
        simp [h.1, h.2]
        rfl
      · rw [if_neg h, List.filter_cons_of_neg (by simpa using h), zero_add]

/-- Whatever the order of the calls to the store. -/
theorem periodSpend_performAll (hRun : effects.Perm (finishes turns)) (hNone : db.spendRollup = [])
    (hNow : (dateOf (dayOf now)).year ≤ 9999) (hPast : ∀ x ∈ turns, x.1.createdAt ≤ now)
    (subject : SubjectType × Id) (period : Period) (t : Timestamp)
    (hStart : FourDigits (period.bucketStart t)) :
    (performAll db effects).periodSpend subject.1 subject.2 period (period.bucketStart t) =
      costOf subject (period.bucketStart t ≤ ·) turns := by
  unfold Db.periodSpend
  rw [sumOver_performAll, hNone, (hRun.map _).sum_eq, spends_finishes subject period t hNow hStart hPast]
  exact zero_add _

theorem costOf_current (hPast : ∀ x ∈ turns, x.1.createdAt ≤ now) (subject : SubjectType × Id)
    (period : Period) :
    costOf subject (period.bucketStart now ≤ ·) turns = costOf subject (InPeriod period now) turns := by
  unfold costOf
  congr 2
  apply List.filter_congr
  intro x hx
  have hSame : period.bucketStart now ≤ x.1.createdAt ↔ InPeriod period now x.1.createdAt := by
    unfold InPeriod
    split_ifs with hTotal
    · rw [hTotal]
      exact Iff.rfl
    · exact (Period.bucketStart_eq_iff hTotal (hPast x hx)).symm
  simp [hSame]

/-- What is counted for a period is what was spent since it began. For the
current one that is what was spent in it, and by that budgets go. -/
theorem budgets_follow_spend (hRun : effects.Perm (finishes turns)) (hNone : db.spendRollup = [])
    (hFrom : 0 ≤ now) (hNow : (dateOf (dayOf now)).year ≤ 9999)
    (hPast : ∀ x ∈ turns, x.1.createdAt ≤ now) :
    (∀ (subject : SubjectType × Id) (period : Period) (t : Timestamp),
      FourDigits (period.bucketStart t) →
        (performAll db effects).periodSpend subject.1 subject.2 period (period.bucketStart t) =
          costOf subject (period.bucketStart t ≤ ·) turns) ∧
    (∀ (subject : SubjectType × Id) (period : Period),
      (performAll db effects).periodSpend subject.1 subject.2 period (period.bucketStart now) =
        costOf subject (InPeriod period now) turns) ∧
    ∀ key, (∃ e, enforceBudgets (performAll db effects) key now = .error e) ↔
      ∃ subject ∈ budgetSubjects key, ∃ b, HasBudget db subject b ∧ b.enabled = true ∧
        b.action = .block ∧ b.hardLimitMicros ≤ costOf subject (InPeriod b.period now) turns := by
  have hSpend := periodSpend_performAll hRun hNone hNow hPast
  have hCurrent (subject : SubjectType × Id) (period : Period) :
      (performAll db effects).periodSpend subject.1 subject.2 period (period.bucketStart now) =
        costOf subject (InPeriod period now) turns :=
    (hSpend subject period now (period.fourDigits_bucketStart hFrom hNow)).trans
      (costOf_current hPast subject period)
  refine ⟨hSpend, hCurrent, fun key => ?_⟩
  have hSame (subject : SubjectType × Id) (b : BudgetRow) :
      HasBudget (performAll db effects) subject b ↔ HasBudget db subject b := by
    unfold HasBudget
    rw [budgets_performAll]
  rw [enforceBudgets_error_iff]
  simp only [hSame, hCurrent]

end

/-- A turn of a key on the second of January 1970, at five millionths. -/
def fiveMicros : RecordCtx × Turn :=
  ({ apiKeyId := some ['k']
     deployment :=
       { modelId := ['m'], providerId := ['p'], pricing := some { inputPer1m := 1, outputPer1m := 1 } }
     createdAt := 86400000000000 },
    { usage := { inputTokens := 5 }, status := 200, isError := false, response := none,
      responseBytes := 0 })

theorem five_spent : (performAll {} (finishes [fiveMicros])).periodSpend .key ['k'] .month
    (Period.month.bucketStart 86400000000000) = 5 := by
  have hPast : ∀ x ∈ [fiveMicros], x.1.createdAt ≤ 86400000000000 := by simp [fiveMicros]
  have hSpend := (budgets_follow_spend (List.Perm.refl (finishes [fiveMicros]))
    (rfl : ({} : Db).spendRollup = []) (by decide) (by decide) hPast).2.1 (.key, ['k']) .month
  exact hSpend.trans (by decide +kernel)

/-- The spend of the first day includes that of the second. -/
theorem later_days_counted :
    ¬ ∀ (turns : List (RecordCtx × Turn)) (now : Timestamp), (∀ x ∈ turns, x.1.createdAt ≤ now) →
      ∀ (subject : SubjectType × Id) (period : Period) (t : Timestamp),
        (performAll {} (finishes turns)).periodSpend subject.1 subject.2 period
          (period.bucketStart t) = costOf subject (InPeriod period t) turns := by
  intro h
  have hSpent := h [fiveMicros] 86400000000000 (by simp [fiveMicros]) (.key, ['k']) .day 0
  exact absurd hSpent (by decide +kernel)

end Gateway.Server
