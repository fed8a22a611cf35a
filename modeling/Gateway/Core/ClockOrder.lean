import Gateway.Core.LimitChange

/-! Turns of a key by the clock they were let in at. Two calls may come to the
limiter in another order than they read the clock in, and a reading from before
the last one takes the time of the bucket back. -/
namespace Gateway.Limiter

/-- How many turns of the scope are let through with a reading in an interval. -/
def admittedWithin (l : Limiter) (scope : Id) (start stop : Timestamp) : List LimiterEvent → Nat
  | [] => 0
  | e :: rest =>
      (if start ≤ e.now ∧ e.now ≤ stop then l.admits scope e else 0) +
        (l.after e).admittedWithin scope start stop rest

/-- Whether a call of the scope comes to its bucket of requests: a check that
finds a free slot. -/
def comesToRequests (l : Limiter) (scope : Id) (e : LimiterEvent) : Bool :=
  match e.call with
  | .check s limits =>
      s = scope && !decide (0 < limits.maxConcurrent ∧ limits.maxConcurrent ≤ l.inFlight scope)
  | _ => false

/-- A call that comes to the bucket read the clock no earlier than the call
before it. -/
def InOrder (l : Limiter) (scope : Id) (e : LimiterEvent) : Prop :=
  l.comesToRequests scope e = true → ∀ b ∈ (l.entry scope).rpm, b.last ≤ e.now

/-- Every step of a run is in order. -/
def AllInOrder (scope : Id) : Limiter → List LimiterEvent → Prop
  | _, [] => True
  | l, e :: rest => l.InOrder scope e ∧ AllInOrder scope (l.after e) rest

variable {l : Limiter} {scope : Id} {limit : Int} {rate : Rat} (start stop : Timestamp)

/-- A call that does not come to the bucket leaves it alone. -/
theorem rpm_after_of_not_comes (l : Limiter) {e : LimiterEvent} (hPos : 0 < limit)
    (hLimit : ∀ limits ∈ e.limits scope, limits.rpm = limit)
    (hElsewhere : l.comesToRequests scope e = false) :
    ((l.after e).entry scope).rpm = (l.entry scope).rpm ∧ l.admits scope e = 0 := by
  obtain ⟨now, call⟩ := e
  cases call with
  | chargeTokens s limits tokens => exact ⟨rpm_chargeTokens l scope s limits tokens now, rfl⟩
  | tpmExhausted s limits => exact ⟨rpm_tpmExhausted l scope s limits now, rfl⟩
  | release guard => exact ⟨rpm_drop guard l scope, rfl⟩
  | check s limits =>
      by_cases hScope : s = scope
      · subst hScope
        have hRpm : limits.rpm = limit := hLimit limits (by simp [LimiterEvent.limits])
        have hLimited : ¬ limits.isUnlimited = true := by
          simp only [Limits.isUnlimited, Bool.and_eq_true, decide_eq_true_eq, not_and]
          omega
        have hFull : 0 < limits.maxConcurrent ∧ limits.maxConcurrent ≤ (l.entry s).inFlight := by
          simp only [comesToRequests, decide_true, Bool.true_and, Bool.not_eq_false'] at hElsewhere
          exact of_decide_eq_true hElsewhere
        have hCheck : l.check s limits now =
            ((⟨false, 1, "concurrency"⟩, none), l.put s (l.entry s)) := by
          unfold check
          rw [if_neg hLimited, if_pos hFull]
        refine ⟨?_, by simp [admits, hCheck]⟩
        show ((l.check s limits now).2.entry s).rpm = _
        rw [hCheck, entry_put_self]
      · exact ⟨congrArg Scope.rpm (check_entry_of_ne l limits now (Ne.symm hScope)),
          by simp [admits, hScope]⟩

/-- What a bucket can still let through with readings up to the end of the
interval. -/
def allowance (rate : Rat) (stop : Timestamp) (b : Bucket) : Rat :=
  if b.last ≤ stop then max b.tokens 0 + rate * seconds (stop - b.last) else 0

theorem seconds_nonneg {span : Int} (h : 0 ≤ span) : 0 ≤ seconds span := by
  unfold seconds
  have hSpan : (0 : Rat) ≤ span := by exact_mod_cast h
  positivity

theorem allowance_nonneg {stop : Timestamp} (hRate : 0 ≤ rate) (b : Bucket) : 0 ≤ allowance rate stop b := by
  unfold allowance
  split_ifs with h
  · have hGrowth := mul_nonneg hRate (seconds_nonneg (Int.sub_nonneg_of_le h))
    linarith [le_max_right b.tokens 0]
  · exact le_refl 0

/-- A turn that is let through with a reading in the interval comes out of the
allowance. -/
theorem allowance_step {e : LimiterEvent} {b b' : Bucket} (hRate : 0 ≤ rate)
    (hBucket : (l.entry scope).rpm = some b) (hSlow : b.refillPerSec ≤ rate)
    (hOrder : b.last ≤ e.now) (hTook : Took l scope limit e.now (l.admits scope e) b') :
    ((if start ≤ e.now ∧ e.now ≤ stop then l.admits scope e else 0 : Nat) : Rat) +
      allowance rate stop b' ≤ allowance rate stop b := by
  have hCount : ((if start ≤ e.now ∧ e.now ≤ stop then l.admits scope e else 0 : Nat) : Rat) ≤
      if e.now ≤ stop then (l.admits scope e : Rat) else 0 := by
    split_ifs <;> simp_all
  refine le_trans (add_le_add_left hCount _) ?_
  by_cases hStop : e.now ≤ stop
  · have hGrown := hTook.grown b hBucket rate hOrder hSlow hRate
    have hLast : b.last ≤ stop := le_trans hOrder hStop
    unfold allowance
    rw [hTook.last, if_pos hStop, if_pos hStop, if_pos hLast]
    have hSplit : seconds (stop - b.last) = seconds (e.now - b.last) + seconds (stop - e.now) := by
      unfold seconds
      push_cast
      ring
    rw [hSplit, mul_add]
    linarith
  · have hZero : allowance rate stop b' = 0 := by
      unfold allowance
      rw [hTook.last, if_neg hStop]
    rw [if_neg hStop, hZero, zero_add]
    exact allowance_nonneg hRate b

/-- From a bucket on: no more than its allowance. -/
theorem admittedWithin_of_bucket {events : List LimiterEvent} (hPos : 0 < limit) (hRate : 0 ≤ rate)
    (hLimit : ∀ e ∈ events, ∀ limits ∈ e.limits scope, limits.rpm = limit)
    (hOrder : AllInOrder scope l events) {b : Bucket} (hBucket : (l.entry scope).rpm = some b)
    (hSlow : b.refillPerSec ≤ rate) :
    (l.admittedWithin scope start stop events : Rat) ≤ allowance rate stop b := by
  induction events generalizing l b with
  | nil =>
      simp only [admittedWithin, Nat.cast_zero]
      exact allowance_nonneg hRate b
  | cons e rest ih =>
      have hRest : ∀ e' ∈ rest, ∀ limits ∈ e'.limits scope, limits.rpm = limit :=
        fun e' he => hLimit e' (List.mem_cons_of_mem e he)
      have hHere := hLimit e List.mem_cons_self
      unfold admittedWithin
      push_cast
      cases hComes : l.comesToRequests scope e with
      | false =>
          obtain ⟨hSame, hNone⟩ := rpm_after_of_not_comes l hPos hHere hComes
          have hIh := ih hRest hOrder.2 (hSame.trans hBucket) hSlow
          simpa [hNone] using hIh
      | true =>
          rcases rpm_after l e hPos hHere with ⟨hSame, hNone⟩ | ⟨b', hBucket', hTook⟩
          · have hIh := ih hRest hOrder.2 (hSame.trans hBucket) hSlow
            simpa [hNone] using hIh
          · have hSlow' : b'.refillPerSec ≤ rate := by
              rw [hTook.rate, hBucket, Option.getD_some]
              exact hSlow
            have hIh := ih hRest hOrder.2 hBucket' hSlow'
            have hStep := allowance_step start stop hRate hBucket hSlow
              (hOrder.1 hComes b hBucket) hTook
            push_cast at hStep
            linarith

/-- From any buckets that do not refill too fast. -/
theorem admittedWithin_le {start stop : Timestamp} {events : List LimiterEvent} (hPos : 0 < limit) (hRate : 0 ≤ rate)
    (hNew : limit / max l.window (1 / 1000) ≤ rate)
    (hLimit : ∀ e ∈ events, ∀ limits ∈ e.limits scope, limits.rpm = limit)
    (hOrder : AllInOrder scope l events) (hSlow : ∀ b ∈ (l.entry scope).rpm, b.refillPerSec ≤ rate)
    (hSpan : start ≤ stop) :
    (l.admittedWithin scope start stop events : Rat) ≤ limit + rate * seconds (stop - start) := by
  have hLeast : (0 : Rat) ≤ limit := by exact_mod_cast hPos.le
  induction events generalizing l with
  | nil =>
      have hGrowth := mul_nonneg hRate (seconds_nonneg (Int.sub_nonneg_of_le hSpan))
      simp only [admittedWithin, Nat.cast_zero]
      linarith
  | cons e rest ih =>
      have hRest : ∀ e' ∈ rest, ∀ limits ∈ e'.limits scope, limits.rpm = limit :=
        fun e' he => hLimit e' (List.mem_cons_of_mem e he)
      have hNew' : limit / max (l.after e).window (1 / 1000) ≤ rate := by
        rw [window_after]
        exact hNew
      unfold admittedWithin
      push_cast
      rcases rpm_after l e hPos (hLimit e List.mem_cons_self) with
        ⟨hSame, hNone⟩ | ⟨b, hBucket, hTook⟩
      · have hIh := ih hNew' hRest hOrder.2 (hSame ▸ hSlow)
        simpa [hNone] using hIh
      · have hSlow' : b.refillPerSec ≤ rate := rate_of_took (P := (· ≤ rate)) hTook hSlow hNew
        by_cases hIn : start ≤ e.now ∧ e.now ≤ stop
        · have hAllowed := admittedWithin_of_bucket start stop hPos hRate hRest
            hOrder.2 hBucket hSlow'
          have hHeld := hTook.held
          have hShorter : rate * seconds (stop - e.now) ≤ rate * seconds (stop - start) := by
            apply mul_le_mul_of_nonneg_left _ hRate
            have hLater : ((stop - e.now : Int) : Rat) ≤ ((stop - start : Int) : Rat) := by
              exact_mod_cast Int.sub_le_sub_left hIn.1 stop
            unfold seconds
            linarith
          unfold allowance at hAllowed
          rw [hTook.last, if_pos hIn.2] at hAllowed
          rw [if_pos hIn]
          linarith
        · have hIh : ((l.after e).admittedWithin scope start stop rest : Rat) ≤ _ :=
            ih hNew' hRest hOrder.2 (by rw [hBucket]; rintro _ ⟨⟩; exact hSlow')
          rw [if_neg hIn]
          simpa using hIh

/-- Under a constant limit, and as long as no call comes to the bucket with a
reading from before the last one, the turns of a key with readings in an interval
are bounded by the limit and what is refilled over it. -/
theorem requests_within {window : Rat} (hWindow : 0 < window) (events : List LimiterEvent)
    (scope : Id) {limit : Int} (hPos : 0 < limit)
    (hLimit : ∀ e ∈ events, ∀ limits ∈ e.limits scope, limits.rpm = limit)
    (hOrder : AllInOrder scope (Limiter.new window) events) {start stop : Timestamp}
    (hSpan : start ≤ stop) :
    ((Limiter.new window).admittedWithin scope start stop events : Rat) ≤
      limit + limit * seconds (stop - start) / window := by
  have hLeast : (0 : Rat) ≤ limit := by exact_mod_cast hPos.le
  have hRate : (0 : Rat) ≤ limit / window := by positivity
  have hNew : (limit : Rat) / max (Limiter.new window).window (1 / 1000) ≤ limit / window :=
    div_le_div_of_nonneg_left hLeast hWindow (le_max_left _ _)
  have hBound := admittedWithin_le (l := Limiter.new window) hPos hRate hNew hLimit hOrder
    (by rintro b ⟨⟩) hSpan
  rwa [div_mul_eq_mul_div] at hBound

def checkAt (second : Int) : LimiterEvent := ⟨second * 1000000000, .check ['k'] { rpm := 1 }⟩

/-- One request a minute, asked for once and again half a minute later. -/
theorem one_let_through :
    (((Limiter.new 60).admittedWithin ['k'] 0 30000000000 [checkAt 0, checkAt 30] : Nat) : Rat) ≤
      (1 : Int) + (1 : Int) * seconds (30000000000 - 0) / 60 := by
  refine requests_within (by norm_num) [checkAt 0, checkAt 30] ['k'] (by decide) ?_ ?_ (by decide)
  · simp [checkAt, LimiterEvent.limits]
  · refine ⟨?_, ?_, trivial⟩
    · rintro - b ⟨⟩
    · rintro - b hb
      have hBucket : (((Limiter.new 60).after (checkAt 0)).entry ['k']).rpm =
          some ⟨0, 1, 1 / 60, 0⟩ := by
        decide +kernel
      rw [hBucket] at hb
      cases hb
      decide

/-- A request that read the clock a minute before the last one makes room for
another of the last one's minute. -/
theorem two_at_once :
    ¬ ∀ (events : List LimiterEvent) (start stop : Timestamp), start ≤ stop →
      (∀ e ∈ events, ∀ limits ∈ e.limits ['k'], limits.rpm = 1) →
      (((Limiter.new 60).admittedWithin ['k'] start stop events : Nat) : Rat) ≤
        1 + 1 * seconds (stop - start) / 60 := by
  intro hAll
  have hBound := hAll [checkAt 60, checkAt 0, checkAt 60] 60000000000 60000000000 (by decide)
    (by simp [checkAt, LimiterEvent.limits])
  have hTwo : (Limiter.new 60).admittedWithin ['k'] 60000000000 60000000000
      [checkAt 60, checkAt 0, checkAt 60] = 2 := by
    decide +kernel
  rw [hTwo] at hBound
  norm_num [seconds] at hBound

end Gateway.Limiter
