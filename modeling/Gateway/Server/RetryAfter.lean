import Gateway.Core.RateLimit
import Mathlib.Tactic.Ring

/-! The wait that a call kept out by its limits is told of, and whether the same
call is let in after it. -/
namespace Gateway.Server

structure RateLimited where
  reason : String
  /-- In seconds. -/
  retryAfter : Rat
  deriving DecidableEq

/-- The `Retry-After` header: whole seconds, at least one. -/
def retryAfterSecs (retryAfter : Rat) : Nat := max ⌊retryAfter⌋.toNat 1

/-- The preflight of a call under the limits of its key. A call that is kept out
gives its slot back. -/
def preflight (l : Limiter) (scope : Id) (limits : Limits) (now : Timestamp) :
    Except RateLimited ConcurrencyGuard × Limiter :=
  let ((decision, guard), l) := l.check scope limits now
  if !decision.allowed then (.error ⟨decision.reason, decision.retryAfter⟩, guard.drop l)
  else
    let ((exhausted, retry), l) := l.tpmExhausted scope limits now
    if exhausted then (.error ⟨"tpm", retry⟩, guard.drop l) else (.ok guard, l)

/-! ### The buckets of a key -/

/-- The bucket of requests as a check finds it. -/
def requestsFound (entry : Scope) (limits : Limits) (window : Rat) (now : Timestamp) : Bucket :=
  { entry.rpm.getD (Bucket.new limits.rpm window now) with capacity := limits.rpm }.refill now

/-- The bucket of tokens as a check finds it. -/
def tokensFound (entry : Scope) (limits : Limits) (window : Rat) (now : Timestamp) : Bucket :=
  (entry.tpm.getD (Bucket.new limits.tpm window now)).refill now

/-- How long a bucket takes to refill what a request lacks. -/
def requestWait (b : Bucket) : Rat := (1 - b.tokens) / max b.refillPerSec (1 / 1000000000)

/-- How long a bucket takes to refill one token, whatever it lacks. -/
def tokenWait (b : Bucket) : Rat := max (1 / max b.refillPerSec (1 / 1000000000)) 1

/-- The advertised seconds bring the bucket of requests to one, and the bucket of
tokens holds one then. -/
def RequestsRepaid (entry : Scope) (limits : Limits) (window : Rat) (now : Timestamp) : Prop :=
  let requests := requestsFound entry limits window now
  let secs := retryAfterSecs (requestWait requests)
  1 ≤ requests.tokens + secs * requests.refillPerSec ∧
    (0 < limits.tpm → 1 ≤ (tokensFound entry limits window (now + secs * 1000000000)).tokens)

/-- The advertised seconds bring the bucket of tokens to one, and the bucket of
requests, of which the call has taken one. -/
def TokensRepaid (entry : Scope) (limits : Limits) (window : Rat) (now : Timestamp) : Prop :=
  let requests := requestsFound entry limits window now
  let tokens := tokensFound entry limits window now
  let secs := retryAfterSecs (tokenWait tokens)
  (0 < limits.rpm → 1 ≤ requests.tokens - 1 + secs * requests.refillPerSec) ∧
    1 ≤ tokens.tokens + secs * tokens.refillPerSec ∧ 1 ≤ tokens.capacity

theorem millis_of_secs (n : Int) (secs : Nat) :
    (n + secs * 1000000000 - n).tdiv 1000000 = secs * 1000 := by
  have hSpan : n + secs * 1000000000 - n = secs * 1000 * 1000000 := by ring
  rw [hSpan, Int.mul_tdiv_cancel _ (by decide)]

theorem elapsed_secs {b : Bucket} {now : Timestamp} (hLast : b.last = now) (secs : Nat) :
    b.elapsed (now + secs * 1000000000) = secs := by
  have hMillis : (now + secs * 1000000000 - b.last).tdiv 1000000 = secs * 1000 := by
    rw [hLast]
    exact millis_of_secs now secs
  have hNonneg : (0 : Int) ≤ secs * 1000 := by positivity
  rw [Bucket.elapsed, hMillis, max_eq_left hNonneg]
  push_cast
  exact mul_div_cancel_right₀ _ (by norm_num)

/-! ### The preflight on the buckets -/

/-- What a check takes of the bucket of requests. -/
def entryTaken (entry : Scope) (limits : Limits) (window : Rat) (now : Timestamp) : Scope :=
  let requests := requestsFound entry limits window now
  if 0 < limits.rpm then { entry with rpm := some { requests with tokens := requests.tokens - 1 } }
  else entry

/-- The preflight on the entry of its key. -/
def preflightEntry (entry : Scope) (limits : Limits) (window : Rat) (now : Timestamp) :
    Option RateLimited × Scope :=
  if limits.isUnlimited then (none, entry)
  else if 0 < limits.maxConcurrent ∧ limits.maxConcurrent ≤ entry.inFlight then
    (some ⟨"concurrency", 1⟩, entry)
  else
    let requests := requestsFound entry limits window now
    if 0 < limits.rpm ∧ requests.tokens < 1 then
      (some ⟨"rpm", requestWait requests⟩, { entry with rpm := some requests })
    else
      let entry := entryTaken entry limits window now
      if limits.tpm ≤ 0 then (none, { entry with inFlight := entry.inFlight + 1 })
      else
        let tokens := tokensFound entry limits window now
        let entry := { entry with tpm := some tokens }
        if tokens.tokens < 1 then
          (some ⟨"tpm", tokenWait tokens⟩,
            { entry with inFlight := max (entry.inFlight + 1 - 1) 0 })
        else (none, { entry with inFlight := entry.inFlight + 1 })

def refusalOf {α : Type} : Except RateLimited α → Option RateLimited
  | .error refused => some refused
  | .ok _ => none

section

variable {l : Limiter} {scope : Id} {limits : Limits} {now : Timestamp} {entry : Scope} {window : Rat}

theorem takeRpm_short (hRpm : 0 < limits.rpm)
    (hShort : (requestsFound entry limits window now).tokens < 1) :
    Limiter.takeRpm entry limits window now =
      ((false, requestWait (requestsFound entry limits window now)),
        { entry with rpm := some (requestsFound entry limits window now) }) := by
  have hTake : ({ entry.rpm.getD (Bucket.new limits.rpm window now) with
      capacity := limits.rpm } : Bucket).take 1 now =
      ((false, requestWait (requestsFound entry limits window now)),
        requestsFound entry limits window now) := if_neg (not_le.mpr hShort)
  unfold Limiter.takeRpm
  rw [if_pos hRpm]
  dsimp only
  rw [hTake]

theorem takeRpm_held (hHeld : ¬ (0 < limits.rpm ∧ (requestsFound entry limits window now).tokens < 1)) :
    Limiter.takeRpm entry limits window now =
      ((true, 0), entryTaken entry limits window now) := by
  unfold Limiter.takeRpm entryTaken
  by_cases hRpm : 0 < limits.rpm
  · have hEnough : 1 ≤ (requestsFound entry limits window now).tokens :=
      not_lt.mp fun hShort => hHeld ⟨hRpm, hShort⟩
    have hTake : ({ entry.rpm.getD (Bucket.new limits.rpm window now) with
        capacity := limits.rpm } : Bucket).take 1 now =
        ((true, 0), { requestsFound entry limits window now with
          tokens := (requestsFound entry limits window now).tokens - 1 }) := if_pos hEnough
    rw [if_pos hRpm, if_pos hRpm]
    dsimp only
    rw [hTake]
  · rw [if_neg hRpm, if_neg hRpm]

theorem preflight_unlimited (hUnlimited : limits.isUnlimited = true) :
    preflight l scope limits now = (.ok none, l) := by
  have hTpm : limits.tpm ≤ 0 := by
    simp only [Limits.isUnlimited, Bool.and_eq_true, decide_eq_true_eq] at hUnlimited
    omega
  unfold preflight Limiter.check Limiter.tpmExhausted
  rw [if_pos hUnlimited]
  dsimp only
  rw [if_pos hTpm]
  rfl

/-- The check of limits that are set. -/
theorem check_limited (l : Limiter) (scope : Id) (now : Timestamp)
    (hLimited : ¬ limits.isUnlimited = true) :
    l.check scope limits now =
      if 0 < limits.maxConcurrent ∧ limits.maxConcurrent ≤ (l.entry scope).inFlight then
        ((⟨false, 1, "concurrency"⟩, none), l.put scope (l.entry scope))
      else
        let requests := requestsFound (l.entry scope) limits l.window now
        if 0 < limits.rpm ∧ requests.tokens < 1 then
          ((⟨false, requestWait requests, "rpm"⟩, none),
            l.put scope { l.entry scope with rpm := some requests })
        else
          let entry := entryTaken (l.entry scope) limits l.window now
          ((.allow, some scope), l.put scope { entry with inFlight := entry.inFlight + 1 }) := by
  unfold Limiter.check
  rw [if_neg hLimited]
  dsimp only
  by_cases hFull : 0 < limits.maxConcurrent ∧ limits.maxConcurrent ≤ (l.entry scope).inFlight
  · rw [if_pos hFull, if_pos hFull]
  rw [if_neg hFull, if_neg hFull]
  by_cases hShort : 0 < limits.rpm ∧ (requestsFound (l.entry scope) limits l.window now).tokens < 1
  · rw [takeRpm_short hShort.1 hShort.2, if_pos hShort]
    rfl
  · rw [takeRpm_held hShort, if_neg hShort]
    rfl

theorem drop_put (l : Limiter) (scope : Id) (entry : Scope) :
    ConcurrencyGuard.drop (some scope) (l.put scope entry) =
      (l.put scope entry).put scope { entry with inFlight := max (entry.inFlight - 1) 0 } := by
  simp [ConcurrencyGuard.drop, Limiter.put]

theorem preflight_of_refusal {decision : RateDecision} {l' : Limiter}
    (hCheck : l.check scope limits now = ((decision, none), l')) (hKept : decision.allowed = false) :
    preflight l scope limits now = (.error ⟨decision.reason, decision.retryAfter⟩, l') := by
  unfold preflight
  rw [hCheck]
  dsimp only
  rw [hKept]
  rfl

theorem preflight_of_exhausted {guard : ConcurrencyGuard} {l' l'' : Limiter} {retry : Rat}
    (hCheck : l.check scope limits now = ((.allow, guard), l'))
    (hTokens : l'.tpmExhausted scope limits now = ((true, retry), l'')) :
    preflight l scope limits now = (.error ⟨"tpm", retry⟩, guard.drop l'') := by
  unfold preflight
  rw [hCheck]
  dsimp only
  rw [hTokens]
  rfl

theorem preflight_of_held {guard : ConcurrencyGuard} {l' l'' : Limiter} {retry : Rat}
    (hCheck : l.check scope limits now = ((.allow, guard), l'))
    (hTokens : l'.tpmExhausted scope limits now = ((false, retry), l'')) :
    preflight l scope limits now = (.ok guard, l'') := by
  unfold preflight
  rw [hCheck]
  dsimp only
  rw [hTokens]
  rfl

theorem tpmExhausted_short (hTpm : ¬ limits.tpm ≤ 0)
    (hShort : (tokensFound (l.entry scope) limits l.window now).tokens < 1) :
    l.tpmExhausted scope limits now =
      ((true, tokenWait (tokensFound (l.entry scope) limits l.window now)),
        l.put scope { l.entry scope with
          tpm := some (tokensFound (l.entry scope) limits l.window now) }) := by
  unfold Limiter.tpmExhausted
  rw [if_neg hTpm]
  exact if_pos hShort

theorem tpmExhausted_held (hTpm : ¬ limits.tpm ≤ 0)
    (hHeld : ¬ (tokensFound (l.entry scope) limits l.window now).tokens < 1) :
    l.tpmExhausted scope limits now =
      ((false, 0), l.put scope { l.entry scope with
        tpm := some (tokensFound (l.entry scope) limits l.window now) }) := by
  unfold Limiter.tpmExhausted
  rw [if_neg hTpm]
  exact if_neg hHeld

end

theorem preflight_entry (l : Limiter) (scope : Id) (limits : Limits) (now : Timestamp) :
    refusalOf (preflight l scope limits now).1 =
        (preflightEntry (l.entry scope) limits l.window now).1 ∧
      (preflight l scope limits now).2.entry scope =
        (preflightEntry (l.entry scope) limits l.window now).2 ∧
      (preflight l scope limits now).2.window = l.window := by
  by_cases hUnlimited : limits.isUnlimited = true
  · rw [preflight_unlimited hUnlimited, preflightEntry, if_pos hUnlimited]
    exact ⟨rfl, rfl, rfl⟩
  have hCheck := check_limited l scope now hUnlimited
  unfold preflightEntry
  rw [if_neg hUnlimited]
  by_cases hFull : 0 < limits.maxConcurrent ∧ limits.maxConcurrent ≤ (l.entry scope).inFlight
  · rw [if_pos hFull] at hCheck ⊢
    rw [preflight_of_refusal hCheck rfl]
    exact ⟨rfl, Limiter.entry_put_self l scope _, rfl⟩
  rw [if_neg hFull] at hCheck ⊢
  dsimp only at hCheck ⊢
  by_cases hShort : 0 < limits.rpm ∧ (requestsFound (l.entry scope) limits l.window now).tokens < 1
  · rw [if_pos hShort] at hCheck ⊢
    rw [preflight_of_refusal hCheck rfl]
    exact ⟨rfl, Limiter.entry_put_self l scope _, rfl⟩
  rw [if_neg hShort] at hCheck ⊢
  by_cases hTpm : limits.tpm ≤ 0
  · have hNone : ∀ l' : Limiter, l'.tpmExhausted scope limits now = ((false, 0), l') :=
      fun _ => if_pos hTpm
    rw [if_pos hTpm, preflight_of_held hCheck (hNone _)]
    exact ⟨rfl, Limiter.entry_put_self l scope _, rfl⟩
  generalize hAdmitted : l.put scope
    { entryTaken (l.entry scope) limits l.window now with
      inFlight := (entryTaken (l.entry scope) limits l.window now).inFlight + 1 } = l' at hCheck
  have hEntry : l'.entry scope = { entryTaken (l.entry scope) limits l.window now with
      inFlight := (entryTaken (l.entry scope) limits l.window now).inFlight + 1 } := by
    rw [← hAdmitted, Limiter.entry_put_self]
  have hWindow : l'.window = l.window := by
    rw [← hAdmitted]
    rfl
  have hFound : tokensFound (l'.entry scope) limits l'.window now =
      tokensFound (entryTaken (l.entry scope) limits l.window now) limits l.window now := by
    rw [hEntry, hWindow]
    rfl
  rw [if_neg hTpm]
  by_cases hTokens : (tokensFound (entryTaken (l.entry scope) limits l.window now) limits l.window
      now).tokens < 1
  · rw [if_pos hTokens, preflight_of_exhausted hCheck (tpmExhausted_short hTpm (hFound ▸ hTokens)),
      hFound, hEntry, drop_put]
    exact ⟨rfl, Limiter.entry_put_self _ scope _, hWindow⟩
  · rw [if_neg hTokens, preflight_of_held hCheck (tpmExhausted_held hTpm (hFound ▸ hTokens)),
      hFound, hEntry]
    exact ⟨rfl, Limiter.entry_put_self l' scope _, hWindow⟩

/-! ### The same call again -/

section

variable {entry entry' : Scope} {limits : Limits} {window : Rat} {now : Timestamp}

theorem entryTaken_tpm : (entryTaken entry limits window now).tpm = entry.tpm := by
  unfold entryTaken
  split_ifs <;> rfl

theorem entryTaken_inFlight : (entryTaken entry limits window now).inFlight = entry.inFlight := by
  unfold entryTaken
  split_ifs <;> rfl

/-- What a call that finds a free slot must find in the buckets. -/
theorem preflightEntry_fst_eq_none (hFree : ¬ (0 < limits.maxConcurrent ∧
      limits.maxConcurrent ≤ entry.inFlight)) (hLimited : ¬ limits.isUnlimited = true) :
    (preflightEntry entry limits window now).1 = none ↔
      (0 < limits.rpm → 1 ≤ (requestsFound entry limits window now).tokens) ∧
        (0 < limits.tpm → 1 ≤ (tokensFound entry limits window now).tokens) := by
  have hFound : tokensFound (entryTaken entry limits window now) limits window now =
      tokensFound entry limits window now := by
    rw [tokensFound, entryTaken_tpm]
    rfl
  unfold preflightEntry
  rw [if_neg hLimited, if_neg hFree]
  dsimp only
  rw [hFound]
  split_ifs with hShort hTpm hTokens
  · simp [hShort.1, hShort.2]
  · simp only [true_iff]
    exact ⟨fun hRpm => not_lt.mp fun h => hShort ⟨hRpm, h⟩, fun h => absurd hTpm (not_le.mpr h)⟩
  · simp [not_le.mp hTpm, hTokens]
  · simp only [true_iff]
    exact ⟨fun hRpm => not_lt.mp fun h => hShort ⟨hRpm, h⟩, fun _ => not_lt.mp hTokens⟩

/-- What a call that is kept out for its limits found, and what it leaves. -/
theorem preflightEntry_cases {refused : RateLimited}
    (hRefused : (preflightEntry entry limits window now).1 = some refused)
    (hReason : refused.reason ≠ "concurrency") :
    ¬ limits.isUnlimited = true ∧
    ¬ (0 < limits.maxConcurrent ∧
      limits.maxConcurrent ≤ (preflightEntry entry limits window now).2.inFlight) ∧
    ((refused = ⟨"rpm", requestWait (requestsFound entry limits window now)⟩ ∧ 0 < limits.rpm ∧
        (preflightEntry entry limits window now).2 =
          { entry with rpm := some (requestsFound entry limits window now) }) ∨
      (refused = ⟨"tpm", tokenWait (tokensFound entry limits window now)⟩ ∧ 0 < limits.tpm ∧
        (preflightEntry entry limits window now).2.rpm =
          (entryTaken entry limits window now).rpm ∧
        (preflightEntry entry limits window now).2.tpm =
          some (tokensFound entry limits window now))) := by
  have hFound : tokensFound (entryTaken entry limits window now) limits window now =
      tokensFound entry limits window now := by
    rw [tokensFound, entryTaken_tpm]
    rfl
  unfold preflightEntry at hRefused ⊢
  dsimp only at hRefused ⊢
  rw [hFound] at hRefused ⊢
  split_ifs at hRefused ⊢ with hUnlimited hFull hShort hTpm hTokens
  · cases hRefused
    exact absurd rfl hReason
  · cases hRefused
    exact ⟨hUnlimited, hFull, .inl ⟨rfl, hShort.1, rfl⟩⟩
  · cases hRefused
    refine ⟨hUnlimited, ?_, .inr ⟨rfl, not_le.mp hTpm, rfl, rfl⟩⟩
    rintro ⟨hMax, hCount⟩
    dsimp only at hCount
    rw [entryTaken_inFlight, add_sub_cancel_right] at hCount
    exact hFull ⟨hMax, (le_max_iff.mp hCount).resolve_right (not_le.mpr hMax)⟩

/-- A bucket that was refilled at the call is refilled for the advertised time. -/
theorem refill_later {b : Bucket} (hLast : b.last = now) (secs : Nat) :
    (b.refill (now + secs * 1000000000)).tokens =
      min (b.tokens + secs * b.refillPerSec) b.capacity := by
  unfold Bucket.refill
  rw [elapsed_secs hLast]

theorem tokens_later (limits : Limits) (window : Rat) (now : Timestamp) {b : Bucket}
    (hBucket : entry.tpm = some b)
    (hLast : b.last = now) (secs : Nat) :
    1 ≤ (tokensFound entry limits window (now + secs * 1000000000)).tokens ↔
      1 ≤ b.tokens + secs * b.refillPerSec ∧ 1 ≤ b.capacity := by
  rw [tokensFound, hBucket, Option.getD_some, refill_later hLast, le_min_iff]

theorem requests_later (window : Rat) (now : Timestamp) {b : Bucket} (hRpm : 0 < limits.rpm) (hBucket : entry.rpm = some b)
    (hLast : b.last = now) (secs : Nat) :
    1 ≤ (requestsFound entry limits window (now + secs * 1000000000)).tokens ↔
      1 ≤ b.tokens + secs * b.refillPerSec := by
  have hLeast : (1 : Rat) ≤ limits.rpm := by exact_mod_cast hRpm
  have hLater := refill_later (b := { b with capacity := limits.rpm }) hLast secs
  rw [requestsFound, hBucket, Option.getD_some, hLater, le_min_iff]
  exact and_iff_left hLeast

end

theorem eq_error_of_refusalOf {α : Type} {verdict : Except RateLimited α} {refused : RateLimited}
    (h : refusalOf verdict = some refused) : verdict = .error refused := by
  cases verdict with
  | ok a => simp [refusalOf] at h
  | error r => rw [Option.some.inj h]

end Gateway.Server
