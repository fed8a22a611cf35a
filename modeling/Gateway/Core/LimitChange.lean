import Gateway.Core.RateLimit
import Mathlib.Tactic.Linarith
import Mathlib.Tactic.Ring

/-! What a key is let through after a change of its limits. A bucket keeps the
refill rate it was made with. -/
namespace Gateway

/-! ### Calls of the limiter -/

inductive LimiterCall where
  | check (scope : Id) (limits : Limits)
  | chargeTokens (scope : Id) (limits : Limits) (tokens : Int)
  | tpmExhausted (scope : Id) (limits : Limits)
  | release (guard : ConcurrencyGuard)

structure LimiterEvent where
  now : Timestamp
  call : LimiterCall

/-- The limits a call has for a scope. -/
def LimiterEvent.limits (e : LimiterEvent) (scope : Id) : Option Limits :=
  match e.call with
  | .check s limits | .chargeTokens s limits _ | .tpmExhausted s limits =>
      if s = scope then some limits else none
  | .release _ => none

namespace Limiter

def after (l : Limiter) (e : LimiterEvent) : Limiter :=
  match e.call with
  | .check scope limits => (l.check scope limits e.now).2
  | .chargeTokens scope limits tokens => (l.chargeTokens scope limits tokens e.now).2
  | .tpmExhausted scope limits => (l.tpmExhausted scope limits e.now).2
  | .release guard => guard.drop l

def runEvents (l : Limiter) (events : List LimiterEvent) : Limiter := events.foldl after l

/-- Whether a call lets a turn of the scope through. -/
def admits (l : Limiter) (scope : Id) (e : LimiterEvent) : Nat :=
  match e.call with
  | .check s limits => if s = scope ∧ (l.check s limits e.now).1.1.allowed = true then 1 else 0
  | _ => 0

/-- How many turns of the scope are let through. -/
def admitted (l : Limiter) (scope : Id) : List LimiterEvent → Nat
  | [] => 0
  | e :: rest => l.admits scope e + (l.after e).admitted scope rest

end Limiter

/-- The tokens that a call takes from the scope. -/
def LimiterEvent.charges (scope : Id) (e : LimiterEvent) : Int :=
  match e.call with
  | .chargeTokens s _ tokens => if s = scope then tokens else 0
  | _ => 0

def charged (scope : Id) (events : List LimiterEvent) : Int :=
  (events.map (LimiterEvent.charges scope)).sum

/-- Nanoseconds in seconds. -/
def seconds (ns : Int) : Rat := ns / 1000000000

/-! ### Buckets -/

namespace Bucket

theorem elapsed_nonneg (b : Bucket) (now : Timestamp) : 0 ≤ b.elapsed now := by
  unfold elapsed
  have hPos : (0 : Int) ≤ max ((now - b.last).tdiv 1000000) 0 := le_max_right _ _
  positivity

/-- Parts of a millisecond do not count. -/
theorem elapsed_le {b : Bucket} {now : Timestamp} (h : b.last ≤ now) :
    b.elapsed now ≤ seconds (now - b.last) := by
  unfold elapsed seconds
  have hWhole : max ((now - b.last).tdiv 1000000) 0 * 1000000 ≤ now - b.last := by
    have hSpan : (0 : Int) ≤ now - b.last := Int.sub_nonneg_of_le h
    rw [Int.tdiv_eq_ediv_of_nonneg hSpan]
    omega
  have hCast : ((max ((now - b.last).tdiv 1000000) 0 : Int) : Rat) * 1000000 ≤
      ((now - b.last : Int) : Rat) := by
    exact_mod_cast hWhole
  push_cast at hCast ⊢
  linarith

/-- A refill adds no more than the rate does over the time. -/
theorem refill_le {b : Bucket} {now : Timestamp} {rate : Rat} (hLast : b.last ≤ now)
    (hRate : b.refillPerSec ≤ rate) (hPos : 0 ≤ rate) :
    (b.refill now).tokens ≤ b.tokens + rate * seconds (now - b.last) := by
  have hMin : (b.refill now).tokens ≤ b.tokens + b.elapsed now * b.refillPerSec := min_le_left _ _
  have hAdded : b.elapsed now * b.refillPerSec ≤ rate * seconds (now - b.last) :=
    calc b.elapsed now * b.refillPerSec
        ≤ b.elapsed now * rate := mul_le_mul_of_nonneg_left hRate (b.elapsed_nonneg now)
      _ ≤ seconds (now - b.last) * rate := mul_le_mul_of_nonneg_right (elapsed_le hLast) hPos
      _ = rate * seconds (now - b.last) := mul_comm _ _
  linarith

theorem refill_le_capacity (b : Bucket) (now : Timestamp) : (b.refill now).tokens ≤ b.capacity :=
  min_le_right _ _

end Bucket

/-! ### Requests -/

namespace Limiter

section

variable {l : Limiter} {scope : Id} {limit : Int}

/-- A check that comes to the bucket: what it lets through and what it leaves
were there, and no more than the limit. -/
structure Took (l : Limiter) (scope : Id) (limit : Int) (now : Timestamp) (taken : Nat)
    (b : Bucket) : Prop where
  last : b.last = now
  rate : b.refillPerSec =
    ((l.entry scope).rpm.getD (Bucket.new limit l.window now)).refillPerSec
  held : max b.tokens 0 + taken ≤ limit
  grown : ∀ b₀ ∈ (l.entry scope).rpm, ∀ rate, b₀.last ≤ now → b₀.refillPerSec ≤ rate → 0 ≤ rate →
    max b.tokens 0 + taken ≤ max b₀.tokens 0 + rate * seconds (now - b₀.last)

theorem took_of_take {b₀ : Bucket} {now : Timestamp} (hPos : 0 < limit)
    (hBucket : (l.entry scope).rpm.getD (Bucket.new limit l.window now) = b₀) :
    Took l scope limit now
      (if (({ b₀ with capacity := limit } : Bucket).take 1 now).1.1 then 1 else 0)
      (({ b₀ with capacity := limit } : Bucket).take 1 now).2 := by
  let full : Bucket := { b₀ with capacity := limit }
  have hLimit : (1 : Rat) ≤ limit := by exact_mod_cast hPos
  have hCapacity : (full.refill now).tokens ≤ limit := full.refill_le_capacity now
  have hTake : max (full.take 1 now).2.tokens 0 + ((if (full.take 1 now).1.1 then 1 else 0 : Nat) : Rat) ≤
      max (full.refill now).tokens 0 := by
    unfold Bucket.take
    dsimp only
    split
    · next hHeld =>
        have hRest : max ((full.refill now).tokens - 1) 0 = (full.refill now).tokens - 1 :=
          max_eq_left (by linarith)
        simp [hRest]
    · simp
  refine ⟨?_, ?_, ?_, ?_⟩
  · unfold Bucket.take
    dsimp only
    split <;> rfl
  · rw [hBucket]
    unfold Bucket.take
    dsimp only
    split <;> rfl
  · exact hTake.trans (max_le hCapacity (by linarith))
  · intro b hb rate hLast hRate hRatePos
    have hSame : b = b₀ := by rwa [Option.mem_def.mp hb, Option.getD_some] at hBucket
    subst hSame
    have hRefill : (full.refill now).tokens ≤ b.tokens + rate * seconds (now - b.last) :=
      Bucket.refill_le (b := full) hLast hRate hRatePos
    have hGrowth : 0 ≤ rate * seconds (now - b.last) := by
      have hSpan : (0 : Rat) ≤ ((now - b.last : Int) : Rat) := by exact_mod_cast Int.sub_nonneg_of_le hLast
      unfold seconds
      positivity
    refine hTake.trans (max_le ?_ ?_)
    · linarith [le_max_left b.tokens 0]
    · linarith [le_max_right b.tokens 0]

theorem entry_put (l : Limiter) (scope other : Id) (s : Scope) :
    (l.put other s).entry scope = if scope = other then s else l.entry scope := by
  split_ifs with h
  · rw [h, entry_put_self]
  · rw [entry_put_of_ne l s h]

theorem rpm_tpmExhausted (l : Limiter) (scope s : Id) (limits : Limits) (now : Timestamp) :
    ((l.tpmExhausted s limits now).2.entry scope).rpm = (l.entry scope).rpm := by
  unfold tpmExhausted
  split_ifs
  · rfl
  · dsimp only
    split_ifs <;> (rw [entry_put]; split_ifs with h <;> simp [h])

theorem rpm_chargeTokens (l : Limiter) (scope s : Id) (limits : Limits) (tokens : Int)
    (now : Timestamp) : ((l.chargeTokens s limits tokens now).2.entry scope).rpm =
      (l.entry scope).rpm := by
  unfold chargeTokens
  split_ifs
  · rfl
  · dsimp only
    rw [entry_put]
    split_ifs with h <;> simp [h]

theorem rpm_drop (guard : ConcurrencyGuard) (l : Limiter) (scope : Id) :
    ((guard.drop l).entry scope).rpm = (l.entry scope).rpm := by
  cases guard with
  | none => rfl
  | some s =>
      unfold ConcurrencyGuard.drop
      dsimp only
      cases hEntry : l.scopes s with
      | none => rfl
      | some entry =>
          rw [entry_put]
          split_ifs with h
          · rw [h]
            simp [Limiter.entry, hEntry]
          · rfl

/-- A check under a limit on requests: no free slot, or a turn from the bucket. -/
theorem check_of_rpm (l : Limiter) (scope : Id) {limits : Limits} (now : Timestamp)
    (hPos : 0 < limits.rpm) :
    (∃ decision, decision.allowed = false ∧
        l.check scope limits now = ((decision, none), l.put scope (l.entry scope))) ∨
      ∃ decision guard, ∃ entry : Scope, l.check scope limits now = ((decision, guard), l.put scope entry) ∧
        entry.rpm = (takeRpm (l.entry scope) limits l.window now).2.rpm ∧
        decision.allowed = (takeRpm (l.entry scope) limits l.window now).1.1 := by
  have hLimited : ¬ limits.isUnlimited = true := by
    simp only [Limits.isUnlimited, Bool.and_eq_true, decide_eq_true_eq, not_and]
    intro h
    omega
  unfold check
  rw [if_neg hLimited]
  dsimp only
  by_cases hFull : 0 < limits.maxConcurrent ∧ limits.maxConcurrent ≤ (l.entry scope).inFlight
  · rw [if_pos hFull]
    exact .inl ⟨_, rfl, rfl⟩
  · rw [if_neg hFull]
    refine .inr ?_
    rcases takeRpm (l.entry scope) limits l.window now with ⟨⟨_ | _, retry⟩, entry⟩
    · exact ⟨_, _, _, rfl, rfl, rfl⟩
    · exact ⟨_, _, _, rfl, rfl, rfl⟩

/-- A check comes to its own scope only. -/
theorem check_entry_of_ne (l : Limiter) {scope s : Id} (limits : Limits) (now : Timestamp)
    (h : scope ≠ s) : (l.check s limits now).2.entry scope = l.entry scope := by
  unfold check
  by_cases hUnlimited : limits.isUnlimited = true
  · rw [if_pos hUnlimited]
  rw [if_neg hUnlimited]
  dsimp only
  by_cases hFull : 0 < limits.maxConcurrent ∧ limits.maxConcurrent ≤ (l.entry s).inFlight
  · rw [if_pos hFull]
    exact entry_put_of_ne l _ h
  · rw [if_neg hFull]
    rcases takeRpm (l.entry s) limits l.window now with ⟨⟨_ | _, retry⟩, entry⟩ <;>
      exact entry_put_of_ne l _ h

/-- A call leaves the bucket of requests alone, or comes to it with the limit. -/
theorem rpm_after (l : Limiter) (e : LimiterEvent) (hPos : 0 < limit)
    (hLimit : ∀ limits ∈ e.limits scope, limits.rpm = limit) :
    (((l.after e).entry scope).rpm = (l.entry scope).rpm ∧ l.admits scope e = 0) ∨
      ∃ b, ((l.after e).entry scope).rpm = some b ∧
        Took l scope limit e.now (l.admits scope e) b := by
  obtain ⟨now, call⟩ := e
  cases call with
  | chargeTokens s limits tokens => exact .inl ⟨rpm_chargeTokens l scope s limits tokens now, rfl⟩
  | tpmExhausted s limits => exact .inl ⟨rpm_tpmExhausted l scope s limits now, rfl⟩
  | release guard => exact .inl ⟨rpm_drop guard l scope, rfl⟩
  | check s limits =>
      by_cases hScope : s = scope
      · subst hScope
        have hRpm : limits.rpm = limit := hLimit limits (by simp [LimiterEvent.limits])
        subst hRpm
        rcases check_of_rpm l s now hPos with
          ⟨decision, hRefused, hCheck⟩ | ⟨decision, guard, entry, hCheck, hEntry, hAllowed⟩
        · refine .inl ⟨?_, ?_⟩
          · show ((l.check s limits now).2.entry s).rpm = _
            rw [hCheck, entry_put_self]
          · simp [admits, hCheck, hRefused]
        · let bucket := (l.entry s).rpm.getD (Bucket.new limits.rpm l.window now)
          let taken := ({ bucket with capacity := limits.rpm } : Bucket).take 1 now
          have hTake : takeRpm (l.entry s) limits l.window now =
              (taken.1, { l.entry s with rpm := some taken.2 }) := by
            unfold takeRpm
            rw [if_pos hPos]
          rw [hTake] at hEntry hAllowed
          have hAdmits : l.admits s ⟨now, .check s limits⟩ = if taken.1.1 then 1 else 0 := by
            simp [admits, hCheck, hAllowed]
          refine .inr ⟨taken.2, ?_, ?_⟩
          · show ((l.check s limits now).2.entry s).rpm = _
            rw [hCheck, entry_put_self, hEntry]
          · rw [hAdmits]
            exact took_of_take hPos rfl
      · refine .inl ⟨?_, by simp [admits, hScope]⟩
        exact congrArg Scope.rpm (check_entry_of_ne l limits now (Ne.symm hScope))

/-- What one call gives: the bucket is made, if it is, at the rate of the
limit. -/
theorem rate_of_took {now : Timestamp} {taken : Nat} {b : Bucket} {P : Rat → Prop}
    (hTook : Took l scope limit now taken b) (hOld : ∀ b ∈ (l.entry scope).rpm, P b.refillPerSec)
    (hNew : P (limit / max l.window (1 / 1000))) : P b.refillPerSec := by
  rw [hTook.rate]
  cases hEntry : (l.entry scope).rpm with
  | none => exact hNew
  | some b₀ => exact hOld b₀ hEntry

theorem window_after (l : Limiter) (e : LimiterEvent) : (l.after e).window = l.window := by
  obtain ⟨now, call⟩ := e
  cases call with
  | check s limits =>
      show (l.check s limits now).2.window = l.window
      unfold check
      by_cases hUnlimited : limits.isUnlimited = true
      · rw [if_pos hUnlimited]
      rw [if_neg hUnlimited]
      dsimp only
      by_cases hFull : 0 < limits.maxConcurrent ∧ limits.maxConcurrent ≤ (l.entry s).inFlight
      · rw [if_pos hFull]
        rfl
      · rw [if_neg hFull]
        rcases takeRpm (l.entry s) limits l.window now with ⟨⟨_ | _, retry⟩, entry⟩ <;> rfl
  | chargeTokens s limits tokens =>
      show (l.chargeTokens s limits tokens now).2.window = l.window
      unfold chargeTokens
      split_ifs <;> rfl
  | tpmExhausted s limits =>
      show (l.tpmExhausted s limits now).2.window = l.window
      unfold tpmExhausted
      split_ifs
      · rfl
      · dsimp only
        split_ifs <;> rfl
  | release guard =>
      show (guard.drop l).window = l.window
      unfold ConcurrencyGuard.drop
      split
      · rfl
      · split <;> rfl

end

/-! ### Intervals -/

/-- Calls in the order of their times, all with the limit for the scope. -/
structure Under (limitOf : Limits → Int) (limit : Int) (scope : Id) (events : List LimiterEvent) :
    Prop where
  ordered : events.Pairwise fun e e' => e.now ≤ e'.now
  limit : ∀ e ∈ events, ∀ limits ∈ e.limits scope, limitOf limits = limit

theorem Under.of_sublist {limitOf : Limits → Int} {limit : Int} {scope : Id}
    {events events' : List LimiterEvent} (h : Under limitOf limit scope events)
    (hSub : events'.Sublist events) : Under limitOf limit scope events' :=
  ⟨h.ordered.sublist hSub, fun e he => h.limit e (hSub.subset he)⟩

section

variable {l : Limiter} {scope : Id} {limit : Int} {rate : Rat} {start stop : Timestamp}

/-- From a bucket on: what it holds and what is refilled. -/
theorem admitted_of_bucket {events : List LimiterEvent} (hPos : 0 < limit) (hRate : 0 ≤ rate)
    (hUnder : Under Limits.rpm limit scope events) {b : Bucket}
    (hBucket : (l.entry scope).rpm = some b) (hSlow : b.refillPerSec ≤ rate)
    (hAfter : ∀ e ∈ events, b.last ≤ e.now) (hStop : ∀ e ∈ events, e.now ≤ stop)
    (hLast : b.last ≤ stop) :
    (l.admitted scope events : Rat) ≤ max b.tokens 0 + rate * seconds (stop - b.last) := by
  induction events generalizing l b with
  | nil =>
      have hSpan : (0 : Rat) ≤ ((stop - b.last : Int) : Rat) := by
        exact_mod_cast Int.sub_nonneg_of_le hLast
      have hGrowth : 0 ≤ rate * seconds (stop - b.last) := by
        unfold seconds
        positivity
      have hHeld := le_max_right b.tokens 0
      simp only [admitted, Nat.cast_zero]
      linarith
  | cons e rest ih =>
      have hRest := hUnder.of_sublist (List.sublist_cons_self e rest)
      have hStopRest : ∀ e' ∈ rest, e'.now ≤ stop := fun e' he => hStop e' (List.mem_cons_of_mem e he)
      have hLimit := hUnder.limit e List.mem_cons_self
      unfold admitted
      push_cast
      rcases rpm_after l e hPos hLimit with ⟨hSame, hNone⟩ | ⟨b', hBucket', hTook⟩
      · rw [hNone]
        have hIh := ih hRest (hSame.trans hBucket) hSlow
          (fun e' he => hAfter e' (List.mem_cons_of_mem e he)) hStopRest hLast
        simpa using hIh
      · have hSlow' : b'.refillPerSec ≤ rate := by
          rw [hTook.rate, hBucket, Option.getD_some]
          exact hSlow
        have hIh := ih hRest hBucket' hSlow'
          (fun e' he => by rw [hTook.last]; exact List.rel_of_pairwise_cons hUnder.ordered he)
          hStopRest (by rw [hTook.last]; exact hStop e List.mem_cons_self)
        have hGrown := hTook.grown b hBucket rate (hAfter e List.mem_cons_self) hSlow hRate
        rw [hTook.last] at hIh
        have hSplit : rate * seconds (stop - b.last) =
            rate * seconds (e.now - b.last) + rate * seconds (stop - e.now) := by
          unfold seconds
          push_cast
          ring
        rw [hSplit]
        linarith

/-- Over an interval, from any buckets that do not refill too fast. -/
theorem admitted_le {events : List LimiterEvent} (hPos : 0 < limit) (hRate : 0 ≤ rate)
    (hNew : limit / max l.window (1 / 1000) ≤ rate)
    (hUnder : Under Limits.rpm limit scope events)
    (hSlow : ∀ b ∈ (l.entry scope).rpm, b.refillPerSec ≤ rate)
    (hStart : ∀ e ∈ events, start ≤ e.now) (hStop : ∀ e ∈ events, e.now ≤ stop)
    (hSpan : start ≤ stop) :
    (l.admitted scope events : Rat) ≤ limit + rate * seconds (stop - start) := by
  have hLimit : (0 : Rat) ≤ limit := by exact_mod_cast hPos.le
  induction events generalizing l with
  | nil =>
      have hLength : (0 : Rat) ≤ ((stop - start : Int) : Rat) := by
        exact_mod_cast Int.sub_nonneg_of_le hSpan
      have hGrowth : 0 ≤ rate * seconds (stop - start) := by
        unfold seconds
        positivity
      simp only [admitted, Nat.cast_zero]
      linarith
  | cons e rest ih =>
      have hRest := hUnder.of_sublist (List.sublist_cons_self e rest)
      have hStopRest : ∀ e' ∈ rest, e'.now ≤ stop := fun e' he => hStop e' (List.mem_cons_of_mem e he)
      unfold admitted
      push_cast
      rcases rpm_after l e hPos (hUnder.limit e List.mem_cons_self) with
        ⟨hSame, hNone⟩ | ⟨b', hBucket', hTook⟩
      · rw [hNone]
        have hNew' : limit / max (l.after e).window (1 / 1000) ≤ rate := by
          rw [window_after]
          exact hNew
        have hIh := ih hNew' hRest (hSame ▸ hSlow)
          (fun e' he => hStart e' (List.mem_cons_of_mem e he)) hStopRest
        simpa using hIh
      · have hSlow' : b'.refillPerSec ≤ rate := rate_of_took (P := (· ≤ rate)) hTook hSlow hNew
        have hIh := admitted_of_bucket hPos hRate hRest hBucket' hSlow'
          (fun e' he => by rw [hTook.last]; exact List.rel_of_pairwise_cons hUnder.ordered he)
          hStopRest (by rw [hTook.last]; exact hStop e List.mem_cons_self)
        have hHeld := hTook.held
        have hShorter : rate * seconds (stop - b'.last) ≤ rate * seconds (stop - start) := by
          apply mul_le_mul_of_nonneg_left _ hRate
          have hLater : ((stop - b'.last : Int) : Rat) ≤ ((stop - start : Int) : Rat) := by
            rw [hTook.last]
            exact_mod_cast Int.sub_le_sub_left (hStart e List.mem_cons_self) stop
          unfold seconds
          linarith
        linarith

end

/-! ### Tokens -/

/-- The calls that come to the bucket of tokens of a scope. -/
def comesToTokens (scope : Id) (e : LimiterEvent) : Bool :=
  match e.call with
  | .chargeTokens s _ _ | .tpmExhausted s _ => s = scope
  | _ => false

section

variable {l : Limiter} {scope : Id} {limit : Int}

/-- A call that comes to the bucket of tokens: what it takes and what it leaves
were there. -/
structure Spent (l : Limiter) (scope : Id) (limit : Int) (now : Timestamp) (taken : Int)
    (b : Bucket) : Prop where
  last : b.last = now
  rate : b.refillPerSec =
    ((l.entry scope).tpm.getD (Bucket.new limit l.window now)).refillPerSec
  held : (∀ b₀ ∈ (l.entry scope).tpm, b₀.capacity ≤ limit) →
    b.tokens + taken ≤ limit ∧ b.capacity ≤ limit
  grown : ∀ b₀ ∈ (l.entry scope).tpm, ∀ rate, b₀.last ≤ now → b₀.refillPerSec ≤ rate → 0 ≤ rate →
    b.tokens + taken ≤ b₀.tokens + rate * seconds (now - b₀.last)

theorem spent_of_refill (full : Bucket) {b₀ : Bucket} {now : Timestamp} {taken : Int}
    (hBucket : (l.entry scope).tpm.getD (Bucket.new limit l.window now) = b₀)
    (hTokens : full.tokens = b₀.tokens) (hRate : full.refillPerSec = b₀.refillPerSec)
    (hLast : full.last = b₀.last) (hCapacity : full.capacity = limit ∨ full.capacity = b₀.capacity) :
    Spent l scope limit now taken
      { full.refill now with tokens := (full.refill now).tokens - taken } := by
  have hBound : (∀ b ∈ (l.entry scope).tpm, b.capacity ≤ limit) → full.capacity ≤ limit := by
    intro hAll
    rcases hCapacity with h | h
    · exact h.le
    · rw [h, ← hBucket]
      cases hEntry : (l.entry scope).tpm with
      | none => exact le_refl (limit : Rat)
      | some b => exact hAll b hEntry
  refine ⟨rfl, by rw [hBucket]; exact hRate, fun hAll => ⟨?_, hBound hAll⟩, ?_⟩
  · have hRefill := full.refill_le_capacity now
    have hCap := hBound hAll
    show (full.refill now).tokens - taken + taken ≤ limit
    linarith
  · intro b hb rate hLastLe hRateLe hPos
    have hSame : b = b₀ := by rwa [Option.mem_def.mp hb, Option.getD_some] at hBucket
    subst hSame
    have hRefill : (full.refill now).tokens ≤ full.tokens + rate * seconds (now - full.last) :=
      Bucket.refill_le (hLast ▸ hLastLe) (hRate ▸ hRateLe) hPos
    rw [hTokens, hLast] at hRefill
    show (full.refill now).tokens - taken + taken ≤ _
    linarith

theorem tpm_takeRpm (entry : Scope) (limits : Limits) (window : Rat) (now : Timestamp) :
    (takeRpm entry limits window now).2.tpm = entry.tpm := by
  unfold takeRpm
  split_ifs <;> rfl

theorem tpm_check (l : Limiter) (scope s : Id) (limits : Limits) (now : Timestamp) :
    ((l.check s limits now).2.entry scope).tpm = (l.entry scope).tpm := by
  by_cases hScope : scope = s
  · subst hScope
    unfold check
    by_cases hUnlimited : limits.isUnlimited = true
    · rw [if_pos hUnlimited]
    rw [if_neg hUnlimited]
    dsimp only
    by_cases hFull : 0 < limits.maxConcurrent ∧ limits.maxConcurrent ≤ (l.entry scope).inFlight
    · rw [if_pos hFull, entry_put_self]
    · rw [if_neg hFull]
      have hSame := tpm_takeRpm (l.entry scope) limits l.window now
      generalize takeRpm (l.entry scope) limits l.window now = taken at hSame ⊢
      obtain ⟨⟨_ | _, retry⟩, entry⟩ := taken <;> simpa using hSame
  · exact congrArg Scope.tpm (check_entry_of_ne l limits now hScope)

theorem tpm_drop (guard : ConcurrencyGuard) (l : Limiter) (scope : Id) :
    ((guard.drop l).entry scope).tpm = (l.entry scope).tpm := by
  cases guard with
  | none => rfl
  | some s =>
      unfold ConcurrencyGuard.drop
      dsimp only
      cases hEntry : l.scopes s with
      | none => rfl
      | some entry =>
          rw [entry_put]
          split_ifs with h
          · rw [h]
            simp [Limiter.entry, hEntry]
          · rfl

/-- A call leaves the bucket of tokens alone, or comes to it with the limit. -/
theorem tpm_after (l : Limiter) (e : LimiterEvent) (hPos : 0 < limit)
    (hLimit : ∀ limits ∈ e.limits scope, limits.tpm = limit) :
    (((l.after e).entry scope).tpm = (l.entry scope).tpm ∧ comesToTokens scope e = false ∧
        e.charges scope = 0) ∨
      ∃ b, ((l.after e).entry scope).tpm = some b ∧
        Spent l scope limit e.now (e.charges scope) b := by
  obtain ⟨now, call⟩ := e
  cases call with
  | check s limits => exact .inl ⟨tpm_check l scope s limits now, rfl, rfl⟩
  | release guard => exact .inl ⟨tpm_drop guard l scope, rfl, rfl⟩
  | chargeTokens s limits tokens =>
      by_cases hScope : s = scope
      · subst hScope
        have hTpm : limits.tpm = limit := hLimit limits (by simp [LimiterEvent.limits])
        subst hTpm
        refine .inr ⟨_, ?_, spent_of_refill { (l.entry s).tpm.getD
          (Bucket.new limits.tpm l.window now) with capacity := limits.tpm } rfl rfl rfl rfl (.inl rfl)⟩
        show ((l.chargeTokens s limits tokens now).2.entry s).tpm = _
        unfold chargeTokens
        rw [if_neg (not_le.mpr hPos)]
        dsimp only
        rw [entry_put_self]
        simp [LimiterEvent.charges]
      · refine .inl ⟨?_, by simp [comesToTokens, hScope], by simp [LimiterEvent.charges, hScope]⟩
        show ((l.chargeTokens s limits tokens now).2.entry scope).tpm = _
        unfold chargeTokens
        split_ifs
        · rfl
        · dsimp only
          rw [entry_put_of_ne _ _ (Ne.symm hScope)]
  | tpmExhausted s limits =>
      by_cases hScope : s = scope
      · subst hScope
        have hTpm : limits.tpm = limit := hLimit limits (by simp [LimiterEvent.limits])
        subst hTpm
        refine .inr ⟨_, ?_, spent_of_refill ((l.entry s).tpm.getD
          (Bucket.new limits.tpm l.window now)) rfl rfl rfl rfl (.inr rfl)⟩
        show ((l.tpmExhausted s limits now).2.entry s).tpm = _
        unfold tpmExhausted
        rw [if_neg (not_le.mpr hPos)]
        dsimp only
        split_ifs <;> simp [LimiterEvent.charges]
      · refine .inl ⟨?_, by simp [comesToTokens, hScope], rfl⟩
        show ((l.tpmExhausted s limits now).2.entry scope).tpm = _
        unfold tpmExhausted
        split_ifs
        · rfl
        · dsimp only
          split_ifs <;> rw [entry_put_of_ne _ _ (Ne.symm hScope)]

theorem rate_of_spent {now : Timestamp} {taken : Int} {b : Bucket} {P : Rat → Prop}
    (hSpent : Spent l scope limit now taken b)
    (hOld : ∀ b ∈ (l.entry scope).tpm, P b.refillPerSec)
    (hNew : P (limit / max l.window (1 / 1000))) : P b.refillPerSec := by
  rw [hSpent.rate]
  cases hEntry : (l.entry scope).tpm with
  | none => exact hNew
  | some b₀ => exact hOld b₀ hEntry

variable {rate : Rat} {start stop : Timestamp}

@[simp] theorem charged_cons (scope : Id) (e : LimiterEvent) (rest : List LimiterEvent) :
    charged scope (e :: rest) = e.charges scope + charged scope rest := by
  simp [charged]

/-- From a bucket on, what is taken and left was held or refilled. -/
theorem charged_of_bucket {events : List LimiterEvent} (hPos : 0 < limit) (hRate : 0 ≤ rate)
    (hUnder : Under Limits.tpm limit scope events) {b b' : Bucket}
    (hBucket : (l.entry scope).tpm = some b) (hSlow : b.refillPerSec ≤ rate)
    (hAfter : ∀ e ∈ events, b.last ≤ e.now) (hStop : ∀ e ∈ events, e.now ≤ stop)
    (hLast : b.last ≤ stop) (hEnd : ((l.runEvents events).entry scope).tpm = some b') :
    charged scope events + b'.tokens ≤ b.tokens + rate * seconds (stop - b.last) := by
  induction events generalizing l b with
  | nil =>
      have hSame : b = b' := Option.some.inj (hBucket.symm.trans hEnd)
      subst hSame
      have hSpan : (0 : Rat) ≤ ((stop - b.last : Int) : Rat) := by
        exact_mod_cast Int.sub_nonneg_of_le hLast
      have hGrowth : 0 ≤ rate * seconds (stop - b.last) := by
        unfold seconds
        positivity
      simp only [charged, List.map_nil, List.sum_nil, Int.cast_zero]
      linarith
  | cons e rest ih =>
      have hRest := hUnder.of_sublist (List.sublist_cons_self e rest)
      have hStopRest : ∀ e' ∈ rest, e'.now ≤ stop := fun e' he => hStop e' (List.mem_cons_of_mem e he)
      rw [charged_cons]
      push_cast
      rcases tpm_after l e hPos (hUnder.limit e List.mem_cons_self) with
        ⟨hSame, _, hNone⟩ | ⟨b₁, hBucket₁, hSpent⟩
      · rw [hNone]
        have hIh := ih hRest (hSame.trans hBucket) hSlow
          (fun e' he => hAfter e' (List.mem_cons_of_mem e he)) hStopRest hLast hEnd
        simpa using hIh
      · have hSlow₁ : b₁.refillPerSec ≤ rate := by
          rw [hSpent.rate, hBucket, Option.getD_some]
          exact hSlow
        have hIh := ih hRest hBucket₁ hSlow₁
          (fun e' he => by rw [hSpent.last]; exact List.rel_of_pairwise_cons hUnder.ordered he)
          hStopRest (by rw [hSpent.last]; exact hStop e List.mem_cons_self) hEnd
        have hGrown := hSpent.grown b hBucket rate (hAfter e List.mem_cons_self) hSlow hRate
        rw [hSpent.last] at hIh
        have hSplit : rate * seconds (stop - b.last) =
            rate * seconds (e.now - b.last) + rate * seconds (stop - e.now) := by
          unfold seconds
          push_cast
          ring
        rw [hSplit]
        linarith

/-- Over an interval, from any bucket that does not refill too fast or hold too
much. -/
theorem charged_le {events : List LimiterEvent} (hPos : 0 < limit) (hRate : 0 ≤ rate)
    (hNew : limit / max l.window (1 / 1000) ≤ rate)
    (hUnder : Under Limits.tpm limit scope events)
    (hSlow : ∀ b ∈ (l.entry scope).tpm, b.refillPerSec ≤ rate)
    (hHolds : ∀ b ∈ (l.entry scope).tpm, b.capacity ≤ limit)
    (hStart : ∀ e ∈ events, start ≤ e.now) (hStop : ∀ e ∈ events, e.now ≤ stop)
    (hComes : events.any (comesToTokens scope) = true) {b : Bucket}
    (hEnd : ((l.runEvents events).entry scope).tpm = some b) :
    charged scope events + b.tokens ≤ limit + rate * seconds (stop - start) := by
  induction events generalizing l with
  | nil => simp at hComes
  | cons e rest ih =>
      have hRest := hUnder.of_sublist (List.sublist_cons_self e rest)
      have hStopRest : ∀ e' ∈ rest, e'.now ≤ stop := fun e' he => hStop e' (List.mem_cons_of_mem e he)
      rw [charged_cons]
      push_cast
      rcases tpm_after l e hPos (hUnder.limit e List.mem_cons_self) with
        ⟨hSame, hElsewhere, hNone⟩ | ⟨b₁, hBucket₁, hSpent⟩
      · rw [hNone]
        have hNew' : limit / max (l.after e).window (1 / 1000) ≤ rate := by
          rw [window_after]
          exact hNew
        have hLater : rest.any (comesToTokens scope) = true := by
          simpa [hElsewhere] using hComes
        have hIh := ih hNew' hRest (hSame ▸ hSlow) (hSame ▸ hHolds)
          (fun e' he => hStart e' (List.mem_cons_of_mem e he)) hStopRest hLater hEnd
        simpa using hIh
      · have hSlow₁ : b₁.refillPerSec ≤ rate := rate_of_spent (P := (· ≤ rate)) hSpent hSlow hNew
        have hIh := charged_of_bucket hPos hRate hRest hBucket₁ hSlow₁
          (fun e' he => by rw [hSpent.last]; exact List.rel_of_pairwise_cons hUnder.ordered he)
          hStopRest (by rw [hSpent.last]; exact hStop e List.mem_cons_self) hEnd
        have hHeld := (hSpent.held hHolds).1
        have hShorter : rate * seconds (stop - b₁.last) ≤ rate * seconds (stop - start) := by
          apply mul_le_mul_of_nonneg_left _ hRate
          have hLater : ((stop - b₁.last : Int) : Rat) ≤ ((stop - start : Int) : Rat) := by
            rw [hSpent.last]
            exact_mod_cast Int.sub_le_sub_left (hStart e List.mem_cons_self) stop
          unfold seconds
          linarith
        linarith

end

/-! ### After a change -/

theorem window_runEvents (l : Limiter) (events : List LimiterEvent) :
    (l.runEvents events).window = l.window := by
  induction events generalizing l with
  | nil => rfl
  | cons e rest ih => exact (ih (l.after e)).trans (window_after l e)

section

variable {l : Limiter} {scope : Id} {limit : Int} {P : Rat → Prop}

theorem rpm_runEvents {events : List LimiterEvent} (hPos : 0 < limit)
    (hUnder : Under Limits.rpm limit scope events) (hNew : P (limit / max l.window (1 / 1000)))
    (hOld : ∀ b ∈ (l.entry scope).rpm, P b.refillPerSec) :
    ∀ b ∈ ((l.runEvents events).entry scope).rpm, P b.refillPerSec := by
  induction events generalizing l with
  | nil => exact hOld
  | cons e rest ih =>
      apply ih (hUnder.of_sublist (List.sublist_cons_self e rest))
      · rw [window_after]
        exact hNew
      rcases rpm_after l e hPos (hUnder.limit e List.mem_cons_self) with
        ⟨hSame, _⟩ | ⟨b, hBucket, hTook⟩
      · rw [hSame]
        exact hOld
      · intro b' hb
        have hSame : b = b' := Option.some.inj (hBucket.symm.trans hb)
        rw [← hSame]
        exact rate_of_took hTook hOld hNew

theorem tpm_runEvents {events : List LimiterEvent} (hPos : 0 < limit)
    (hUnder : Under Limits.tpm limit scope events) (hNew : P (limit / max l.window (1 / 1000)))
    (hOld : ∀ b ∈ (l.entry scope).tpm, P b.refillPerSec) :
    ∀ b ∈ ((l.runEvents events).entry scope).tpm, P b.refillPerSec := by
  induction events generalizing l with
  | nil => exact hOld
  | cons e rest ih =>
      apply ih (hUnder.of_sublist (List.sublist_cons_self e rest))
      · rw [window_after]
        exact hNew
      rcases tpm_after l e hPos (hUnder.limit e List.mem_cons_self) with
        ⟨hSame, _⟩ | ⟨b, hBucket, hSpent⟩
      · rw [hSame]
        exact hOld
      · intro b' hb
        have hSame : b = b' := Option.some.inj (hBucket.symm.trans hb)
        rw [← hSame]
        exact rate_of_spent hSpent hOld hNew

theorem capacity_runEvents {events : List LimiterEvent} (hPos : 0 < limit)
    (hUnder : Under Limits.tpm limit scope events)
    (hOld : ∀ b ∈ (l.entry scope).tpm, b.capacity ≤ limit) :
    ∀ b ∈ ((l.runEvents events).entry scope).tpm, b.capacity ≤ limit := by
  induction events generalizing l with
  | nil => exact hOld
  | cons e rest ih =>
      apply ih (hUnder.of_sublist (List.sublist_cons_self e rest))
      rcases tpm_after l e hPos (hUnder.limit e List.mem_cons_self) with
        ⟨hSame, _⟩ | ⟨b, hBucket, hSpent⟩
      · rw [hSame]
        exact hOld
      · intro b' hb
        have hSame : b = b' := Option.some.inj (hBucket.symm.trans hb)
        rw [← hSame]
        exact (hSpent.held hOld).2

end

/-- Over any interval of the calls, what is let through under a new limit. -/
def RequestsObey (l : Limiter) (scope : Id) (limit : Int) (events : List LimiterEvent) : Prop :=
  ∀ p q r, events = p ++ q ++ r → ∀ start stop : Timestamp, start ≤ stop →
    (∀ e ∈ q, start ≤ e.now ∧ e.now ≤ stop) →
    ((l.runEvents p).admitted scope q : Rat) ≤
      limit + limit * seconds (stop - start) / l.window

/-- Over any interval of the calls that comes to the bucket of tokens, what is
taken and what is left of it. -/
def TokensObey (l : Limiter) (scope : Id) (limit : Int) (events : List LimiterEvent) : Prop :=
  ∀ p q r, events = p ++ q ++ r → ∀ start stop : Timestamp, start ≤ stop →
    (∀ e ∈ q, start ≤ e.now ∧ e.now ≤ stop) → q.any (comesToTokens scope) = true →
    ∀ b ∈ ((l.runEvents (p ++ q)).entry scope).tpm,
      charged scope q + b.tokens ≤ limit + limit * seconds (stop - start) / l.window

/-- The bucket refills at the rate of the limit, at any time after any of the
calls. -/
def RefillsAt (l : Limiter) (bucket : Scope → Option Bucket) (scope : Id) (limit : Int)
    (events : List LimiterEvent) : Prop :=
  ∀ p r, events = p ++ r → ∀ b ∈ bucket ((l.runEvents p).entry scope), ∀ now,
    (b.refill now).tokens = min (b.tokens + b.elapsed now * (limit / l.window)) b.capacity

/-- No bucket, or one made under no higher a limit. -/
def MadeBelow (bucket : Option Bucket) (limit : Int) (window : Rat) : Prop :=
  ∀ b ∈ bucket, b.refillPerSec ≤ limit / window

/-- No bucket, or one made under the same limit. -/
def MadeAt (bucket : Option Bucket) (limit : Int) (window : Rat) : Prop :=
  ∀ b ∈ bucket, b.refillPerSec = limit / window

def HoldsNoMore (bucket : Option Bucket) (limit : Int) : Prop := ∀ b ∈ bucket, b.capacity ≤ limit

section

variable {window : Rat} {l : Limiter} {scope : Id} {limit : Int} {events : List LimiterEvent}

theorem Under.middle {limitOf : Limits → Int} {p q r : List LimiterEvent}
    (h : Under limitOf limit scope events) (hSplit : events = p ++ q ++ r) :
    Under limitOf limit scope q ∧ Under limitOf limit scope p := by
  subst hSplit
  have hFront := h.of_sublist (List.sublist_append_left (p ++ q) r)
  exact ⟨hFront.of_sublist (List.sublist_append_right p q),
    hFront.of_sublist (List.sublist_append_left p q)⟩

theorem max_window (hWindow : 1 / 1000 ≤ l.window) : max l.window (1 / 1000) = l.window :=
  max_eq_left hWindow

theorem requestsObey_of_madeBelow (hWindow : 1 / 1000 ≤ l.window) (hPos : 0 < limit)
    (hUnder : Under Limits.rpm limit scope events)
    (hMade : MadeBelow (l.entry scope).rpm limit l.window) :
    l.RequestsObey scope limit events := by
  intro p q r hSplit start stop hSpan hWithin
  obtain ⟨hQ, hP⟩ := hUnder.middle hSplit
  have hRate : 0 ≤ (limit : Rat) / l.window := by
    have hLimit : (0 : Rat) ≤ limit := by exact_mod_cast hPos.le
    have hNonneg : 0 ≤ l.window := le_trans (by norm_num) hWindow
    positivity
  have hNew : (limit : Rat) / max l.window (1 / 1000) ≤ limit / l.window := by
    rw [max_window hWindow]
  have hSlow := rpm_runEvents (P := (· ≤ (limit : Rat) / l.window)) hPos hP hNew hMade
  have hBound := admitted_le (l := l.runEvents p) hPos hRate (by rwa [window_runEvents]) hQ hSlow
    (fun e he => (hWithin e he).1) (fun e he => (hWithin e he).2) hSpan
  rwa [div_mul_eq_mul_div] at hBound

theorem tokensObey_of_madeBelow (hWindow : 1 / 1000 ≤ l.window) (hPos : 0 < limit)
    (hUnder : Under Limits.tpm limit scope events)
    (hMade : MadeBelow (l.entry scope).tpm limit l.window)
    (hHolds : HoldsNoMore (l.entry scope).tpm limit) :
    l.TokensObey scope limit events := by
  intro p q r hSplit start stop _ hWithin hComes b hEnd
  obtain ⟨hQ, hP⟩ := hUnder.middle hSplit
  have hRate : 0 ≤ (limit : Rat) / l.window := by
    have hLimit : (0 : Rat) ≤ limit := by exact_mod_cast hPos.le
    have hNonneg : 0 ≤ l.window := le_trans (by norm_num) hWindow
    positivity
  have hNew : (limit : Rat) / max l.window (1 / 1000) ≤ limit / l.window := by
    rw [max_window hWindow]
  have hSlow := tpm_runEvents (P := (· ≤ (limit : Rat) / l.window)) hPos hP hNew hMade
  have hRun : l.runEvents (p ++ q) = (l.runEvents p).runEvents q := List.foldl_append
  rw [hRun] at hEnd
  have hBound := charged_le (l := l.runEvents p) hPos hRate (by rwa [window_runEvents]) hQ hSlow
    (capacity_runEvents hPos hP hHolds) (fun e he => (hWithin e he).1)
    (fun e he => (hWithin e he).2) hComes hEnd
  rwa [div_mul_eq_mul_div] at hBound

theorem refillsAt_of_rate {bucket : Scope → Option Bucket}
    (hRate : ∀ p r, events = p ++ r →
      MadeAt (bucket ((l.runEvents p).entry scope)) limit l.window) :
    l.RefillsAt bucket scope limit events := by
  intro p r hSplit b hb now
  rw [← hRate p r hSplit b hb]
  rfl

end

/-- Whatever was called before, a new limit is obeyed as far as the bucket was
made under it: a bucket of requests takes up the new capacity, neither takes up
the new rate. -/
theorem new_limit_obeyed {window : Rat} (hWindow : 1 / 1000 ≤ window)
    (before after : List LimiterEvent) (scope : Id) {limit : Int} (hPos : 0 < limit) :
    let l := (Limiter.new window).runEvents before
    (Under Limits.rpm limit scope after →
      (MadeBelow (l.entry scope).rpm limit window → l.RequestsObey scope limit after) ∧
      (MadeAt (l.entry scope).rpm limit window → l.RefillsAt Scope.rpm scope limit after)) ∧
    (Under Limits.tpm limit scope after →
      (MadeBelow (l.entry scope).tpm limit window → HoldsNoMore (l.entry scope).tpm limit →
        l.TokensObey scope limit after) ∧
      (MadeAt (l.entry scope).tpm limit window → l.RefillsAt Scope.tpm scope limit after)) := by
  have hSame : ((Limiter.new window).runEvents before).window = window :=
    window_runEvents (Limiter.new window) before
  generalize (Limiter.new window).runEvents before = l at hSame
  intro l
  subst hSame
  have hNew : (limit : Rat) / max l.window (1 / 1000) = limit / l.window := by
    rw [max_window hWindow]
  refine ⟨fun hUnder => ⟨?_, fun hMade => ?_⟩, fun hUnder => ⟨?_, fun hMade => ?_⟩⟩
  · exact requestsObey_of_madeBelow hWindow hPos hUnder
  · apply refillsAt_of_rate
    intro p r hSplit
    have hP := hUnder.of_sublist (hSplit ▸ List.sublist_append_left p r)
    exact rpm_runEvents (P := (· = (limit : Rat) / l.window)) hPos hP hNew hMade
  · exact tokensObey_of_madeBelow hWindow hPos hUnder
  · apply refillsAt_of_rate
    intro p r hSplit
    have hP := hUnder.of_sublist (hSplit ▸ List.sublist_append_left p r)
    exact tpm_runEvents (P := (· = (limit : Rat) / l.window)) hPos hP hNew hMade

def checkUnder (second : Int) (rpm : Int) : LimiterEvent :=
  ⟨second * 1000000000, .check ['k'] { rpm := rpm }⟩

/-- A key goes from two requests a minute to five and back to two. -/
theorem two_again :
    ((Limiter.new 60).runEvents [checkUnder 0 2, checkUnder 1 5]).RequestsObey ['k'] 2
        [checkUnder 2 2, checkUnder 3 2] ∧
      ((Limiter.new 60).runEvents [checkUnder 0 2, checkUnder 1 5]).RefillsAt Scope.rpm ['k'] 2
        [checkUnder 2 2, checkUnder 3 2] := by
  have hUnder : Under Limits.rpm 2 ['k'] [checkUnder 2 2, checkUnder 3 2] :=
    ⟨by simp [checkUnder], by simp [checkUnder, LimiterEvent.limits]⟩
  have hBucket : (((Limiter.new 60).runEvents [checkUnder 0 2, checkUnder 1 5]).entry ['k']).rpm =
      some ⟨1 / 30, 5, 1 / 30, 1000000000⟩ := by
    decide +kernel
  have hWindow : (1 : Rat) / 1000 ≤ 60 := by norm_num
  have hObeyed := (new_limit_obeyed hWindow [checkUnder 0 2, checkUnder 1 5]
    [checkUnder 2 2, checkUnder 3 2] ['k'] (by decide : (0 : Int) < 2)).1 hUnder
  refine ⟨hObeyed.1 ?_, hObeyed.2 ?_⟩
  · rw [hBucket]
    rintro b ⟨⟩
    norm_num
  · rw [hBucket]
    rintro b ⟨⟩
    norm_num

/-- The bucket of a key that had two requests a minute still refills at that
rate when the key has one: two turns in half a minute. -/
theorem two_in_half_a_minute :
    ¬ ∀ (before after : List LimiterEvent), Under Limits.rpm 1 ['k'] after →
      ((Limiter.new 60).runEvents before).RequestsObey ['k'] 1 after := by
  intro hAll
  have hUnder : Under Limits.rpm 1 ['k'] [checkUnder 0 1, checkUnder 30 1] :=
    ⟨by simp [checkUnder], by simp [checkUnder, LimiterEvent.limits]⟩
  have hObeyed := hAll [checkUnder 0 2] [checkUnder 0 1, checkUnder 30 1] hUnder [] [checkUnder 0 1, checkUnder 30 1] [] rfl
    0 30000000000 (by decide) (by simp [checkUnder])
  have hTwo : ((Limiter.new 60).runEvents [checkUnder 0 2]).admitted ['k'] [checkUnder 0 1, checkUnder 30 1] = 2 := by
    decide +kernel
  have hWindow : ((Limiter.new 60).runEvents [checkUnder 0 2]).window = 60 := window_runEvents _ _
  rw [show ((Limiter.new 60).runEvents [checkUnder 0 2]).runEvents [] =
    (Limiter.new 60).runEvents [checkUnder 0 2] from rfl, hTwo, hWindow] at hObeyed
  norm_num [seconds] at hObeyed

end Limiter

end Gateway
