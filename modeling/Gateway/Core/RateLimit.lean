import Gateway.Core.Spend
import Mathlib.Logic.Function.Basic

/-! The rate limiter: token buckets with a lazy refill, and a count of the turns
in flight. Quantities that the source keeps in floating point are rationals. -/
namespace Gateway

/-- Resolved limits; zero is no limit. -/
structure Limits where
  rpm : Int := 0
  tpm : Int := 0
  maxConcurrent : Int := 0
  deriving DecidableEq

def Limits.isUnlimited (l : Limits) : Bool := l.rpm = 0 && l.tpm = 0 && l.maxConcurrent = 0

structure RateDecision where
  allowed : Bool
  /-- In seconds. -/
  retryAfter : Rat
  reason : String
  deriving DecidableEq

def RateDecision.allow : RateDecision := ⟨true, 0, ""⟩

/-! ### Buckets -/

structure Bucket where
  tokens : Rat
  capacity : Rat
  /-- Tokens added per second. -/
  refillPerSec : Rat
  last : Timestamp
  deriving DecidableEq

namespace Bucket

def new (capacity window : Rat) (now : Timestamp) : Bucket where
  tokens := capacity
  capacity := capacity
  refillPerSec := capacity / max window (1 / 1000)
  last := now

/-- Whole milliseconds since the last refill count, in seconds; a clock that
went back counts nothing. -/
def elapsed (b : Bucket) (now : Timestamp) : Rat := (max ((now - b.last).tdiv 1000000) 0 : Int) / 1000

def refill (b : Bucket) (now : Timestamp) : Bucket :=
  { b with
    tokens := min (b.tokens + b.elapsed now * b.refillPerSec) b.capacity
    last := now }

/-- Whether the bucket held the cost, and how long it takes to hold it. -/
def take (b : Bucket) (cost : Rat) (now : Timestamp) : (Bool × Rat) × Bucket :=
  let b := b.refill now
  if cost ≤ b.tokens then ((true, 0), { b with tokens := b.tokens - cost })
  else ((false, (cost - b.tokens) / max b.refillPerSec (1 / 1000000000)), b)

end Bucket

/-! ### The limiter -/

structure Scope where
  rpm : Option Bucket := none
  tpm : Option Bucket := none
  inFlight : Int := 0
  deriving DecidableEq

structure Limiter where
  window : Rat
  scopes : Id → Option Scope

/-- Releases a slot when it is dropped; `none` holds no slot. -/
abbrev ConcurrencyGuard := Option Id

namespace Limiter

def new (window : Rat) : Limiter := ⟨window, fun _ => none⟩

def entry (l : Limiter) (scope : Id) : Scope := (l.scopes scope).getD {}

def put (l : Limiter) (scope : Id) (s : Scope) : Limiter :=
  { l with scopes := Function.update l.scopes scope (some s) }

def inFlight (l : Limiter) (scope : Id) : Int := (l.entry scope).inFlight

@[simp] theorem entry_put_self (l : Limiter) (scope : Id) (s : Scope) :
    (l.put scope s).entry scope = s := by
  simp [entry, put]

theorem entry_put_of_ne (l : Limiter) {scope other : Id} (s : Scope) (h : other ≠ scope) :
    (l.put scope s).entry other = l.entry other := by
  simp [entry, put, h]

/-- A turn takes one from the bucket of requests, if there is one. -/
def takeRpm (entry : Scope) (limits : Limits) (window : Rat) (now : Timestamp) :
    (Bool × Rat) × Scope :=
  if 0 < limits.rpm then
    let bucket := entry.rpm.getD (Bucket.new limits.rpm window now)
    let (taken, bucket) := { bucket with capacity := limits.rpm }.take 1 now
    (taken, { entry with rpm := some bucket })
  else ((true, 0), entry)

/-- Preflight: the turns in flight, then the requests of the window. -/
def check (l : Limiter) (scope : Id) (limits : Limits) (now : Timestamp) :
    (RateDecision × ConcurrencyGuard) × Limiter :=
  if limits.isUnlimited then ((.allow, none), l)
  else
    let entry := l.entry scope
    if 0 < limits.maxConcurrent ∧ limits.maxConcurrent ≤ entry.inFlight then
      ((⟨false, 1, "concurrency"⟩, none), l.put scope entry)
    else
      let ((ok, retry), entry) := takeRpm entry limits l.window now
      if !ok then ((⟨false, retry, "rpm"⟩, none), l.put scope entry)
      else
        ((.allow, some scope), l.put scope { entry with inFlight := entry.inFlight + 1 })

/-- Tokens that a turn spent are taken whether or not the bucket holds them. The
answer is whether the next turn is refused. -/
def chargeTokens (l : Limiter) (scope : Id) (limits : Limits) (tokens : Int)
    (now : Timestamp) : Bool × Limiter :=
  if limits.tpm ≤ 0 then (false, l)
  else
    let entry := l.entry scope
    let bucket := entry.tpm.getD (Bucket.new limits.tpm l.window now)
    let bucket := { bucket with capacity := limits.tpm }.refill now
    let bucket := { bucket with tokens := bucket.tokens - tokens }
    (bucket.tokens < 1, l.put scope { entry with tpm := some bucket })

/-- Preflight: whether earlier turns have emptied the bucket of tokens. -/
def tpmExhausted (l : Limiter) (scope : Id) (limits : Limits) (now : Timestamp) :
    (Bool × Rat) × Limiter :=
  if limits.tpm ≤ 0 then ((false, 0), l)
  else
    let entry := l.entry scope
    let bucket := (entry.tpm.getD (Bucket.new limits.tpm l.window now)).refill now
    let l := l.put scope { entry with tpm := some bucket }
    if bucket.tokens < 1 then ((true, max (1 / max bucket.refillPerSec (1 / 1000000000)) 1), l)
    else ((false, 0), l)

end Limiter

/-- The slot is given back. -/
def ConcurrencyGuard.drop (guard : ConcurrencyGuard) (l : Limiter) : Limiter :=
  match guard with
  | none => l
  | some scope =>
      match l.scopes scope with
      | none => l
      | some entry => l.put scope { entry with inFlight := max (entry.inFlight - 1) 0 }

/-! ### The turns in flight -/

namespace Limiter

theorem inFlight_put (l : Limiter) (scope other : Id) (s : Scope) :
    (l.put scope s).inFlight other = if other = scope then s.inFlight else l.inFlight other := by
  unfold inFlight
  split_ifs with h
  · rw [h, entry_put_self]
  · rw [entry_put_of_ne l s h]

@[simp] theorem inFlight_new (window : Rat) (scope : Id) : (new window).inFlight scope = 0 := rfl

theorem takeRpm_inFlight (entry : Scope) (limits : Limits) (window : Rat) (now : Timestamp) :
    (takeRpm entry limits window now).2.inFlight = entry.inFlight := by
  unfold takeRpm
  split_ifs <;> rfl

/-- An entry that keeps the count of its scope keeps every count. -/
theorem inFlight_put_same (l : Limiter) {scope : Id} {s : Scope}
    (h : s.inFlight = l.inFlight scope) (other : Id) :
    (l.put scope s).inFlight other = l.inFlight other := by
  rw [inFlight_put]
  split_ifs with hSame
  · rw [hSame, h]
  · rfl

/-- A check lets a turn through with a slot that was free, lets an unlimited one
through without, or keeps it out; only the first is counted. -/
theorem check_cases (l : Limiter) (scope : Id) (limits : Limits) (now : Timestamp) :
    let ((decision, guard), l') := l.check scope limits now
    (decision.allowed = true ∧ guard = some scope ∧ limits.isUnlimited = false ∧
        (0 < limits.maxConcurrent → l.inFlight scope < limits.maxConcurrent) ∧
        ∀ other, l'.inFlight other = l.inFlight other + if other = scope then 1 else 0) ∨
      (guard = none ∧ (decision.allowed = true → limits.isUnlimited = true) ∧
        ∀ other, l'.inFlight other = l.inFlight other) := by
  unfold check
  by_cases hUnlimited : limits.isUnlimited = true
  · rw [if_pos hUnlimited]
    exact Or.inr ⟨rfl, fun _ => hUnlimited, fun _ => rfl⟩
  by_cases hFull : 0 < limits.maxConcurrent ∧ limits.maxConcurrent ≤ (l.entry scope).inFlight
  · rw [if_neg hUnlimited, if_pos hFull]
    exact Or.inr ⟨rfl, by simp, inFlight_put_same l rfl⟩
  rw [if_neg hUnlimited, if_neg hFull]
  have hCount := takeRpm_inFlight (l.entry scope) limits l.window now
  generalize takeRpm (l.entry scope) limits l.window now = taken at hCount ⊢
  obtain ⟨⟨ok, retry⟩, entry⟩ := taken
  cases ok with
  | false => exact Or.inr ⟨rfl, by simp, inFlight_put_same l hCount⟩
  | true =>
      refine Or.inl ⟨rfl, rfl, Bool.eq_false_iff.mpr hUnlimited, fun hLimit => ?_, fun other => ?_⟩
      · exact lt_of_not_ge fun h => hFull ⟨hLimit, h⟩
      · show (l.put scope _).inFlight other = _
        rw [inFlight_put]
        split_ifs with hSame
        · rw [hSame]
          exact congrArg (· + 1) hCount
        · exact (add_zero _).symm

theorem tpmExhausted_inFlight (l : Limiter) (scope : Id) (limits : Limits) (now : Timestamp)
    (other : Id) : (l.tpmExhausted scope limits now).2.inFlight other = l.inFlight other := by
  unfold tpmExhausted
  split_ifs with hNone
  · rfl
  · dsimp only
    split_ifs <;> (apply inFlight_put_same; rfl)

theorem chargeTokens_inFlight (l : Limiter) (scope : Id) (limits : Limits) (tokens : Int)
    (now : Timestamp) (other : Id) :
    (l.chargeTokens scope limits tokens now).2.inFlight other = l.inFlight other := by
  unfold chargeTokens
  split_ifs
  · rfl
  · apply inFlight_put_same
    rfl

end Limiter

/-- A slot that is counted is given back. -/
theorem ConcurrencyGuard.inFlight_drop (guard : ConcurrencyGuard) (l : Limiter)
    (hCounted : ∀ scope, guard = some scope → 0 < l.inFlight scope) (other : Id) :
    (guard.drop l).inFlight other = l.inFlight other - if guard = some other then 1 else 0 := by
  cases guard with
  | none => simp [drop]
  | some scope =>
      have hPositive := hCounted scope rfl
      unfold Limiter.inFlight Limiter.entry at hPositive
      cases hScope : l.scopes scope with
      | none => simp [hScope] at hPositive
      | some entry =>
          have hEntry : l.inFlight scope = entry.inFlight := by
            simp [Limiter.inFlight, Limiter.entry, hScope]
          simp only [hScope, Option.getD_some] at hPositive
          simp only [drop, hScope, Limiter.inFlight_put, Option.some.injEq]
          by_cases hSame : other = scope
          · rw [if_pos hSame, if_pos hSame.symm, hSame, hEntry]
            omega
          · rw [if_neg hSame, if_neg (Ne.symm hSame), sub_zero]

end Gateway
