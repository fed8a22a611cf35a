import Gateway.Core.RateLimit
import Mathlib.Data.Multiset.Filter
import Mathlib.Logic.Relation

/-! Calls to the gateway under the concurrency limit of their key. A slot is held
by the handler of a call, and given back when the handler returns: a streamed
answer goes on without one. -/
namespace Gateway.Server

/-! ### Limits -/

/-- Limits as a key, or its owner, may set them. -/
structure LimitColumns where
  rpm : Option Int := none
  tpm : Option Int := none
  maxConcurrent : Option Int := none

/-- A verified key with its limits and its owner's. -/
structure KeyAuth where
  id : Id
  key : LimitColumns := {}
  user : LimitColumns := {}

/-- The key's limits come first. -/
def resolveLimits (auth : KeyAuth) : Limits where
  rpm := (auth.key.rpm.or auth.user.rpm).getD 0
  tpm := (auth.key.tpm.or auth.user.tpm).getD 0
  maxConcurrent := (auth.key.maxConcurrent.or auth.user.maxConcurrent).getD 0

/-! ### Calls -/

inductive Stage where
  /-- Let in by the check, and not yet by the bucket of tokens. -/
  | admitted
  /-- Kept out by the bucket of tokens. -/
  | refused
  | handling
  /-- The handler has returned, and the answer is still being streamed. -/
  | streaming
  deriving DecidableEq

structure Call where
  key : Id
  limits : Limits
  now : Timestamp
  guard : ConcurrencyGuard
  stage : Stage
  deriving DecidableEq

/-- The limiter and the calls that it let in and that are not over. -/
structure State where
  limiter : Limiter
  calls : Multiset Call

def State.new (window : Rat) : State := ⟨Limiter.new window, 0⟩

/-- The check of a new call. -/
def State.arrive (s : State) (auth : KeyAuth) (now : Timestamp) : State :=
  let ((decision, guard), limiter) := s.limiter.check auth.id (resolveLimits auth) now
  if decision.allowed then
    ⟨limiter, ⟨auth.id, resolveLimits auth, now, guard, .admitted⟩ ::ₘ s.calls⟩
  else ⟨guard.drop limiter, s.calls⟩

/-- What the tasks of a gateway with rate limiting do, in any order. Each step is
one turn of the limiter's lock at most. -/
inductive Step (Known : KeyAuth → Prop) : State → State → Prop where
  | arrive (s : State) (auth : KeyAuth) (now : Timestamp) :
      Known auth → Step Known s (s.arrive auth now)
  | tokens (l : Limiter) (c : Call) (rest : Multiset Call) :
      c.stage = .admitted → Step Known ⟨l, c ::ₘ rest⟩
        ⟨(l.tpmExhausted c.key c.limits c.now).2,
          { c with stage :=
              if (l.tpmExhausted c.key c.limits c.now).1.1 then .refused else .handling } ::ₘ rest⟩
  /-- The handler returns an error or a whole answer. -/
  | answer (l : Limiter) (c : Call) (rest : Multiset Call) :
      c.stage = .refused ∨ c.stage = .handling →
        Step Known ⟨l, c ::ₘ rest⟩ ⟨c.guard.drop l, rest⟩
  /-- The handler returns a streamed answer. -/
  | stream (l : Limiter) (c : Call) (rest : Multiset Call) :
      c.stage = .handling → Step Known ⟨l, c ::ₘ rest⟩
        ⟨c.guard.drop l, { c with guard := none, stage := .streaming } ::ₘ rest⟩
  /-- A streamed answer ends, or its client is gone. -/
  | close (l : Limiter) (c : Call) (rest : Multiset Call) :
      c.stage = .streaming → Step Known ⟨l, c ::ₘ rest⟩ ⟨l, rest⟩
  /-- The client is gone while the handler runs. -/
  | hangUp (l : Limiter) (c : Call) (rest : Multiset Call) :
      c.stage ≠ .streaming → Step Known ⟨l, c ::ₘ rest⟩ ⟨c.guard.drop l, rest⟩
  /-- A turn reports its tokens. -/
  | charge (s : State) (auth : KeyAuth) (tokens : Int) (now : Timestamp) :
      Known auth → Step Known s
        { s with limiter := (s.limiter.chargeTokens auth.id (resolveLimits auth) tokens now).2 }

/-- The states of a gateway that answers requests of known keys. -/
def Reachable (Known : KeyAuth → Prop) (window : Rat) (s : State) : Prop :=
  Relation.ReflTransGen (Step Known) (State.new window) s

/-- The calls of a key, streamed answers included. -/
def State.inProgress (s : State) (key : Id) : Nat := s.calls.countP fun c => c.key = key

/-- The calls of a key whose handler is running. -/
def State.inHandler (s : State) (key : Id) : Nat :=
  s.calls.countP fun c => c.key = key ∧ c.stage ≠ .streaming

/-! ### Slots -/

/-- The slot that a call holds. -/
def Call.slot (c : Call) : ConcurrencyGuard :=
  if c.stage = .streaming ∨ c.limits.isUnlimited = true then none else some c.key

/-- Every call holds its slot, and the limiter counts the slots. -/
structure Slots (Known : KeyAuth → Prop) (s : State) : Prop where
  held : ∀ c ∈ s.calls, c.guard = c.slot
  counted : ∀ scope, s.limiter.inFlight scope = s.calls.countP fun c => c.guard = some scope
  known : ∀ c ∈ s.calls, ∃ auth, Known auth ∧ auth.id = c.key ∧ resolveLimits auth = c.limits

variable {Known : KeyAuth → Prop}

/-- The count without a call's slot. -/
theorem Slots.drop {l : Limiter} {c : Call} {rest : Multiset Call}
    (h : Slots Known ⟨l, c ::ₘ rest⟩) : Slots Known ⟨c.guard.drop l, rest⟩ where
  held := fun d hd => h.held d (Multiset.mem_cons_of_mem hd)
  known := fun d hd => h.known d (Multiset.mem_cons_of_mem hd)
  counted := by
    intro scope
    have hCount := h.counted
    simp only [Multiset.countP_cons] at hCount
    rw [ConcurrencyGuard.inFlight_drop c.guard l, hCount]
    · split_ifs <;> simp
    · intro held hHeld
      rw [hCount, if_pos hHeld]
      omega

theorem Slots.arrive {s : State} (h : Slots Known s) {auth : KeyAuth} (hKnown : Known auth)
    (now : Timestamp) : Slots Known (s.arrive auth now) := by
  have hCheck := s.limiter.check_cases auth.id (resolveLimits auth) now
  unfold State.arrive
  generalize s.limiter.check auth.id (resolveLimits auth) now = checked at hCheck ⊢
  obtain ⟨⟨decision, guard⟩, limiter⟩ := checked
  rcases hCheck with ⟨hAllowed, rfl, hLimited, -, hCount⟩ | ⟨rfl, hAllowed, hCount⟩
  · simp only [hAllowed, if_true]
    refine ⟨?_, ?_, ?_⟩
    · intro c hc
      rcases Multiset.mem_cons.mp hc with rfl | hc
      · simp [Call.slot, hLimited]
      · exact h.held c hc
    · intro scope
      rw [hCount, h.counted, Multiset.countP_cons]
      simp only [Option.some.injEq, eq_comm (a := scope)]
      split_ifs <;> simp
    · intro c hc
      rcases Multiset.mem_cons.mp hc with rfl | hc
      · exact ⟨auth, hKnown, rfl, rfl⟩
      · exact h.known c hc
  · dsimp only
    split_ifs with hIn
    · refine ⟨?_, ?_, ?_⟩
      · intro c hc
        rcases Multiset.mem_cons.mp hc with rfl | hc
        · simp [Call.slot, hAllowed hIn]
        · exact h.held c hc
      · intro scope
        rw [hCount, h.counted, Multiset.countP_cons]
        simp
      · intro c hc
        rcases Multiset.mem_cons.mp hc with rfl | hc
        · exact ⟨auth, hKnown, rfl, rfl⟩
        · exact h.known c hc
    · exact ⟨h.held, fun scope => (hCount scope).trans (h.counted scope), h.known⟩

/-- A call put in the place of another with the same slot. -/
theorem Slots.replace {l l' : Limiter} {c d : Call} {rest : Multiset Call}
    (h : Slots Known ⟨l, c ::ₘ rest⟩) (hGuard : d.guard = c.guard) (hSlot : d.slot = c.slot)
    (hKey : d.key = c.key) (hLimits : d.limits = c.limits)
    (hCount : ∀ scope, l'.inFlight scope = l.inFlight scope) : Slots Known ⟨l', d ::ₘ rest⟩ where
  held := by
    intro e he
    rcases Multiset.mem_cons.mp he with rfl | he
    · rw [hGuard, hSlot]
      exact h.held c (Multiset.mem_cons_self c rest)
    · exact h.held e (Multiset.mem_cons_of_mem he)
  counted := by
    intro scope
    have hBefore := h.counted scope
    simp only [Multiset.countP_cons] at hBefore ⊢
    rw [hCount, hBefore, hGuard]
  known := by
    intro e he
    rcases Multiset.mem_cons.mp he with rfl | he
    · rw [hKey, hLimits]
      exact h.known c (Multiset.mem_cons_self c rest)
    · exact h.known e (Multiset.mem_cons_of_mem he)

/-- A call that holds no slot comes along. -/
theorem Slots.cons {l : Limiter} {c : Call} {rest : Multiset Call} (h : Slots Known ⟨l, rest⟩)
    (hNone : c.guard = none) (hSlot : c.slot = none)
    (hKnown : ∃ auth, Known auth ∧ auth.id = c.key ∧ resolveLimits auth = c.limits) :
    Slots Known ⟨l, c ::ₘ rest⟩ where
  held := by
    intro d hd
    rcases Multiset.mem_cons.mp hd with rfl | hd
    · rw [hNone, hSlot]
    · exact h.held d hd
  counted := by
    intro scope
    rw [h.counted, Multiset.countP_cons, hNone]
    simp
  known := by
    intro d hd
    rcases Multiset.mem_cons.mp hd with rfl | hd
    · exact hKnown
    · exact h.known d hd

theorem Slots.step {s t : State} (h : Slots Known s) (hStep : Step Known s t) : Slots Known t := by
  cases hStep with
  | arrive _ auth now hKnown => exact h.arrive hKnown now
  | tokens l c rest hStage =>
      refine h.replace rfl ?_ rfl rfl (l.tpmExhausted_inFlight c.key c.limits c.now)
      unfold Call.slot
      cases (l.tpmExhausted c.key c.limits c.now).1.1 <;> simp [hStage]
  | answer l c rest hStage => exact h.drop
  | stream l c rest hStage =>
      exact h.drop.cons rfl (if_pos (Or.inl rfl)) (h.known c (Multiset.mem_cons_self c rest))
  | close l c rest hStage =>
      have hNone : c.guard = none := by
        rw [h.held c (Multiset.mem_cons_self c rest), Call.slot, if_pos (Or.inl hStage)]
      have hRest := h.drop
      rwa [hNone] at hRest
  | hangUp l c rest hStage => exact h.drop
  | charge _ auth tokens now hKnown =>
      exact ⟨h.held, fun scope => (Limiter.chargeTokens_inFlight ..).trans (h.counted scope), h.known⟩

theorem Slots.of_reachable {window : Rat} {s : State} (h : Reachable Known window s) :
    Slots Known s := by
  induction h with
  | refl => exact ⟨by simp [State.new], by simp [State.new], by simp [State.new]⟩
  | tail _ hStep ih => exact ih.step hStep

/-! ### The limit -/

variable {key : Id} {n : Int}

/-- Under a limit every handler holds a slot. -/
theorem Slots.inFlight_eq {s : State} (h : Slots Known s) (hPositive : 0 < n)
    (hLimit : ∀ auth, Known auth → auth.id = key → (resolveLimits auth).maxConcurrent = n) :
    s.limiter.inFlight key = s.inHandler key := by
  rw [h.counted, State.inHandler]
  congr 1
  refine Multiset.countP_congr rfl fun c hc => ?_
  rw [h.held c hc, Call.slot]
  obtain ⟨auth, hKnown, hKey, hLimits⟩ := h.known c hc
  by_cases hSame : c.key = key
  · have hLimited : c.limits.isUnlimited = false := by
      have hCount := hLimit auth hKnown (hKey.trans hSame)
      rw [hLimits] at hCount
      simp [Limits.isUnlimited]
      omega
    simp [hLimited, hSame]
  · simp [hSame]

/-- A step counts a slot of the key only where one was free. -/
theorem Slots.inFlight_le_step {s t : State} (h : Slots Known s) (hStep : Step Known s t)
    (hPositive : 0 < n)
    (hLimit : ∀ auth, Known auth → auth.id = key → (resolveLimits auth).maxConcurrent = n)
    (hBound : s.limiter.inFlight key ≤ n) : t.limiter.inFlight key ≤ n := by
  have hDrop {l : Limiter} {c : Call} {rest : Multiset Call} (h : Slots Known ⟨l, c ::ₘ rest⟩)
      (hBound : l.inFlight key ≤ n) : (c.guard.drop l).inFlight key ≤ n := by
    have hAfter := h.drop.counted key
    have hBefore := h.counted key
    simp only [Multiset.countP_cons] at hAfter hBefore
    rw [hAfter]
    omega
  cases hStep with
  | arrive _ auth now hKnown =>
      have hCheck := s.limiter.check_cases auth.id (resolveLimits auth) now
      unfold State.arrive
      generalize s.limiter.check auth.id (resolveLimits auth) now = checked at hCheck ⊢
      obtain ⟨⟨decision, guard⟩, limiter⟩ := checked
      rcases hCheck with ⟨hAllowed, rfl, -, hFree, hCount⟩ | ⟨rfl, -, hCount⟩
      · simp only [hAllowed, if_true]
        rw [hCount]
        split_ifs with hSame
        · have hConstant := hLimit auth hKnown hSame.symm
          rw [hConstant, ← hSame] at hFree
          exact hFree hPositive
        · simpa using hBound
      · dsimp only
        split_ifs
        · exact (hCount key).trans_le hBound
        · exact (hCount key).trans_le hBound
  | tokens l c rest hStage =>
      exact (l.tpmExhausted_inFlight c.key c.limits c.now key).trans_le hBound
  | answer l c rest hStage => exact hDrop h hBound
  | stream l c rest hStage => exact hDrop h hBound
  | close l c rest hStage => exact hBound
  | hangUp l c rest hStage => exact hDrop h hBound
  | charge _ auth tokens now hKnown => exact (Limiter.chargeTokens_inFlight ..).trans_le hBound

/-- The handlers of a key that run at a time are as many as the limiter counts,
and no more than the key's limit. -/
theorem handlers_bounded {window : Rat} (hPositive : 0 < n)
    (hLimit : ∀ auth, Known auth → auth.id = key → (resolveLimits auth).maxConcurrent = n)
    {s : State} (hReachable : Reachable Known window s) :
    (s.inHandler key : Int) ≤ n ∧ s.limiter.inFlight key = s.inHandler key := by
  have hSlots := Slots.of_reachable hReachable
  have hEqual := hSlots.inFlight_eq hPositive hLimit
  refine ⟨hEqual ▸ ?_, hEqual⟩
  induction hReachable with
  | refl => simpa [State.new] using hPositive.le
  | tail hEarlier hStep ih =>
      have hBefore := Slots.of_reachable hEarlier
      exact hBefore.inFlight_le_step hStep hPositive hLimit
        (ih hBefore (hBefore.inFlight_eq hPositive hLimit))

/-- A key that may make one call at a time. -/
def oneAtATime : KeyAuth := { id := "k".toList, key := { maxConcurrent := some 1 } }

theorem oneAtATime_bounded :
    ((State.new 60).arrive oneAtATime 0).inHandler "k".toList ≤ 1 ∧
      ((State.new 60).arrive oneAtATime 0).limiter.inFlight "k".toList =
        ((State.new 60).arrive oneAtATime 0).inHandler "k".toList := by
  have hReachable : Reachable (· = oneAtATime) 60 ((State.new 60).arrive oneAtATime 0) :=
    .single (.arrive _ _ _ rfl)
  have hLimit : ∀ auth, auth = oneAtATime → auth.id = "k".toList →
      (resolveLimits auth).maxConcurrent = 1 := by
    rintro _ rfl -
    rfl
  have h := handlers_bounded one_pos hLimit hReachable
  exact ⟨by exact_mod_cast h.1, h.2⟩

/-- A second call is let in while the first is still being streamed. -/
theorem streamed_turn_uncounted :
    ¬ ∀ (Known : KeyAuth → Prop) (window : Rat) (key : Id) (n : Int), 0 < n →
      (∀ auth, Known auth → auth.id = key → (resolveLimits auth).maxConcurrent = n) →
        ∀ s, Reachable Known window s →
          (s.inProgress key : Int) ≤ n ∧ s.limiter.inFlight key = s.inProgress key := by
  intro h
  have hReachable : ∃ s, Reachable (· = oneAtATime) 60 s ∧ s.inProgress "k".toList = 2 := by
    let first : Call := ⟨"k".toList, resolveLimits oneAtATime, 0, some "k".toList, .admitted⟩
    let l := ((State.new 60).arrive oneAtATime 0).limiter
    have hIn : Step (· = oneAtATime) (State.new 60) ⟨l, first ::ₘ 0⟩ :=
      .arrive (State.new 60) oneAtATime 0 rfl
    have hTokens : Step (· = oneAtATime) ⟨l, first ::ₘ 0⟩
        ⟨l, { first with stage := .handling } ::ₘ 0⟩ := .tokens l first 0 rfl
    have hStream : Step (· = oneAtATime) ⟨l, { first with stage := .handling } ::ₘ 0⟩
        ⟨first.guard.drop l, { first with guard := none, stage := .streaming } ::ₘ 0⟩ :=
      .stream l { first with stage := .handling } 0 rfl
    exact ⟨_, ((Relation.ReflTransGen.single hIn).tail hTokens |>.tail hStream).tail
      (.arrive _ oneAtATime 0 rfl), by decide +kernel⟩
  obtain ⟨s, hReachable, hTwo⟩ := hReachable
  have hBound := (h (· = oneAtATime) 60 "k".toList 1 (by decide) (by rintro _ rfl -; rfl) s hReachable).1
  rw [hTwo] at hBound
  exact absurd hBound (by decide)

end Gateway.Server
