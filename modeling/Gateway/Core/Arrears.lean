import Gateway.Core.LimitChange

/-! Tokens are charged after the turn that spent them, whatever is left of the
bucket. A turn is let in when the bucket holds a token, so at most one turn at a
time goes into debt. -/
namespace Gateway

/-- What a call charges the scope with. -/
def LimiterEvent.chargeOf (scope : Id) (e : LimiterEvent) : Option Int :=
  match e.call with
  | .chargeTokens s _ tokens => if s = scope then some tokens else none
  | _ => none

/-- The size of the last turn that is charged. -/
def lastCharge (scope : Id) (events : List LimiterEvent) : Int :=
  events.foldl (fun last e => (e.chargeOf scope).getD last) 0

theorem charges_eq (scope : Id) (e : LimiterEvent) : e.charges scope = (e.chargeOf scope).getD 0 := by
  obtain ⟨now, call⟩ := e
  cases call with
  | chargeTokens s limits tokens =>
      simp only [LimiterEvent.charges, LimiterEvent.chargeOf]
      split_ifs <;> rfl
  | _ => rfl

theorem charged_append (scope : Id) (p q : List LimiterEvent) :
    charged scope (p ++ q) = charged scope p + charged scope q := by
  simp [charged]

theorem charged_of_none {scope : Id} {events : List LimiterEvent}
    (hNone : ∀ e ∈ events, e.chargeOf scope = none) : charged scope events = 0 := by
  apply List.sum_eq_zero
  intro n hn
  obtain ⟨e, he, rfl⟩ := List.mem_map.mp hn
  rw [charges_eq, hNone e he]
  rfl

namespace Limiter

/-- Whether the bucket of tokens lets a turn of the scope in. -/
def lets (l : Limiter) (scope : Id) (e : LimiterEvent) : Bool :=
  match e.call with
  | .tpmExhausted s limits => s = scope && !(l.tpmExhausted s limits e.now).1.1
  | _ => false

/-- Whether a turn of the scope is let in and not yet charged, after a call. -/
def turnOpen (l : Limiter) (scope : Id) (was : Bool) (e : LimiterEvent) : Bool :=
  if l.lets scope e then true else if (e.chargeOf scope).isSome then false else was

/-- Every charge is of a turn that was let in since the charge before. -/
def InArrears (scope : Id) : Limiter → Bool → List LimiterEvent → Prop
  | _, _, [] => True
  | l, was, e :: rest =>
      ((e.chargeOf scope).isSome = true → was = true) ∧
        InArrears scope (l.after e) (l.turnOpen scope was e) rest

variable {l : Limiter} {scope : Id} {limit : Int} {was : Bool}

/-- The turn that is being charged was let in before the calls, or by one of
them with no charge in between. -/
theorem InArrears.last_let {events : List LimiterEvent} {e : LimiterEvent}
    (h : InArrears scope l was (events ++ [e])) (hCharge : (e.chargeOf scope).isSome = true) :
    (was = true ∧ ∀ e' ∈ events, e'.chargeOf scope = none) ∨
      ∃ before opening between, events = before ++ opening :: between ∧
        (l.runEvents before).lets scope opening = true ∧
        ∀ e' ∈ between, e'.chargeOf scope = none := by
  induction events generalizing l was with
  | nil => exact .inl ⟨h.1 hCharge, by simp⟩
  | cons e' rest ih =>
      rcases ih h.2 with ⟨hOpen, hNone⟩ | ⟨before, opening, between, hSplit, hLets, hNone⟩
      · unfold turnOpen at hOpen
        split_ifs at hOpen with hLets hSome
        · exact .inr ⟨[], e', rest, rfl, hLets, hNone⟩
        · refine .inl ⟨hOpen, fun e'' he => ?_⟩
          rcases List.mem_cons.mp he with rfl | he
          · simpa using hSome
          · exact hNone e'' he
      · exact .inr ⟨e' :: before, opening, between, by rw [hSplit]; rfl, hLets, hNone⟩

theorem InArrears.of_append {p q : List LimiterEvent} (h : InArrears scope l was (p ++ q)) :
    InArrears scope l was p ∧ ∃ was', InArrears scope (l.runEvents p) was' q := by
  induction p generalizing l was with
  | nil => exact ⟨trivial, was, h⟩
  | cons e rest ih =>
      obtain ⟨hFront, hBack⟩ := ih h.2
      exact ⟨⟨h.1, hFront⟩, hBack⟩

theorem chargeOf_of_lets {e : LimiterEvent} (hLets : l.lets scope e = true) :
    e.chargeOf scope = none := by
  obtain ⟨now, call⟩ := e
  cases call with
  | tpmExhausted s limits => rfl
  | _ => simp [lets] at hLets

/-- A turn is let in while the bucket holds a token. -/
theorem bucket_of_lets {e : LimiterEvent} (hPos : 0 < limit)
    (hLimit : ∀ limits ∈ e.limits scope, limits.tpm = limit) (hLets : l.lets scope e = true) :
    comesToTokens scope e = true ∧
      ∃ b, ((l.after e).entry scope).tpm = some b ∧ 1 ≤ b.tokens := by
  obtain ⟨now, call⟩ := e
  cases call with
  | tpmExhausted s limits =>
      simp only [lets, Bool.and_eq_true, decide_eq_true_eq, Bool.not_eq_true'] at hLets
      obtain ⟨rfl, hFree⟩ := hLets
      have hTpm : limits.tpm = limit := hLimit limits (by simp [LimiterEvent.limits])
      have hSome : ¬ limits.tpm ≤ 0 := by omega
      refine ⟨by simp [comesToTokens], ?_⟩
      show ∃ b, ((l.tpmExhausted s limits now).2.entry s).tpm = some b ∧ _
      unfold tpmExhausted at hFree ⊢
      rw [if_neg hSome] at hFree ⊢
      dsimp only at hFree ⊢
      split_ifs at hFree ⊢ with hEmpty
      rw [entry_put_self]
      exact ⟨_, rfl, not_lt.mp hEmpty⟩
  | _ => simp [lets] at hLets

section

variable {rate : Rat} {start stop : Timestamp}

/-- What the limiter's calls of an interval charge, up to the last turn. -/
theorem charged_le_last {events : List LimiterEvent} (hPos : 0 < limit) (hRate : 0 ≤ rate)
    (hNew : limit / max l.window (1 / 1000) ≤ rate)
    (hUnder : Under Limits.tpm limit scope events)
    (hSlow : ∀ b ∈ (l.entry scope).tpm, b.refillPerSec ≤ rate)
    (hHolds : ∀ b ∈ (l.entry scope).tpm, b.capacity ≤ limit)
    (hWithin : ∀ e ∈ events, start ≤ e.now ∧ e.now ≤ stop) (hSpan : start ≤ stop)
    (hArrears : InArrears scope l was events) :
    (charged scope events : Rat) ≤
      limit + rate * seconds (stop - start) + lastCharge scope events := by
  have hLeast : (0 : Rat) ≤ limit := by exact_mod_cast hPos.le
  have hGrowth : 0 ≤ rate * seconds (stop - start) := by
    have hLength : (0 : Rat) ≤ ((stop - start : Int) : Rat) := by
      exact_mod_cast Int.sub_nonneg_of_le hSpan
    unfold seconds
    positivity
  induction events using List.reverseRecOn with
  | nil =>
      simp only [charged, lastCharge, List.map_nil, List.sum_nil, List.foldl_nil, Int.cast_zero]
      linarith
  | append_singleton events e ih =>
      have hFront := hUnder.of_sublist (List.sublist_append_left events [e])
      have hInside : ∀ e' ∈ events, start ≤ e'.now ∧ e'.now ≤ stop := fun e' he =>
        hWithin e' (List.mem_append_left _ he)
      have hLast : lastCharge scope (events ++ [e]) =
          (e.chargeOf scope).getD (lastCharge scope events) := by
        simp [lastCharge]
      have hSum : charged scope (events ++ [e]) =
          charged scope events + (e.chargeOf scope).getD 0 := by
        rw [charged_append, charged_cons, charges_eq]
        simp [charged]
      rw [hLast, hSum]
      cases hCharge : e.chargeOf scope with
      | none => simpa using ih hFront hInside hArrears.of_append.1
      | some tokens =>
          have hBefore : (charged scope events : Rat) ≤ limit + rate * seconds (stop - start) := by
            rcases hArrears.last_let (by rw [hCharge]; rfl) with
              ⟨-, hNone⟩ | ⟨before, opening, between, hSplit, hLets, hNone⟩
            · rw [charged_of_none hNone]
              push_cast
              linarith
            · have hOpening : opening ∈ events := by
                rw [hSplit]
                exact List.mem_append_right _ List.mem_cons_self
              obtain ⟨hComes, b, hBucket, hHeld⟩ :=
                bucket_of_lets hPos (hFront.limit opening hOpening) hLets
              have hSub : (before ++ [opening]).Sublist events := by
                rw [hSplit]
                exact (List.Sublist.cons_cons opening (List.nil_sublist between)).append_left before
              have hRun : l.runEvents (before ++ [opening]) = (l.runEvents before).after opening :=
                List.foldl_append
              have hBound := charged_le hPos hRate hNew (hFront.of_sublist hSub) hSlow hHolds
                (fun e' he => (hInside e' (hSub.subset he)).1)
                (fun e' he => (hInside e' (hSub.subset he)).2) (by simp [hComes])
                (hRun ▸ hBucket)
              have hAll : charged scope events = charged scope (before ++ [opening]) := by
                rw [hSplit, List.append_cons, charged_append, charged_of_none hNone, add_zero]
              rw [hAll]
              linarith
          simp only [Option.getD_some]
          push_cast
          linarith

/-- The bucket's time is that of a call before. -/
theorem last_le_of_under {p q : List LimiterEvent} (hPos : 0 < limit)
    (hUnder : Under Limits.tpm limit scope (p ++ q))
    (hOld : ∀ b ∈ (l.entry scope).tpm, ∀ e ∈ p ++ q, b.last ≤ e.now) :
    ∀ b ∈ ((l.runEvents p).entry scope).tpm, ∀ e ∈ q, b.last ≤ e.now := by
  induction p generalizing l with
  | nil => exact hOld
  | cons e rest ih =>
      apply ih (hUnder.of_sublist (List.sublist_cons_self e _))
      intro b hb e' he
      rcases tpm_after l e hPos (hUnder.limit e List.mem_cons_self) with
        ⟨hSame, -, -⟩ | ⟨b', hBucket, hSpent⟩
      · exact hOld b (hSame ▸ hb) e' (List.mem_cons_of_mem e he)
      · have hSameBucket : b' = b := Option.some.inj (hBucket.symm.trans hb)
        rw [← hSameBucket, hSpent.last]
        exact List.rel_of_pairwise_cons hUnder.ordered he

end

/-- Under a constant limit, with every turn let in by the bucket and charged
before the next is: over any interval the charges up to the last turn come to no
more than the limit and what is refilled, and what the bucket lacks at any time
is refilled before a later turn is let in. -/
theorem tokens_in_arrears {window : Rat} (hWindow : 0 < window) (events : List LimiterEvent)
    (scope : Id) {limit : Int} (hPos : 0 < limit) (hUnder : Under Limits.tpm limit scope events)
    (hArrears : InArrears scope (Limiter.new window) false events) :
    (∀ p q r, events = p ++ q ++ r → ∀ start stop : Timestamp, start ≤ stop →
      (∀ e ∈ q, start ≤ e.now ∧ e.now ≤ stop) →
      (charged scope q : Rat) ≤
        limit + limit * seconds (stop - start) / window + lastCharge scope q) ∧
    ∀ p q opening r, events = p ++ q ++ opening :: r →
      ((Limiter.new window).runEvents (p ++ q)).lets scope opening = true →
      ∀ b ∈ (((Limiter.new window).runEvents p).entry scope).tpm,
        1 - b.tokens + charged scope q ≤ limit * seconds (opening.now - b.last) / window := by
  have hLeast : (0 : Rat) ≤ limit := by exact_mod_cast hPos.le
  have hRate : (0 : Rat) ≤ limit / window := by positivity
  have hNew : (limit : Rat) / max window (1 / 1000) ≤ limit / window :=
    div_le_div_of_nonneg_left hLeast hWindow (le_max_left _ _)
  have hSlow (p : List LimiterEvent) (hP : Under Limits.tpm limit scope p) :=
    tpm_runEvents (P := (· ≤ (limit : Rat) / window)) (l := Limiter.new window) hPos hP hNew
      (by rintro b ⟨⟩)
  refine ⟨?_, ?_⟩
  · rintro p q r hSplit start stop hSpan hWithin
    obtain ⟨hQ, hP⟩ := hUnder.middle hSplit
    subst hSplit
    obtain ⟨was, hRest⟩ := hArrears.of_append.1.of_append.2
    have hBound := charged_le_last (l := (Limiter.new window).runEvents p) hPos hRate
      (by rwa [window_runEvents]) hQ (hSlow p hP)
      (capacity_runEvents hPos hP (by rintro b ⟨⟩)) hWithin hSpan hRest
    rwa [div_mul_eq_mul_div] at hBound
  · rintro p q opening r hSplit hLets b hb
    have hSplit' : events = p ++ (q ++ [opening]) ++ r := by simp [hSplit]
    obtain ⟨hQ, hP⟩ := hUnder.middle hSplit'
    have hLast := last_le_of_under (l := Limiter.new window) hPos
      (hUnder.of_sublist (hSplit' ▸ List.sublist_append_left _ r)) (by rintro b ⟨⟩) b hb
    have hOpening : opening ∈ q ++ [opening] := List.mem_append_right _ (List.mem_singleton_self _)
    obtain ⟨-, b', hBucket, hHeld⟩ := bucket_of_lets hPos (hQ.limit opening hOpening) hLets
    have hRun : ((Limiter.new window).runEvents p).runEvents (q ++ [opening]) =
        ((Limiter.new window).runEvents (p ++ q)).after opening := by
      simp [runEvents]
    have hStop : ∀ e ∈ q ++ [opening], e.now ≤ opening.now := by
      intro e he
      rcases List.mem_append.mp he with he | he
      · exact (List.pairwise_append.mp hQ.ordered).2.2 e he opening (List.mem_singleton_self _)
      · rw [List.mem_singleton.mp he]
    have hBound := charged_of_bucket hPos hRate hQ hb (hSlow p hP b hb) hLast hStop
      (hLast opening hOpening) (hRun ▸ hBucket)
    have hNone : charged scope [opening] = 0 := by
      apply charged_of_none
      rintro e he
      rw [List.mem_singleton.mp he]
      exact chargeOf_of_lets hLets
    rw [charged_append, hNone, add_zero, div_mul_eq_mul_div] at hBound
    linarith

def turnOf (second tokens : Int) : List LimiterEvent :=
  [⟨second * 1000000000, .tpmExhausted ['k'] { tpm := 60 }⟩,
    ⟨second * 1000000000, .chargeTokens ['k'] { tpm := 60 } tokens⟩]

/-- A turn of twice the limit, and a minute and a bit later another. -/
theorem debt_paid_in_time :
    (charged ['k'] (turnOf 0 120 ++ turnOf 61 10) : Rat) ≤
      (60 : Int) + (60 : Int) * seconds (61000000000 - 0) / 60 +
        lastCharge ['k'] (turnOf 0 120 ++ turnOf 61 10) := by
  have hBound := (tokens_in_arrears (by norm_num : (0 : Rat) < 60) (turnOf 0 120 ++ turnOf 61 10)
    ['k'] (by decide : (0 : Int) < 60) ⟨by simp [turnOf], by simp [turnOf, LimiterEvent.limits]⟩
    ?_).1
  · exact hBound [] (turnOf 0 120 ++ turnOf 61 10) [] (by simp) 0 61000000000 (by decide)
      (by simp [turnOf])
  · refine ⟨by simp [LimiterEvent.chargeOf], fun _ => ?_, by simp [LimiterEvent.chargeOf],
      fun _ => ?_, trivial⟩
    · decide +kernel
    · decide +kernel

end Limiter

end Gateway
