import Gateway.Json.Parse
import Gateway.Json.Render
import Gateway.Json.Written
import Mathlib.Tactic.IntervalCases

/-! Reading back what is written. -/
namespace Json

/-! ### Strings -/

theorem hexValue_hexDigit : ∀ n < 16, hexValue (hexDigit n) = some n := by decide

theorem hexFour_control {n : Nat} (h : n < 0x20) :
    hexFour '0' '0' (hexDigit (n / 16)) (hexDigit (n % 16)) = some n := by
  have hZero : hexValue '0' = some 0 := rfl
  rw [hexFour, hZero, hexValue_hexDigit _ (by omega), hexValue_hexDigit _ (by omega)]
  simp only [Option.bind_eq_bind, Option.bind_some, Option.pure_def, Option.some.injEq]
  omega

/-- One escaped character is read back as itself. -/
theorem readString_escapeChar (c : Char) (rest : Str) : readString (escapeChar c ++ rest) =
    (readString rest).map fun (s, after) => (c :: s, after) := by
  unfold escapeChar
  split_ifs with hQuote hSlash hBack hFeed hLine hReturn hTab hControl
  · subst hQuote
    simp [readString, shortEscape]
  · subst hSlash
    simp [readString, shortEscape]
  · subst hBack
    simp [readString, shortEscape]
  · subst hFeed
    simp [readString, shortEscape]
  · subst hLine
    simp [readString, shortEscape]
  · subst hReturn
    simp [readString, shortEscape]
  · subst hTab
    simp [readString, shortEscape]
  · have hHigh : ¬ (0xDC00 ≤ c.toNat ∧ c.toNat ≤ 0xDFFF) := by omega
    have hPair : ¬ (0xD800 ≤ c.toNat ∧ c.toNat ≤ 0xDBFF) := by omega
    simp [readString, hexFour_control hControl, hHigh, hPair, Char.ofNat_toNat]
  · rw [List.singleton_append, readString.eq_def]
    split
    · rename_i h
      cases h
    · rename_i h
      exact absurd (List.cons.inj h).1 hQuote
    · rename_i h
      exact absurd (List.cons.inj h).1 hSlash
    · rename_i h
      exact absurd (List.cons.inj h).1 hSlash
    · rename_i h
      obtain ⟨rfl, rfl⟩ := List.cons.inj h
      rw [if_neg hControl]

theorem readString_escape (s rest : Str) :
    readString (escape s ++ '\x22' :: rest) = some (s, rest) := by
  induction s with
  | nil => rw [escape, List.flatMap_nil, List.nil_append, readString]
  | cons c s ih =>
      rw [escape, List.flatMap_cons, List.append_assoc, readString_escapeChar, ← escape, ih]
      rfl

/-! ### Numbers -/

theorem digitsValue_eq (ds : Str) : digitsValue ds = Nat.ofDigitChars 10 ds 0 := by
  rw [digitsValue, Nat.ofDigitChars_eq_foldl]
  congr 1
  funext n c
  rw [Nat.mul_comm]
  rfl

@[simp] theorem digitsValue_digits (n : Nat) : digitsValue (digits n) = n := by
  rw [digitsValue_eq, digits, Nat.ofDigitChars_ten_toDigits]

theorem isDigit_of_mem_digits {n : Nat} {c : Char} (h : c ∈ digits n) : c.isDigit = true :=
  Nat.isDigit_of_mem_toDigits (by decide) (by decide) h

/-- What may follow a number: no digit, point or exponent. -/
def Ended (rest : Str) : Prop :=
  ∀ c, rest.head? = some c → c.isDigit = false ∧ c ≠ '.' ∧ c ≠ 'e' ∧ c ≠ 'E'

theorem takeDigits_append {ds rest : Str} (hDigits : ∀ c ∈ ds, c.isDigit = true)
    (hRest : ∀ c, rest.head? = some c → c.isDigit = false) :
    takeDigits (ds ++ rest) = (ds, rest) := by
  rw [takeDigits, List.span_eq_takeWhile_dropWhile]
  induction ds with
  | nil =>
      cases rest with
      | nil => rfl
      | cons c rest =>
          have hc := hRest c rfl
          simp [hc]
  | cons d ds ih =>
      have hd := hDigits d List.mem_cons_self
      have hTail := ih fun c hc => hDigits c (List.mem_cons_of_mem _ hc)
      rw [Prod.mk.injEq] at hTail
      simp [hd, hTail.1, hTail.2]

theorem readExponent_ended {rest : Str} (h : Ended rest) : readExponent rest = some (0, rest) := by
  cases rest with
  | nil => rfl
  | cons c rest =>
      obtain ⟨-, -, hLower, hUpper⟩ := h c rfl
      simp [readExponent, hLower, hUpper]

/-- A positive number has no leading zero. -/
theorem head_digits {n : Nat} (h : 0 < n) : (digits n).head? ≠ some '0' := by
  induction n using Nat.strong_induction_on with
  | _ n ih =>
      rcases Nat.lt_or_ge n 10 with hSmall | hLarge
      · interval_cases n <;> decide
      · rw [digits, Nat.toDigits_of_base_le (by decide) hLarge]
        have hQuotient : 0 < n / 10 := by omega
        have hFront := ih (n / 10) (by omega) hQuotient
        rw [digits] at hFront
        rw [List.head?_append]
        cases hHead : (Nat.toDigits 10 (n / 10)).head? with
        | none => exact absurd (List.head?_eq_none_iff.mp hHead) Nat.toDigits_ne_nil
        | some c =>
            rw [hHead] at hFront
            simpa using hFront

theorem digits_zero : digits 0 = ['0'] := by decide

/-- Digits as they are written begin with a zero only when they are just that. -/
theorem not_leading_zero (n : Nat) : ¬ ((digits n).head? = some '0' ∧ 1 < (digits n).length) := by
  rintro ⟨hHead, hLength⟩
  rcases Nat.eq_zero_or_pos n with rfl | hPos
  · rw [digits_zero] at hLength
    simp at hLength
  · exact head_digits hPos hHead

/-- A number that a reader may keep. -/
def Number.Readable : Number → Prop
  | .posInt n => n < 2 ^ 64
  | .negInt n => 0 < n ∧ n ≤ 2 ^ 63
  | .float _ mantissa exponent => outOfRange mantissa exponent = false

/-- The digits after the point, when there is one. -/
def readFraction (rest : Str) : Option (Str × Str) :=
  match rest with
  | '.' :: r =>
      match takeDigits r with
      | ([], _) => none
      | (fs, after) => some (fs, after)
  | r => some ([], r)

theorem readFraction_ended {rest : Str} (h : ∀ c, rest.head? = some c → c ≠ '.') :
    readFraction rest = some ([], rest) := by
  cases rest with
  | nil => rfl
  | cons c rest =>
      have hPoint := h c rfl
      unfold readFraction
      split
      · rename_i hText
        exact absurd (List.cons.inj hText).1 hPoint
      · rfl

theorem readFraction_point {fs rest : Str} (hSome : fs ≠ []) (hDigits : ∀ c ∈ fs, c.isDigit = true)
    (hRest : ∀ c, rest.head? = some c → c.isDigit = false) :
    readFraction ('.' :: (fs ++ rest)) = some (fs, rest) := by
  cases fs with
  | nil => exact absurd rfl hSome
  | cons f fs => simp only [readFraction, takeDigits_append hDigits hRest]

/-- A number whose digits before the point are read. -/
theorem readNumber_digits {s tail : Str} {d : Char} {ds : Str} (negative : Bool)
    (hTake : takeDigits s = (d :: ds, tail))
    (hLead : ¬ ((d :: ds).head? = some '0' ∧ 1 < (d :: ds).length)) :
    readNumber negative s =
      match readFraction tail with
      | none => none
      | some (fs, afterFraction) =>
          match readExponent afterFraction with
          | none => none
          | some (e, after) =>
              let n := digitsValue (d :: ds)
              if after.length = tail.length ∧ negative = false ∧ n < 2 ^ 64 then
                some (.posInt n, after)
              else if after.length = tail.length ∧ negative = true ∧ 0 < n ∧ n ≤ 2 ^ 63 then
                some (.negInt n, after)
              else if outOfRange (digitsValue (d :: ds ++ fs)) (e - fs.length) then none
              else some (.float negative (digitsValue (d :: ds ++ fs)) (e - fs.length), after) := by
  unfold readNumber
  rw [hTake]
  dsimp only
  rw [if_neg hLead]
  rfl

/-- A number from its three parts. -/
theorem readNumber_parts {s ds tail fs afterFraction after : Str} {e : Int} (negative : Bool)
    (hTake : takeDigits s = (ds, tail)) (hSome : ds ≠ [])
    (hLead : ¬ (ds.head? = some '0' ∧ 1 < ds.length))
    (hFraction : readFraction tail = some (fs, afterFraction))
    (hExponent : readExponent afterFraction = some (e, after)) :
    readNumber negative s =
      if after.length = tail.length ∧ negative = false ∧ digitsValue ds < 2 ^ 64 then
        some (.posInt (digitsValue ds), after)
      else if after.length = tail.length ∧ negative = true ∧ 0 < digitsValue ds ∧
          digitsValue ds ≤ 2 ^ 63 then some (.negInt (digitsValue ds), after)
      else if outOfRange (digitsValue (ds ++ fs)) (e - fs.length) then none
      else some (.float negative (digitsValue (ds ++ fs)) (e - fs.length), after) := by
  cases ds with
  | nil => exact absurd rfl hSome
  | cons d ds =>
      rw [readNumber_digits negative hTake hLead, hFraction]
      dsimp only
      rw [hExponent]

theorem readNumber_whole {n : Nat} {rest : Str} (negative : Bool) (hRest : Ended rest)
    (hFits : (negative = false ∧ n < 2 ^ 64) ∨ (negative = true ∧ 0 < n ∧ n ≤ 2 ^ 63)) :
    readNumber negative (digits n ++ rest) =
      some (if negative then .negInt n else .posInt n, rest) := by
  have hTake : takeDigits (digits n ++ rest) = (digits n, rest) :=
    takeDigits_append (fun c hc => isDigit_of_mem_digits hc) fun c hc => (hRest c hc).1
  rw [readNumber_parts negative hTake Nat.toDigits_ne_nil (not_leading_zero n)
    (readFraction_ended fun c hc => (hRest c hc).2.1) (readExponent_ended hRest)]
  rcases hFits with ⟨rfl, hFits⟩ | ⟨rfl, hFits⟩
  · rw [digitsValue_digits, if_pos ⟨rfl, rfl, hFits⟩]
    rfl
  · rw [digitsValue_digits, if_neg (by simp), if_pos ⟨rfl, rfl, hFits⟩]
    rfl

/-- The sign of an exponent, and what follows it. -/
def readSign (rest : Str) : Bool × Str :=
  match rest with
  | '+' :: r => (false, r)
  | '-' :: r => (true, r)
  | r => (false, r)

theorem readSign_digit {d : Char} (hd : d.isDigit = true) (rest : Str) :
    readSign (d :: rest) = (false, d :: rest) := by
  unfold readSign
  split
  · rename_i h
    obtain ⟨rfl, -⟩ := List.cons.inj h
    exact absurd hd (by decide)
  · rename_i h
    obtain ⟨rfl, -⟩ := List.cons.inj h
    exact absurd hd (by decide)
  · rfl

theorem readExponent_sign {rest ds after : Str} {negative : Bool}
    (hTake : takeDigits (readSign rest).2 = (ds, after)) (hSign : (readSign rest).1 = negative)
    (hSome : ds ≠ []) : readExponent ('e' :: rest) =
      some (if negative then -(digitsValue ds : Int) else digitsValue ds, after) := by
  simp only [readExponent, true_or, if_true]
  change (match takeDigits (readSign rest).2 with
    | ([], _) => none
    | (ds, after) =>
        some (if (readSign rest).1 then -(digitsValue ds : Int) else digitsValue ds, after)) = _
  rw [hTake, hSign]
  cases ds with
  | nil => exact absurd rfl hSome
  | cons d ds => rfl

theorem readExponent_intText {x : Int} {rest : Str}
    (hRest : ∀ c, rest.head? = some c → c.isDigit = false) :
    readExponent ('e' :: (intText x ++ rest)) = some (x, rest) := by
  have hTake : takeDigits (digits x.natAbs ++ rest) = (digits x.natAbs, rest) :=
    takeDigits_append (fun c hc => isDigit_of_mem_digits hc) hRest
  have hValue : digitsValue (digits x.natAbs) = x.natAbs := digitsValue_digits _
  have hSome : digits x.natAbs ≠ [] := Nat.toDigits_ne_nil
  rcases lt_or_ge x 0 with hNegative | hPositive
  · have hSign : readSign (intText x ++ rest) = (true, digits x.natAbs ++ rest) := by
      rw [intText, if_pos hNegative]
      rfl
    rw [readExponent_sign (by rw [hSign]; exact hTake) (by rw [hSign]) hSome, hValue, if_pos rfl]
    congr 2
    omega
  · have hSign : readSign (intText x ++ rest) = (false, digits x.natAbs ++ rest) := by
      rw [intText, if_neg (not_lt.mpr hPositive), List.nil_append]
      cases hText : digits x.natAbs with
      | nil => exact absurd hText hSome
      | cons d ds => exact readSign_digit (isDigit_of_mem_digits (hText ▸ List.mem_cons_self)) _
    rw [readExponent_sign (by rw [hSign]; exact hTake) (by rw [hSign]) hSome, hValue,
      if_neg Bool.false_ne_true]
    congr 2
    omega

/-- The number that is read back: the same value, with the point where it was
written. -/
def Number.reread : Number → Number
  | .float negative mantissa exponent =>
      if mantissa = 0 then .float negative 0 (-1)
      else if 0 ≤ exponent ∧ ((digits mantissa).length : Int) + exponent ≤ 16 then
        .float negative (mantissa * 10 ^ (exponent.toNat + 1)) (-1)
      else .float negative mantissa exponent
  | n => n

theorem digitsValue_append_zeros (ds : Str) (n : Nat) :
    digitsValue (ds ++ List.replicate n '0') = digitsValue ds * 10 ^ n := by
  rw [digitsValue_eq, digitsValue_eq, Nat.ofDigitChars_append, Nat.ofDigitChars_replicate_zero,
    Nat.mul_comm]

theorem digitsValue_zeros_append (n : Nat) (ds : Str) :
    digitsValue (List.replicate n '0' ++ ds) = digitsValue ds := by
  rw [digitsValue_eq, digitsValue_eq, Nat.ofDigitChars_append, Nat.ofDigitChars_replicate_zero,
    Nat.mul_zero]

theorem length_digits_mul_le (m k : Nat) :
    (digits (m * 10 ^ k)).length ≤ (digits m).length + k := by
  have hPos : 0 < (digits m).length := Nat.length_toDigits_pos
  rw [digits, Nat.length_toDigits_le_iff (by decide) (by omega), Nat.pow_add]
  exact Nat.mul_lt_mul_of_pos_right
    ((Nat.length_toDigits_le_iff (by decide) hPos).mp (Nat.le_refl _)) (by positivity)

/-- A number with a point or an exponent is not a whole one. -/
theorem readNumber_fraction {s ds tail fs afterFraction after : Str} {e : Int} (negative : Bool)
    (hTake : takeDigits s = (ds, tail)) (hSome : ds ≠ [])
    (hLead : ¬ (ds.head? = some '0' ∧ 1 < ds.length))
    (hFraction : readFraction tail = some (fs, afterFraction))
    (hExponent : readExponent afterFraction = some (e, after)) (hLonger : after.length < tail.length)
    (hRange : outOfRange (digitsValue (ds ++ fs)) (e - fs.length) = false) :
    readNumber negative s =
      some (.float negative (digitsValue (ds ++ fs)) (e - fs.length), after) := by
  have hPlain : ¬ after.length = tail.length := by omega
  rw [readNumber_parts negative hTake hSome hLead hFraction hExponent, if_neg (fun h => hPlain h.1),
    if_neg (fun h => hPlain h.1), hRange, if_neg Bool.false_ne_true]

theorem length_lt_point (c : Char) (fs rest : Str) : rest.length < (c :: (fs ++ rest)).length := by
  rw [List.length_cons, List.length_append]
  omega

/-- Moving the point of a number of few places keeps it in range. -/
theorem inRange_of_places {m : Nat} {e : Int} (h : ((digits m).length : Int) + e ≤ 308) :
    outOfRange m e = false := by
  unfold outOfRange
  dsimp only
  have hLess : ((Nat.toDigits 10 m).length : Int) + e < 309 := by
    rw [digits] at h
    omega
  split_ifs <;> rfl

theorem readNumber_decimal {m : Nat} {e : Int} {rest : Str} (negative : Bool) (hRest : Ended rest)
    (hRange : outOfRange m e = false) :
    readNumber negative (decimalText m e ++ rest) =
      some (Number.reread (.float negative m e), rest) := by
  have hEnd : ∀ c, rest.head? = some c → c.isDigit = false := fun c hc => (hRest c hc).1
  have hDigits : ∀ c ∈ digits m, c.isDigit = true := fun c hc => isDigit_of_mem_digits hc
  have hZeros : ∀ n, ∀ c ∈ List.replicate n '0', c.isDigit = true := by
    intro n c hc
    rw [List.eq_of_mem_replicate hc]
    decide
  have hPoint : ∀ (tail : Str) (c : Char), ('.' :: tail).head? = some c → c.isDigit = false := by
    rintro tail c hc
    obtain rfl := Option.some.inj hc
    decide
  have hE : ∀ (tail : Str) (c : Char), ('e' :: tail).head? = some c →
      c.isDigit = false ∧ c ≠ '.' := by
    rintro tail c hc
    obtain rfl := Option.some.inj hc
    decide
  have hLength : 0 < (digits m).length := Nat.length_toDigits_pos
  have hValue : digitsValue (digits m) = m := digitsValue_digits m
  unfold decimalText
  dsimp only
  simp only [Number.reread]
  split_ifs with hZero hWhole hInner hSmall hOne
  · -- `0.0`
    subst hZero
    have hTake : takeDigits ("0.0".toList ++ rest) = (['0'], '.' :: (['0'] ++ rest)) :=
      @takeDigits_append ['0'] ('.' :: (['0'] ++ rest)) (hZeros 1) (hPoint _)
    exact readNumber_fraction negative hTake (by simp) (by simp)
      (readFraction_point (by simp) (hZeros 1) hEnd) (readExponent_ended hRest) (length_lt_point _ _ _) rfl
  · -- digits, zeros, `.0`
    have hHead : (digits m).head? ≠ some '0' := head_digits (Nat.pos_of_ne_zero hZero)
    have hTake : takeDigits (digits m ++ List.replicate e.toNat '0' ++ ".0".toList ++ rest) =
        (digits m ++ List.replicate e.toNat '0', '.' :: (['0'] ++ rest)) := by
      rw [List.append_assoc _ ".0".toList]
      exact takeDigits_append (fun c hc => (List.mem_append.mp hc).elim (hDigits c) (hZeros _ c))
        (hPoint _)
    have hLead : ¬ ((digits m ++ List.replicate e.toNat '0').head? = some '0' ∧
        1 < (digits m ++ List.replicate e.toNat '0').length) := by
      rintro ⟨h, -⟩
      rw [List.head?_append] at h
      cases hFirst : (digits m).head? with
      | none => exact absurd (List.head?_eq_none_iff.mp hFirst) Nat.toDigits_ne_nil
      | some c =>
          rw [hFirst] at h hHead
          exact hHead h
    have hMantissa : digitsValue (digits m ++ List.replicate e.toNat '0' ++ ['0']) =
        m * 10 ^ (e.toNat + 1) := by
      rw [List.append_assoc, show (['0'] : Str) = List.replicate 1 '0' from rfl,
        ← List.replicate_add, digitsValue_append_zeros, hValue]
    have hPlaces := length_digits_mul_le m (e.toNat + 1)
    rw [readNumber_fraction negative hTake (by simp [Nat.toDigits_ne_nil, digits]) hLead
      (readFraction_point (by simp) (hZeros 1) hEnd) (readExponent_ended hRest) (length_lt_point _ _ _)
      (by rw [hMantissa]; exact inRange_of_places (by simp; omega)), hMantissa]
    rfl
  · -- the point within the digits
    have hLess : e < 0 := by
      by_contra h
      exact hWhole ⟨by omega, hInner.2⟩
    have hText : (digits m).take ((digits m).length + e).toNat ++
        (digits m).drop ((digits m).length + e).toNat = digits m := List.take_append_drop _ _
    have hFront : (digits m).take ((digits m).length + e).toNat ≠ [] := by
      rw [← List.length_pos_iff, List.length_take]
      omega
    have hBack : (digits m).drop ((digits m).length + e).toNat ≠ [] := by
      rw [← List.length_pos_iff, List.length_drop]
      omega
    have hTake := @takeDigits_append ((digits m).take ((digits m).length + e).toNat)
      ('.' :: ((digits m).drop ((digits m).length + e).toNat ++ rest))
      (fun c hc => hDigits c (List.mem_of_mem_take hc)) (hPoint _)
    have hLead : ¬ (((digits m).take ((digits m).length + e).toNat).head? = some '0' ∧
        1 < ((digits m).take ((digits m).length + e).toNat).length) := by
      rintro ⟨h, -⟩
      rw [List.head?_take] at h
      split_ifs at h
      exact head_digits (Nat.pos_of_ne_zero hZero) h
    have hExponent : (0 : Int) - ((digits m).drop ((digits m).length + e).toNat).length = e := by
      rw [List.length_drop]
      omega
    have hRead := readNumber_fraction negative hTake hFront hLead
      (readFraction_point hBack (fun c hc => hDigits c (List.mem_of_mem_drop hc)) hEnd)
      (readExponent_ended hRest) (length_lt_point _ _ _) (by rw [hText, hValue, hExponent]; exact hRange)
    rw [hText, hValue, hExponent] at hRead
    rw [List.append_assoc, List.cons_append]
    exact hRead
  · -- zeros between the point and the digits
    have hFraction : ∀ c ∈ List.replicate (-((digits m).length + e)).toNat '0' ++ digits m,
        c.isDigit = true := fun c hc => (List.mem_append.mp hc).elim (hZeros _ c) (hDigits c)
    have hSome : List.replicate (-((digits m).length + e)).toNat '0' ++ digits m ≠ [] := by
      simp [Nat.toDigits_ne_nil, digits]
    have hTake := @takeDigits_append ['0'] ('.' ::
      (List.replicate (-((digits m).length + e)).toNat '0' ++ digits m ++ rest))
      (hZeros 1) (hPoint _)
    have hMantissa : digitsValue (['0'] ++ (List.replicate (-((digits m).length + e)).toNat '0' ++
        digits m)) = m := by
      rw [show (['0'] : Str) = List.replicate 1 '0' from rfl, digitsValue_zeros_append,
        digitsValue_zeros_append, hValue]
    have hExponent : (0 : Int) - (List.replicate (-((digits m).length + e)).toNat '0' ++
        digits m).length = e := by
      rw [List.length_append, List.length_replicate]
      omega
    have hRead := readNumber_fraction negative hTake (by simp) (by simp)
      (readFraction_point hSome hFraction hEnd) (readExponent_ended hRest) (length_lt_point _ _ _)
      (by rw [hMantissa, hExponent]; exact hRange)
    rw [hMantissa, hExponent] at hRead
    exact hRead
  · -- one digit and an exponent
    have hTake := @takeDigits_append (digits m) ('e' :: (intText ((digits m).length + e - 1) ++ rest))
      hDigits fun c hc => (hE _ c hc).1
    have hExponent : ((digits m).length : Int) + e - 1 - (([] : Str).length : Int) = e := by
      rw [hOne]
      simp
    have hRead := readNumber_fraction negative hTake Nat.toDigits_ne_nil (not_leading_zero m)
      (readFraction_ended fun c hc => (hE _ c hc).2) (readExponent_intText hEnd) (length_lt_point _ _ _)
      (by rw [List.append_nil, hValue, hExponent]; exact hRange)
    rw [List.append_nil, hValue, hExponent] at hRead
    rw [List.append_assoc, List.cons_append]
    exact hRead
  · -- a point after the first digit, and an exponent
    have hText : (digits m).take 1 ++ (digits m).drop 1 = digits m := List.take_append_drop _ _
    have hFront : (digits m).take 1 ≠ [] := by
      rw [← List.length_pos_iff, List.length_take]
      omega
    have hBack : (digits m).drop 1 ≠ [] := by
      rw [← List.length_pos_iff, List.length_drop]
      omega
    have hTake := @takeDigits_append ((digits m).take 1) ('.' :: ((digits m).drop 1 ++
      'e' :: (intText ((digits m).length + e - 1) ++ rest)))
      (fun c hc => hDigits c (List.mem_of_mem_take hc)) (hPoint _)
    have hLead : ¬ (((digits m).take 1).head? = some '0' ∧ 1 < ((digits m).take 1).length) := by
      rintro ⟨-, h⟩
      rw [List.length_take] at h
      omega
    have hExponent : ((digits m).length : Int) + e - 1 - (((digits m).drop 1).length : Int) = e := by
      rw [List.length_drop]
      omega
    have hRead := readNumber_fraction negative hTake hFront hLead
      (readFraction_point hBack (fun c hc => hDigits c (List.mem_of_mem_drop hc))
        fun c hc => (hE _ c hc).1) (readExponent_intText hEnd)
      ((length_lt_point 'e' _ rest).trans (length_lt_point _ _ _))
      (by rw [hText, hValue, hExponent]; exact hRange)
    rw [hText, hValue, hExponent] at hRead
    rw [List.append_assoc, List.append_assoc, List.cons_append, List.cons_append]
    exact hRead

/-! ### Values -/

mutual
/-- A value that nests no deeper than a reader goes, of numbers it may keep. -/
def Value.Readable : Nat → Value → Prop
  | _, .number n => n.Readable
  | depth, .array items => 0 < depth ∧ ItemsReadable (depth - 1) items
  | depth, .object fields => 0 < depth ∧ FieldsReadable (depth - 1) fields
  | _, _ => True

def ItemsReadable : Nat → List Value → Prop
  | _, [] => True
  | depth, v :: vs => v.Readable depth ∧ ItemsReadable depth vs

def FieldsReadable : Nat → List (Str × Value) → Prop
  | _, [] => True
  | depth, (_, v) :: fs => v.Readable depth ∧ FieldsReadable depth fs
end

mutual
/-- The value that is read back. -/
def Value.reread : Value → Value
  | .number n => .number n.reread
  | .array items => .array (rereadItems items)
  | .object fields => .object (rereadFields [] fields)
  | v => v

def rereadItems : List Value → List Value
  | [] => []
  | v :: vs => v.reread :: rereadItems vs

def rereadFields (start : List (Str × Value)) : List (Str × Value) → List (Str × Value)
  | [] => start
  | (k, v) :: fs => rereadFields (insertField k v.reread start) fs
end

/-- What follows the first item, and the first member. -/
def moreItems (vs : List Value) : Str := (itemTokens vs).flatMap Token.text

def moreFields (fs : List (Str × Value)) : Str := (fieldTokens fs).flatMap Token.text

@[simp] theorem moreItems_nil : moreItems [] = [] := rfl

@[simp] theorem moreItems_cons (v : Value) (vs : List Value) :
    moreItems (v :: vs) = ',' :: (v.render ++ moreItems vs) := by
  simp [moreItems, itemTokens, Token.text, Value.render]

@[simp] theorem moreFields_nil : moreFields [] = [] := rfl

@[simp] theorem moreFields_cons (k : Str) (v : Value) (fs : List (Str × Value)) :
    moreFields ((k, v) :: fs) =
      ',' :: '\x22' :: (escape k ++ '\x22' :: ':' :: (v.render ++ moreFields fs)) := by
  simp [moreFields, fieldTokens, Token.text, Value.render]

theorem render_array (v : Value) (vs : List Value) :
    (Value.array (v :: vs)).render = '[' :: (v.render ++ (moreItems vs ++ [']'])) := by
  simp [Value.render, Value.tokens, Token.text, moreItems]

theorem render_object (k : Str) (v : Value) (fs : List (Str × Value)) :
    (Value.object ((k, v) :: fs)).render =
      '{' :: '\x22' :: (escape k ++ '\x22' :: ':' :: (v.render ++ (moreFields fs ++ ['}']))) := by
  simp [Value.render, Value.tokens, Token.text, moreFields]

theorem render_string (s : Str) :
    (Value.string s).render = '\x22' :: (escape s ++ ['\x22']) := by
  simp [Value.render, Value.tokens, Token.text]

theorem render_number (n : Number) : (Value.number n).render = n.text := by
  simp [Value.render, Value.tokens, Token.text]

theorem ended_of_head {c : Char} (h : c.isDigit = false ∧ c ≠ '.' ∧ c ≠ 'e' ∧ c ≠ 'E')
    (rest : Str) : Ended (c :: rest) := by
  rintro d hd
  obtain rfl := Option.some.inj hd
  exact h

theorem skipSpace_cons {c : Char} (h : isSpace c = false) (rest : Str) :
    skipSpace (c :: rest) = c :: rest := by
  rw [skipSpace, List.dropWhile_cons_of_neg (by simp [h])]

theorem take_digits_head (m : Nat) {k : Nat} (hk : 0 < k) (tail : Str) :
    ∃ c rest, (digits m).take k ++ tail = c :: rest ∧ c.isDigit = true := by
  cases h : digits m with
  | nil => exact absurd h Nat.toDigits_ne_nil
  | cons d ds =>
      obtain ⟨k, rfl⟩ := Nat.exists_eq_succ_of_ne_zero hk.ne'
      exact ⟨d, ds.take k ++ tail, rfl, isDigit_of_mem_digits (h ▸ List.mem_cons_self)⟩

theorem digits_head (m : Nat) (tail : Str) :
    ∃ c rest, digits m ++ tail = c :: rest ∧ c.isDigit = true := by
  have hHead := take_digits_head m (k := (digits m).length) Nat.length_toDigits_pos tail
  rwa [List.take_length] at hHead

theorem decimalText_head (m : Nat) (e : Int) :
    ∃ c rest, decimalText m e = c :: rest ∧ c.isDigit = true := by
  unfold decimalText
  dsimp only
  split_ifs with hZero hWhole hInner hSmall hOne
  · exact ⟨'0', _, rfl, by decide⟩
  · rw [List.append_assoc]
    exact digits_head m _
  · exact take_digits_head m (by omega) _
  · exact ⟨'0', _, rfl, by decide⟩
  · exact digits_head m _
  · rw [List.append_assoc]
    exact take_digits_head m Nat.zero_lt_one _

/-- The text of a number begins with its sign or a digit. -/
theorem text_head (n : Number) : ∃ c rest, n.text = c :: rest ∧ (c = '-' ∨ c.isDigit = true) := by
  cases n with
  | posInt n =>
      obtain ⟨c, rest, h, hc⟩ := digits_head n []
      exact ⟨c, rest, by rw [Number.text, ← h, List.append_nil], .inr hc⟩
  | negInt n => exact ⟨'-', _, rfl, .inl rfl⟩
  | float negative m e =>
      cases negative with
      | true => exact ⟨'-', _, rfl, .inl rfl⟩
      | false =>
          obtain ⟨c, rest, h, hc⟩ := decimalText_head m e
          exact ⟨c, rest, h, .inr hc⟩

theorem isSpace_of_isDigit {c : Char} (h : c.isDigit = true) : isSpace c = false := by
  unfold isSpace
  have hNe : ∀ d : Char, d.isDigit = false → c ≠ d := by
    rintro d hd rfl
    rw [h] at hd
    cases hd
  simp [hNe ' ' (by decide), hNe '\n' (by decide), hNe '\t' (by decide), hNe '\r' (by decide)]

/-- The text of a value begins with none of the marks that a reader looks for
before it. -/
theorem render_head (v : Value) : ∃ c rest, v.render = c :: rest ∧ isSpace c = false ∧
    c ≠ ']' ∧ c ≠ '\x7d' := by
  cases v with
  | null => exact ⟨'n', _, rfl, by decide⟩
  | bool b => cases b <;> exact ⟨_, _, rfl, by decide⟩
  | string s => exact ⟨'\x22', _, render_string s, by decide⟩
  | number n =>
      obtain ⟨c, rest, hText, hc⟩ := text_head n
      refine ⟨c, rest, (render_number n).trans hText, ?_⟩
      rcases hc with rfl | hc
      · decide
      · refine ⟨isSpace_of_isDigit hc, ?_, ?_⟩
        · rintro rfl
          exact absurd hc (by decide)
        · rintro rfl
          exact absurd hc (by decide)
  | array items =>
      cases items with
      | nil => exact ⟨'[', _, rfl, by decide⟩
      | cons v vs => exact ⟨'[', _, render_array v vs, by decide⟩
  | object fields =>
      cases fields with
      | nil => exact ⟨'\x7b', _, rfl, by decide⟩
      | cons f fs => exact ⟨'\x7b', _, render_object f.1 f.2 fs, by decide⟩

theorem readValue_digit {fuel depth : Nat} {c : Char} (h : c.isDigit = true) (rest : Str) :
    readValue (fuel + 1) depth (c :: rest) =
      (readNumber false (c :: rest)).map fun (n, after) => (.number n, after) := by
  have hNe : ∀ d : Char, d.isDigit = false → c ≠ d := by
    rintro d hd rfl
    rw [h] at hd
    cases hd
  rw [readValue, skipSpace_cons (isSpace_of_isDigit h)]
  split
  · exact absurd (List.cons.inj ‹_›).1 (hNe 'n' (by decide))
  · exact absurd (List.cons.inj ‹_›).1 (hNe 't' (by decide))
  · exact absurd (List.cons.inj ‹_›).1 (hNe 'f' (by decide))
  · exact absurd (List.cons.inj ‹_›).1 (hNe '\x22' (by decide))
  · exact absurd (List.cons.inj ‹_›).1 (hNe '-' (by decide))
  · exact absurd (List.cons.inj ‹_›).1 (hNe '[' (by decide))
  · exact absurd (List.cons.inj ‹_›).1 (hNe '\x7b' (by decide))
  · rfl

theorem readValue_minus {fuel depth : Nat} (rest : Str) :
    readValue (fuel + 1) depth ('-' :: rest) =
      (readNumber true rest).map fun (n, after) => (.number n, after) := by
  rw [readValue, skipSpace_cons (by decide)]
  rfl

theorem readValue_number {n : Number} {fuel depth : Nat} {rest : Str} (hReadable : n.Readable)
    (hRest : Ended rest) :
    readValue (fuel + 1) depth (n.text ++ rest) = some (.number n.reread, rest) := by
  cases n with
  | posInt n =>
      obtain ⟨c, tail, hText, hc⟩ := digits_head n rest
      have hRead := readNumber_whole false hRest (.inl ⟨rfl, hReadable⟩)
      rw [hText] at hRead
      show readValue (fuel + 1) depth (digits n ++ rest) = _
      rw [hText, readValue_digit hc, hRead]
      rfl
  | negInt n =>
      show readValue (fuel + 1) depth ('-' :: (digits n ++ rest)) = _
      rw [readValue_minus, readNumber_whole true hRest (.inr ⟨rfl, hReadable⟩)]
      rfl
  | float negative m e =>
      have hRead := readNumber_decimal negative hRest hReadable
      cases negative with
      | true =>
          show readValue (fuel + 1) depth ('-' :: (decimalText m e ++ rest)) = _
          rw [readValue_minus, hRead]
          rfl
      | false =>
          obtain ⟨c, tail, hText, hc⟩ := decimalText_head m e
          show readValue (fuel + 1) depth (decimalText m e ++ rest) = _
          rw [hText, List.cons_append] at hRead ⊢
          rw [readValue_digit hc, hRead]
          rfl

/-- What a reader finds after an item or a member. -/
theorem ended_moreItems (vs : List Value) (after : Str) : Ended (moreItems vs ++ ']' :: after) := by
  cases vs with
  | nil => exact ended_of_head (by decide) after
  | cons v vs => rw [moreItems_cons]; exact ended_of_head (by decide) _

theorem ended_moreFields (fs : List (Str × Value)) (after : Str) :
    Ended (moreFields fs ++ '\x7d' :: after) := by
  cases fs with
  | nil => exact ended_of_head (by decide) after
  | cons f fs => rw [moreFields_cons]; exact ended_of_head (by decide) _

theorem skipSpace_render (v : Value) (rest : Str) :
    ∃ c tail, skipSpace (v.render ++ rest) = c :: tail ∧ v.render ++ rest = c :: tail ∧
      c ≠ ']' ∧ c ≠ '\x7d' := by
  obtain ⟨c, tail, hText, hSpace, hBracket, hBrace⟩ := render_head v
  refine ⟨c, tail ++ rest, ?_, ?_, hBracket, hBrace⟩
  · rw [hText, List.cons_append, skipSpace_cons hSpace]
  · rw [hText, List.cons_append]

/-- What follows a bracket. -/
theorem readValue_bracket (fuel depth : Nat) (tail : Str) :
    readValue (fuel + 1) depth ('[' :: tail) =
      if depth = 0 then none
      else match skipSpace tail with
        | ']' :: after => some (.array [], after)
        | _ => (readItems fuel (depth - 1) tail).map fun (vs, after) => (.array vs, after) := by
  rw [readValue, skipSpace_cons (by decide)]
  rfl

/-- What follows a brace. -/
theorem readValue_brace (fuel depth : Nat) (tail : Str) :
    readValue (fuel + 1) depth ('\x7b' :: tail) =
      if depth = 0 then none
      else match skipSpace tail with
        | '\x7d' :: after => some (.object [], after)
        | _ => (readFields fuel (depth - 1) [] tail).map fun (fs, after) => (.object fs, after) := by
  rw [readValue, skipSpace_cons (by decide)]
  rfl

/-- An array that is not empty is read item by item. -/
theorem readValue_items {fuel depth : Nat} {c : Char} {tail : Str} (hDepth : 0 < depth)
    (hSpace : skipSpace (c :: tail) = c :: tail) (hNot : c ≠ ']') :
    readValue (fuel + 1) depth ('[' :: c :: tail) =
      (readItems fuel (depth - 1) (c :: tail)).map fun (vs, after) => (.array vs, after) := by
  rw [readValue_bracket, if_neg (by omega), hSpace]
  split
  · exact absurd (List.cons.inj ‹_›).1 hNot
  · rfl

theorem readValue_fields {fuel depth : Nat} {tail : Str} (hDepth : 0 < depth) :
    readValue (fuel + 1) depth ('\x7b' :: '\x22' :: tail) =
      (readFields fuel (depth - 1) [] ('\x22' :: tail)).map fun (fs, after) => (.object fs, after) := by
  rw [readValue_brace, if_neg (by omega), skipSpace_cons (by decide)]
  rfl

theorem readFields_member {fuel depth : Nat} {start : List (Str × Value)} {key text rest after : Str}
    {v : Value} (hKey : readString text = some (key, ':' :: rest))
    (hValue : readValue fuel depth rest = some (v, after)) :
    readFields (fuel + 1) depth start ('\x22' :: text) =
      match skipSpace after with
      | ',' :: more => readFields fuel depth (insertField key v start) more
      | '\x7d' :: after => some (insertField key v start, after)
      | _ => none := by
  rw [readFields_succ]
  simp only [skipSpace_cons (by decide : isSpace '\x22' = false), hKey,
    skipSpace_cons (by decide : isSpace ':' = false), hValue] <;> rfl

/-- With two steps for each character of its text, a value is read back. -/
def ReadsBack (fuel : Nat) : Prop :=
  ∀ (v : Value) (depth : Nat) (rest : Str), 2 * v.render.length ≤ fuel → v.Readable depth →
    Ended rest → readValue fuel depth (v.render ++ rest) = some (v.reread, rest)

def ReadsItemsBack (fuel : Nat) : Prop :=
  ∀ (v : Value) (vs : List Value) (depth : Nat) (after : Str),
    2 * (v.render.length + (moreItems vs).length) + 1 ≤ fuel → ItemsReadable depth (v :: vs) →
      readItems fuel depth (v.render ++ (moreItems vs ++ ']' :: after)) =
        some (rereadItems (v :: vs), after)

def ReadsFieldsBack (fuel : Nat) : Prop :=
  ∀ (k : Str) (v : Value) (fs start : List (Str × Value)) (depth : Nat) (after : Str),
    2 * (v.render.length + (moreFields fs).length) + 1 ≤ fuel →
      FieldsReadable depth ((k, v) :: fs) →
      readFields fuel depth start ('\x22' :: (escape k ++ '\x22' :: ':' ::
          (v.render ++ (moreFields fs ++ '\x7d' :: after)))) =
        some (rereadFields start ((k, v) :: fs), after)

section

variable {fuel : Nat}

theorem readsItemsBack_succ (hValue : ReadsBack fuel) (hItems : ReadsItemsBack fuel) :
    ReadsItemsBack (fuel + 1) := by
  intro v vs depth after hFuel hReadable
  obtain ⟨hFirst, hRest⟩ : v.Readable depth ∧ ItemsReadable depth vs := by
    simpa only [ItemsReadable] using hReadable
  rw [readItems, hValue v depth _ (by omega) hFirst (ended_moreItems vs after)]
  cases vs with
  | nil => rfl
  | cons w ws =>
      rw [moreItems_cons, List.length_cons, List.length_append] at hFuel
      have hMore : moreItems (w :: ws) ++ ']' :: after =
          ',' :: (w.render ++ (moreItems ws ++ ']' :: after)) := by
        rw [moreItems_cons, List.cons_append, List.append_assoc]
      rw [hMore]
      dsimp only
      rw [skipSpace_cons (by decide)]
      change (readItems fuel depth (w.render ++ (moreItems ws ++ ']' :: after))).map _ = _
      rw [hItems w ws depth after (by omega) hRest]
      rfl

theorem readsFieldsBack_succ (hValue : ReadsBack fuel) (hFields : ReadsFieldsBack fuel) :
    ReadsFieldsBack (fuel + 1) := by
  intro k v fs start depth after hFuel hReadable
  obtain ⟨hFirst, hRest⟩ : v.Readable depth ∧ FieldsReadable depth fs := by
    simpa only [FieldsReadable] using hReadable
  rw [readFields_member (readString_escape k _)
    (hValue v depth _ (by omega) hFirst (ended_moreFields fs after))]
  cases fs with
  | nil => rfl
  | cons f fs =>
      obtain ⟨j, w⟩ := f
      rw [moreFields_cons] at hFuel
      simp only [List.length_cons, List.length_append] at hFuel
      have hMore : moreFields ((j, w) :: fs) ++ '\x7d' :: after = ',' :: '\x22' ::
          (escape j ++ '\x22' :: ':' :: (w.render ++ (moreFields fs ++ '\x7d' :: after))) := by
        rw [moreFields_cons]
        simp
      rw [hMore, skipSpace_cons (by decide)]
      exact hFields j w fs (insertField k v.reread start) depth after (by omega) hRest

theorem readsBack_succ (hItems : ReadsItemsBack fuel) (hFields : ReadsFieldsBack fuel) :
    ReadsBack (fuel + 1) := by
  intro v depth rest hFuel hReadable hRest
  cases v with
  | null =>
      rw [readValue]
      rfl
  | bool b =>
      cases b <;>
      · rw [readValue]
        rfl
  | number n =>
      rw [render_number]
      exact readValue_number (by simpa only [Value.Readable] using hReadable) hRest
  | string s =>
      rw [render_string, List.cons_append, List.append_assoc, readValue, skipSpace_cons (by decide)]
      change (readString (escape s ++ '\x22' :: rest)).map _ = _
      rw [readString_escape]
      rfl
  | array items =>
      obtain ⟨hDepth, hReadable⟩ : 0 < depth ∧ ItemsReadable (depth - 1) items := by
        simpa only [Value.Readable] using hReadable
      cases items with
      | nil =>
          show readValue (fuel + 1) depth ('[' :: ']' :: rest) = _
          rw [readValue, skipSpace_cons (by decide)]
          change (if depth = 0 then none else some (Value.array [], rest)) = _
          rw [if_neg (by omega)]
          rfl
      | cons v vs =>
          have hText : (Value.array (v :: vs)).render ++ rest =
              '[' :: (v.render ++ (moreItems vs ++ ']' :: rest)) := by
            rw [render_array]
            simp
          rw [render_array] at hFuel
          simp only [List.length_cons, List.length_append, List.length_nil] at hFuel
          have hRead := hItems v vs (depth - 1) rest (by omega) hReadable
          obtain ⟨c, tail, hSpace, hHead, hNot, -⟩ :=
            skipSpace_render v (moreItems vs ++ ']' :: rest)
          rw [hHead] at hSpace hRead hText
          rw [hText, readValue_items hDepth hSpace hNot, hRead, Value.reread]
          rfl
  | object fields =>
      obtain ⟨hDepth, hReadable⟩ : 0 < depth ∧ FieldsReadable (depth - 1) fields := by
        simpa only [Value.Readable] using hReadable
      cases fields with
      | nil =>
          show readValue (fuel + 1) depth ('\x7b' :: '\x7d' :: rest) = _
          rw [readValue, skipSpace_cons (by decide)]
          change (if depth = 0 then none else some (Value.object [], rest)) = _
          rw [if_neg (by omega)]
          rfl
      | cons f fs =>
          obtain ⟨k, v⟩ := f
          have hText : (Value.object ((k, v) :: fs)).render ++ rest = '\x7b' :: '\x22' ::
              (escape k ++ '\x22' :: ':' :: (v.render ++ (moreFields fs ++ '\x7d' :: rest))) := by
            rw [render_object]
            simp
          rw [render_object] at hFuel
          simp only [List.length_cons, List.length_append, List.length_nil] at hFuel
          rw [hText, readValue_fields hDepth,
            hFields k v fs [] (depth - 1) rest (by omega) hReadable, Value.reread]
          rfl

end

theorem readsBack (fuel : Nat) : ReadsBack fuel ∧ ReadsItemsBack fuel ∧ ReadsFieldsBack fuel := by
  induction fuel with
  | zero =>
      refine ⟨fun v depth rest hFuel => ?_, fun v vs depth after hFuel => ?_,
        fun k v fs start depth after hFuel => ?_⟩
      · obtain ⟨c, tail, hText, -⟩ := render_head v
        simp [hText] at hFuel
      · omega
      · omega
  | succ fuel ih =>
      obtain ⟨hValue, hItems, hFields⟩ := ih
      exact ⟨readsBack_succ hItems hFields, readsItemsBack_succ hValue hItems,
        readsFieldsBack_succ hValue hFields⟩

/-- What is written is read back. -/
theorem fromStr_render {v : Value} (h : v.Readable maxDepth) : fromStr v.render = some v.reread := by
  have hRead := (readsBack (2 * v.render.length + 2)).1 v maxDepth [] (by omega) h
    fun c hc => nomatch hc
  rw [List.append_nil] at hRead
  rw [fromStr, hRead]
  rfl

/-! ### Members read back -/

theorem inOrder_rereadFields {start fields : List (Str × Value)} (h : InOrder start) :
    InOrder (rereadFields start fields) := by
  induction fields generalizing start with
  | nil => exact h
  | cons f fields ih => exact ih (h.insertField f.1 f.2.reread)

/-- Members with distinct names are found where they were. -/
theorem lookupField_rereadFields {start fields : List (Str × Value)}
    (h : (fields.map Prod.fst).Nodup) (k : Str) :
    lookupField k (rereadFields start fields) =
      ((lookupField k fields).map Value.reread).or (lookupField k start) := by
  induction fields generalizing start with
  | nil => rfl
  | cons f fields ih =>
      obtain ⟨name, v⟩ := f
      obtain ⟨hNew, hRest⟩ := List.nodup_cons.mp h
      rw [rereadFields, ih hRest, lookupField_insertField]
      by_cases hName : name = k
      · subst hName
        have hNone : lookupField name fields = none := by
          clear ih hRest h
          induction fields with
          | nil => rfl
          | cons g fields ih =>
              obtain ⟨hFirst, hNew⟩ := not_or.mp (mt List.mem_cons.mpr hNew)
              rw [lookupField, if_neg (Ne.symm hFirst), ih hNew]
        simp [lookupField, hNone]
      · simp [lookupField, hName]

theorem fieldsReadable_of {depth : Nat} {fields : List (Str × Value)}
    (h : ∀ f ∈ fields, f.2.Readable depth) : FieldsReadable depth fields := by
  induction fields with
  | nil => trivial
  | cons f fields ih =>
      obtain ⟨hFirst, hRest⟩ := List.forall_mem_cons.mp h
      exact ⟨hFirst, ih hRest⟩

end Json
