import Mathlib.Data.List.Basic

/-! UTF-8 between bytes and characters. The decoder is a machine fed one byte
at a time, so that an ill-formed sequence costs one replacement for each of its
maximal well-begun parts. -/
namespace Text

/-- Bytes of a character still to come: how many, the range the next one must
lie in, and the bits read so far. -/
structure Pending where
  missing : Nat
  low : Nat
  high : Nat
  bits : Nat

/-- What a leading byte announces. The range of the second byte excludes
overlong forms, surrogates and values past the last character. -/
def leadByte (b : Nat) : Option Pending :=
  if 0xC2 ≤ b ∧ b ≤ 0xDF then some ⟨1, 0x80, 0xBF, b % 0x20⟩
  else if b = 0xE0 then some ⟨2, 0xA0, 0xBF, 0⟩
  else if b = 0xED then some ⟨2, 0x80, 0x9F, 0xD⟩
  else if 0xE1 ≤ b ∧ b ≤ 0xEF then some ⟨2, 0x80, 0xBF, b % 0x10⟩
  else if b = 0xF0 then some ⟨3, 0x90, 0xBF, 0⟩
  else if 0xF1 ≤ b ∧ b ≤ 0xF3 then some ⟨3, 0x80, 0xBF, b % 0x08⟩
  else if b = 0xF4 then some ⟨3, 0x80, 0x8F, 4⟩
  else none

/-- A byte between characters. `none` in the output stands for an ill-formed
part. -/
def firstByte (b : Nat) : List (Option Char) × Option Pending :=
  if b < 0x80 then ([some (Char.ofNat b)], none)
  else match leadByte b with
    | some p => ([], some p)
    | none => ([none], none)

def feedByte : Option Pending → Nat → List (Option Char) × Option Pending
  | none, b => firstByte b
  | some p, b =>
      if p.low ≤ b ∧ b ≤ p.high then
        let bits := p.bits * 0x40 + b % 0x40
        if p.missing = 1 then ([some (Char.ofNat bits)], none)
        else ([], some ⟨p.missing - 1, 0x80, 0xBF, bits⟩)
      else
        let (out, next) := firstByte b
        (none :: out, next)

def decodeFrom : Option Pending → List UInt8 → List (Option Char)
  | none, [] => []
  | some _, [] => [none]
  | p, b :: bs =>
      let (out, next) := feedByte p b.toNat
      out ++ decodeFrom next bs

/-- The characters of a text, ill-formed parts replaced. -/
def fromUtf8Lossy (bytes : List UInt8) : List Char :=
  (decodeFrom none bytes).map (fun c => c.getD '\uFFFD')

/-- The characters of a well-formed text. -/
def fromUtf8 (bytes : List UInt8) : Option (List Char) :=
  (decodeFrom none bytes).mapM id

/-- A character's bytes. -/
def charBytes (c : Char) : List UInt8 :=
  let n := c.toNat
  if n < 0x80 then [n.toUInt8]
  else if n < 0x800 then [(0xC0 + n / 0x40).toUInt8, (0x80 + n % 0x40).toUInt8]
  else if n < 0x10000 then
    [(0xE0 + n / 0x1000).toUInt8, (0x80 + n / 0x40 % 0x40).toUInt8, (0x80 + n % 0x40).toUInt8]
  else
    [(0xF0 + n / 0x40000).toUInt8, (0x80 + n / 0x1000 % 0x40).toUInt8,
      (0x80 + n / 0x40 % 0x40).toUInt8, (0x80 + n % 0x40).toUInt8]

def toUtf8 (s : List Char) : List UInt8 := s.flatMap charBytes

/-! ### Reading back -/

private theorem toNat_toUInt8 {n : Nat} (h : n < 0x100) : n.toUInt8.toNat = n := by
  simp [Nat.toUInt8, h]

/-- A continuation byte in range that is the last one gives the character. -/
private theorem feedByte_last {p : Pending} {b : Nat} (hLow : p.low ≤ b) (hHigh : b ≤ p.high)
    (hLast : p.missing = 1) :
    feedByte (some p) b = ([some (Char.ofNat (p.bits * 0x40 + b % 0x40))], none) := by
  simp [feedByte, hLow, hHigh, hLast]

private theorem feedByte_next {p : Pending} {b : Nat} (hLow : p.low ≤ b) (hHigh : b ≤ p.high)
    (hMore : p.missing ≠ 1) :
    feedByte (some p) b = ([], some ⟨p.missing - 1, 0x80, 0xBF, p.bits * 0x40 + b % 0x40⟩) := by
  simp [feedByte, hLow, hHigh, hMore]

private theorem feedByte_lead {b : Nat} {p : Pending} (hHigh : 0x80 ≤ b)
    (h : leadByte b = some p) : feedByte none b = ([], some p) := by
  simp [feedByte, firstByte, h, Nat.not_lt.mpr hHigh]

/-- A character's code is a scalar value. -/
private theorem toNat_scalar (c : Char) :
    c.toNat < 0xD800 ∨ (0xDFFF < c.toNat ∧ c.toNat < 0x110000) := c.valid

/-- The second byte of a three-byte character is in the range its first byte
announces. -/
private theorem leadByte_three {n : Nat} (hLow : 0x800 ≤ n) (hHigh : n < 0x10000)
    (hScalar : n < 0xD800 ∨ 0xDFFF < n) :
    ∃ low high, leadByte (0xE0 + n / 0x1000) = some ⟨2, low, high, n / 0x1000⟩ ∧
      low ≤ 0x80 + n / 0x40 % 0x40 ∧ 0x80 + n / 0x40 % 0x40 ≤ high := by
  unfold leadByte
  rw [if_neg (by omega)]
  split_ifs with hE0 hED hRest
  · exact ⟨_, _, by rw [show n / 0x1000 = 0 by omega], by omega, by omega⟩
  · exact ⟨_, _, by rw [show n / 0x1000 = 0xD by omega], by omega, by omega⟩
  · exact ⟨_, _, by rw [show (0xE0 + n / 0x1000) % 0x10 = n / 0x1000 by omega], by omega, by omega⟩
  all_goals omega

private theorem leadByte_four {n : Nat} (hLow : 0x10000 ≤ n) (hHigh : n < 0x110000) :
    ∃ low high, leadByte (0xF0 + n / 0x40000) = some ⟨3, low, high, n / 0x40000⟩ ∧
      low ≤ 0x80 + n / 0x1000 % 0x40 ∧ 0x80 + n / 0x1000 % 0x40 ≤ high := by
  unfold leadByte
  rw [if_neg (by omega), if_neg (by omega), if_neg (by omega), if_neg (by omega)]
  split_ifs with hF0 hRest hF4
  · exact ⟨_, _, by rw [show n / 0x40000 = 0 by omega], by omega, by omega⟩
  · exact ⟨_, _, by rw [show (0xF0 + n / 0x40000) % 0x08 = n / 0x40000 by omega],
      by omega, by omega⟩
  · exact ⟨_, _, by rw [show n / 0x40000 = 4 by omega], by omega, by omega⟩
  all_goals omega

private theorem decodeFrom_charBytes (c : Char) (rest : List UInt8) :
    decodeFrom none (charBytes c ++ rest) = some c :: decodeFrom none rest := by
  have hScalar := toNat_scalar c
  have hBack : Char.ofNat c.toNat = c := Char.ofNat_toNat c
  unfold charBytes
  simp only
  split_ifs with h1 h2 h3
  · simp only [List.singleton_append, decodeFrom, toNat_toUInt8 (show c.toNat < 0x100 by omega),
      feedByte, firstByte, if_pos h1, hBack]
  · have hLead : leadByte (0xC0 + c.toNat / 0x40) = some ⟨1, 0x80, 0xBF, c.toNat / 0x40⟩ := by
      rw [leadByte, if_pos (by omega)]
      congr 2
      omega
    simp only [List.cons_append, List.nil_append, decodeFrom,
      toNat_toUInt8 (show 0xC0 + c.toNat / 0x40 < 0x100 by omega),
      toNat_toUInt8 (show 0x80 + c.toNat % 0x40 < 0x100 by omega),
      feedByte_lead (by omega) hLead]
    rw [feedByte_last (by simp) (by simp; omega) rfl]
    have hBits : c.toNat / 0x40 * 0x40 + (0x80 + c.toNat % 0x40) % 0x40 = c.toNat := by omega
    simp only [hBits, hBack, List.singleton_append]
  · obtain ⟨low, high, hLead, hSecondLow, hSecondHigh⟩ :=
      leadByte_three (n := c.toNat) (by omega) (by omega) (by omega)
    simp only [List.cons_append, List.nil_append, decodeFrom,
      toNat_toUInt8 (show 0xE0 + c.toNat / 0x1000 < 0x100 by omega),
      toNat_toUInt8 (show 0x80 + c.toNat / 0x40 % 0x40 < 0x100 by omega),
      toNat_toUInt8 (show 0x80 + c.toNat % 0x40 < 0x100 by omega),
      feedByte_lead (by omega) hLead]
    rw [feedByte_next hSecondLow hSecondHigh (by simp)]
    simp only [List.nil_append]
    rw [feedByte_last (by simp) (by simp; omega) rfl]
    have hBits : (c.toNat / 0x1000 * 0x40 + (0x80 + c.toNat / 0x40 % 0x40) % 0x40) * 0x40 +
        (0x80 + c.toNat % 0x40) % 0x40 = c.toNat := by omega
    simp only [hBits, hBack, List.singleton_append]
  · obtain ⟨low, high, hLead, hSecondLow, hSecondHigh⟩ :=
      leadByte_four (n := c.toNat) (by omega) (by omega)
    simp only [List.cons_append, List.nil_append, decodeFrom,
      toNat_toUInt8 (show 0xF0 + c.toNat / 0x40000 < 0x100 by omega),
      toNat_toUInt8 (show 0x80 + c.toNat / 0x1000 % 0x40 < 0x100 by omega),
      toNat_toUInt8 (show 0x80 + c.toNat / 0x40 % 0x40 < 0x100 by omega),
      toNat_toUInt8 (show 0x80 + c.toNat % 0x40 < 0x100 by omega),
      feedByte_lead (by omega) hLead]
    rw [feedByte_next hSecondLow hSecondHigh (by simp)]
    simp only [List.nil_append]
    rw [feedByte_next (by simp) (by simp; omega) (by simp)]
    simp only [List.nil_append]
    rw [feedByte_last (by simp) (by simp; omega) rfl]
    have hBits : ((c.toNat / 0x40000 * 0x40 + (0x80 + c.toNat / 0x1000 % 0x40) % 0x40) * 0x40 +
        (0x80 + c.toNat / 0x40 % 0x40) % 0x40) * 0x40 + (0x80 + c.toNat % 0x40) % 0x40 =
          c.toNat := by omega
    simp only [hBits, hBack, List.singleton_append]

theorem decodeFrom_toUtf8 (s : List Char) : decodeFrom none (toUtf8 s) = s.map some := by
  unfold toUtf8
  induction s with
  | nil => rfl
  | cons c rest ih => rw [List.flatMap_cons, decodeFrom_charBytes, ih, List.map_cons]

/-- Encoding loses nothing. -/
theorem fromUtf8Lossy_toUtf8 (s : List Char) : fromUtf8Lossy (toUtf8 s) = s := by
  rw [fromUtf8Lossy, decodeFrom_toUtf8, List.map_map]
  exact List.map_id s

theorem fromUtf8_toUtf8 (s : List Char) : fromUtf8 (toUtf8 s) = some s := by
  rw [fromUtf8, decodeFrom_toUtf8]
  induction s with
  | nil => rfl
  | cons c rest ih => simp [List.mapM_cons, ih]

theorem toUtf8_injective {s t : List Char} (h : toUtf8 s = toUtf8 t) : s = t :=
  Option.some.inj (by rw [← fromUtf8_toUtf8, h, fromUtf8_toUtf8])

/-- An ASCII byte is a character whatever it follows. -/
private theorem decodeFrom_concat {b : UInt8} (hAscii : b.toNat < 0x80) {p : Option Pending}
    (hLow : ∀ q, p = some q → 0x80 ≤ q.low) (bytes : List UInt8) :
    decodeFrom p (bytes ++ [b]) = decodeFrom p bytes ++ [some (Char.ofNat b.toNat)] := by
  induction bytes generalizing p with
  | nil =>
      cases p with
      | none => simp [decodeFrom, feedByte, firstByte, hAscii]
      | some q =>
          have hOut : ¬(q.low ≤ b.toNat ∧ b.toNat ≤ q.high) := by
            have := hLow q rfl
            omega
          simp [decodeFrom, feedByte, firstByte, hAscii, hOut]
  | cons c cs ih =>
      have hFirst : ∀ q, (firstByte c.toNat).2 = some q → 0x80 ≤ q.low := by
        unfold firstByte leadByte
        intro q hq
        split_ifs at hq <;> cases hq <;> simp
      have hNext : ∀ q, (feedByte p c.toNat).2 = some q → 0x80 ≤ q.low := by
        cases p with
        | none => exact hFirst
        | some r =>
            unfold feedByte
            dsimp only
            split_ifs
            · exact nofun
            · rintro q ⟨⟩
              exact Nat.le_refl _
            · exact hFirst
      rw [List.cons_append, decodeFrom, decodeFrom]
      dsimp only
      rw [ih hNext, List.append_assoc]

theorem fromUtf8Lossy_concat {b : UInt8} (hAscii : b.toNat < 0x80) (bytes : List UInt8) :
    fromUtf8Lossy (bytes ++ [b]) = fromUtf8Lossy bytes ++ [Char.ofNat b.toNat] := by
  unfold fromUtf8Lossy
  have hNone : ∀ q, (none : Option Pending) = some q → 0x80 ≤ q.low := by
    intro q hq
    cases hq
  rw [decodeFrom_concat hAscii hNone, List.map_append]
  rfl

/-! ### Decoding only what was encoded -/

private theorem toNat_ofNat {n : Nat} (h : n < 0xD800 ∨ (0xDFFF < n ∧ n < 0x110000)) :
    (Char.ofNat n).toNat = n := by
  rw [Char.ofNat, dif_pos (show n.isValidChar from h)]
  rfl

private theorem toUInt8_eq {n : Nat} {b : UInt8} (h : n = b.toNat) : n.toUInt8 = b := by
  rw [h]
  exact UInt8.ofNat_toNat

/-- Where a character has begun and nothing is ill-formed, the next byte is in
range. -/
private theorem decodeFrom_pending {p : Pending} {bytes : List UInt8} {s : List Char}
    (h : decodeFrom (some p) bytes = s.map some) :
    ∃ b rest, bytes = b :: rest ∧ p.low ≤ b.toNat ∧ b.toNat ≤ p.high ∧
      (feedByte (some p) b.toNat).1 ++ decodeFrom (feedByte (some p) b.toNat).2 rest = s.map some := by
  cases bytes with
  | nil =>
      cases s with
      | nil => cases h
      | cons c s => simp [decodeFrom] at h
  | cons b rest =>
      refine ⟨b, rest, rfl, ?_⟩
      by_cases hRange : p.low ≤ b.toNat ∧ b.toNat ≤ p.high
      · exact ⟨hRange.1, hRange.2, h⟩
      · rw [decodeFrom, feedByte] at h
        dsimp only at h
        rw [if_neg hRange] at h
        cases s with
        | nil => cases h
        | cons c s => simp at h

private theorem decodeFrom_last {p : Pending} {bytes : List UInt8} {s : List Char}
    (h : decodeFrom (some p) bytes = s.map some) (hLast : p.missing = 1) :
    ∃ b rest, bytes = b :: rest ∧ p.low ≤ b.toNat ∧ b.toNat ≤ p.high ∧
      ∃ t, s = Char.ofNat (p.bits * 0x40 + b.toNat % 0x40) :: t ∧ decodeFrom none rest = t.map some := by
  obtain ⟨b, rest, rfl, hLow, hHigh, h⟩ := decodeFrom_pending h
  rw [feedByte_last hLow hHigh hLast] at h
  cases s with
  | nil => cases h
  | cons c t =>
      obtain ⟨hFirst, hRest⟩ := List.cons.inj h
      exact ⟨b, rest, rfl, hLow, hHigh, t, by rw [Option.some.inj hFirst], hRest⟩

private theorem decodeFrom_more {p : Pending} {bytes : List UInt8} {s : List Char}
    (h : decodeFrom (some p) bytes = s.map some) (hMore : p.missing ≠ 1) :
    ∃ b rest, bytes = b :: rest ∧ p.low ≤ b.toNat ∧ b.toNat ≤ p.high ∧
      decodeFrom (some ⟨p.missing - 1, 0x80, 0xBF, p.bits * 0x40 + b.toNat % 0x40⟩) rest =
        s.map some := by
  obtain ⟨b, rest, rfl, hLow, hHigh, h⟩ := decodeFrom_pending h
  rw [feedByte_next hLow hHigh hMore] at h
  exact ⟨b, rest, rfl, hLow, hHigh, h⟩

/-- A lead of three bytes, and what it announces, give one character. -/
private theorem decodeFrom_three {b : UInt8} {low high bits : Nat} {bytes : List UInt8}
    {s : List Char} (h : decodeFrom (some ⟨2, low, high, bits⟩) bytes = s.map some)
    (hLead : b.toNat = 0xE0 + bits) (hBits : bits < 0x10) (hLow : 0x80 ≤ low) (hHigh : high ≤ 0xBF)
    (hOverlong : bits = 0 → 0xA0 ≤ low) (hSurrogate : bits = 0xD → high ≤ 0x9F) :
    ∃ c t rest, s = c :: t ∧ b :: bytes = charBytes c ++ rest ∧ decodeFrom none rest = t.map some := by
  obtain ⟨b₂, rest₂, rfl, hLow₂, hHigh₂, h⟩ := decodeFrom_more h (by simp)
  obtain ⟨b₃, rest, rfl, hLow₃, hHigh₃, t, rfl, hRest⟩ := decodeFrom_last h rfl
  dsimp only at hLow₂ hHigh₂ hLow₃ hHigh₃ hRest ⊢
  generalize hCode : (bits * 0x40 + b₂.toNat % 0x40) * 0x40 + b₃.toNat % 0x40 = n
  refine ⟨_, t, rest, rfl, ?_, hRest⟩
  rw [charBytes, toNat_ofNat (by omega)]
  rw [if_neg (by omega), if_neg (by omega), if_pos (by omega), toUInt8_eq (b := b) (by omega),
    toUInt8_eq (b := b₂) (by omega), toUInt8_eq (b := b₃) (by omega)]
  rfl

/-- A lead of four bytes likewise. -/
private theorem decodeFrom_four {b : UInt8} {low high bits : Nat} {bytes : List UInt8}
    {s : List Char} (h : decodeFrom (some ⟨3, low, high, bits⟩) bytes = s.map some)
    (hLead : b.toNat = 0xF0 + bits) (hBits : bits ≤ 4) (hLow : 0x80 ≤ low) (hHigh : high ≤ 0xBF)
    (hOverlong : bits = 0 → 0x90 ≤ low) (hLargest : bits = 4 → high ≤ 0x8F) :
    ∃ c t rest, s = c :: t ∧ b :: bytes = charBytes c ++ rest ∧ decodeFrom none rest = t.map some := by
  obtain ⟨b₂, rest₂, rfl, hLow₂, hHigh₂, h⟩ := decodeFrom_more h (by simp)
  obtain ⟨b₃, rest₃, rfl, hLow₃, hHigh₃, h⟩ := decodeFrom_more h (by simp)
  obtain ⟨b₄, rest, rfl, hLow₄, hHigh₄, t, rfl, hRest⟩ := decodeFrom_last h rfl
  dsimp only at hLow₂ hHigh₂ hLow₃ hHigh₃ hLow₄ hHigh₄ hRest ⊢
  generalize hCode : ((bits * 0x40 + b₂.toNat % 0x40) * 0x40 + b₃.toNat % 0x40) * 0x40 +
    b₄.toNat % 0x40 = n
  refine ⟨_, t, rest, rfl, ?_, hRest⟩
  rw [charBytes, toNat_ofNat (by omega)]
  rw [if_neg (by omega), if_neg (by omega), if_neg (by omega), toUInt8_eq (b := b) (by omega),
    toUInt8_eq (b := b₂) (by omega), toUInt8_eq (b := b₃) (by omega),
    toUInt8_eq (b := b₄) (by omega)]
  rfl

/-- The bytes of a character are those of its encoding. -/
private theorem decodeFrom_cons {b : UInt8} {bytes : List UInt8} {s : List Char}
    (h : decodeFrom none (b :: bytes) = s.map some) :
    ∃ c t rest, s = c :: t ∧ b :: bytes = charBytes c ++ rest ∧ decodeFrom none rest = t.map some := by
  rw [decodeFrom, feedByte, firstByte] at h
  by_cases hAscii : b.toNat < 0x80
  · rw [if_pos hAscii] at h
    cases s with
    | nil => cases h
    | cons c t =>
        obtain ⟨hFirst, hRest⟩ := List.cons.inj h
        have hCode := toNat_ofNat (n := b.toNat) (.inl (by omega))
        refine ⟨c, t, bytes, rfl, ?_, hRest⟩
        rw [← Option.some.inj hFirst, charBytes, hCode]
        rw [if_pos hAscii, toUInt8_eq rfl]
        rfl
  · rw [if_neg hAscii] at h
    cases hLead : leadByte b.toNat with
    | none =>
        rw [hLead] at h
        cases s with
        | nil => cases h
        | cons c t => simp at h
    | some p =>
        rw [hLead] at h
        replace h : decodeFrom (some p) bytes = s.map some := h
        unfold leadByte at hLead
        split_ifs at hLead with hTwo hE0 hED hThree hF0 hFour hF4 <;> cases hLead
        · obtain ⟨b₂, rest, rfl, hLow, hHigh, t, rfl, hRest⟩ := decodeFrom_last h rfl
          dsimp only at hLow hHigh ⊢
          generalize hCode : b.toNat % 0x20 * 0x40 + b₂.toNat % 0x40 = n
          refine ⟨_, t, rest, rfl, ?_, hRest⟩
          rw [charBytes, toNat_ofNat (.inl (by omega))]
          rw [if_neg (by omega), if_pos (by omega), toUInt8_eq (b := b) (by omega),
            toUInt8_eq (b := b₂) (by omega)]
          rfl
        · exact decodeFrom_three h hE0 (by decide) (by decide) (by decide) (by decide) (by decide)
        · exact decodeFrom_three h hED (by decide) (by decide) (by decide) (by decide) (by decide)
        · exact decodeFrom_three h (by omega) (by omega) (by decide) (by decide) (by omega) (by omega)
        · exact decodeFrom_four h hF0 (by decide) (by decide) (by decide) (by decide) (by decide)
        · exact decodeFrom_four h (by omega) (by omega) (by decide) (by decide) (by omega) (by omega)
        · exact decodeFrom_four h hF4 (by decide) (by decide) (by decide) (by decide) (by decide)

theorem toUtf8_of_decodeFrom {bytes : List UInt8} {s : List Char}
    (h : decodeFrom none bytes = s.map some) : toUtf8 s = bytes := by
  induction s generalizing bytes with
  | nil =>
      cases bytes with
      | nil => rfl
      | cons b bytes =>
          obtain ⟨c, t, rest, hCons, -⟩ := decodeFrom_cons h
          cases hCons
  | cons c t ih =>
      cases bytes with
      | nil => cases h
      | cons b bytes =>
          obtain ⟨d, u, rest, hCons, hBytes, hRest⟩ := decodeFrom_cons h
          cases hCons
          rw [hBytes, toUtf8, List.flatMap_cons]
          exact congrArg (charBytes c ++ ·) (ih hRest)

/-- A text is read from its own bytes only. -/
theorem fromUtf8_eq_some {bytes : List UInt8} {s : List Char} :
    fromUtf8 bytes = some s ↔ bytes = toUtf8 s := by
  refine ⟨fun h => (toUtf8_of_decodeFrom ?_).symm, fun h => h ▸ fromUtf8_toUtf8 s⟩
  unfold fromUtf8 at h
  generalize decodeFrom none bytes = out at h ⊢
  induction out generalizing s with
  | nil =>
      cases h
      rfl
  | cons o out ih =>
      cases o with
      | none => simp [List.mapM_cons] at h
      | some c =>
          rw [List.mapM_cons] at h
          obtain ⟨c', hHead, h⟩ := Option.bind_eq_some_iff.mp h
          obtain ⟨t, hRest, h⟩ := Option.bind_eq_some_iff.mp h
          cases hHead
          cases h
          rw [List.map_cons, ih hRest]

/-! ### The order of the bytes -/

theorem toUtf8_cons (c : Char) (s : List Char) : toUtf8 (c :: s) = charBytes c ++ toUtf8 s :=
  List.flatMap_cons

theorem charBytes_ascii {c : Char} (h : c.toNat < 0x80) : charBytes c = [c.toNat.toUInt8] := by
  unfold charBytes
  exact if_pos h

private theorem toUInt8_lt_iff {m n : Nat} (hm : m < 0x100) (hn : n < 0x100) :
    m.toUInt8 < n.toUInt8 ↔ m < n := by
  rw [UInt8.lt_iff_toNat_lt, toNat_toUInt8 hm, toNat_toUInt8 hn]

/-- ASCII texts are in the order of their bytes. -/
theorem toUtf8_lt_iff {s t : List Char} (hs : ∀ c ∈ s, c.toNat < 0x80)
    (ht : ∀ c ∈ t, c.toNat < 0x80) : toUtf8 s < toUtf8 t ↔ s < t := by
  induction s generalizing t with
  | nil =>
      cases t with
      | nil => exact iff_of_false (List.lt_irrefl _) (List.lt_irrefl _)
      | cons d t =>
          rw [toUtf8_cons, charBytes_ascii (ht d List.mem_cons_self)]
          exact iff_of_true (List.nil_lt_cons _ _) (List.nil_lt_cons _ _)
  | cons c s ih =>
      cases t with
      | nil => exact iff_of_false (List.not_lt_nil _) (List.not_lt_nil _)
      | cons d t =>
          have hc := hs c List.mem_cons_self
          have hd := ht d List.mem_cons_self
          have hHead : c.toNat.toUInt8 < d.toNat.toUInt8 ↔ c < d :=
            toUInt8_lt_iff (by omega) (by omega)
          have hSame : c.toNat.toUInt8 = d.toNat.toUInt8 ↔ c = d := by
            refine ⟨fun h => ?_, fun h => by rw [h]⟩
            have hCode := congrArg UInt8.toNat h
            rw [toNat_toUInt8 (by omega), toNat_toUInt8 (by omega)] at hCode
            rw [← Char.ofNat_toNat c, hCode, Char.ofNat_toNat]
          rw [toUtf8_cons, toUtf8_cons, charBytes_ascii hc, charBytes_ascii hd, List.singleton_append,
            List.singleton_append, List.cons_lt_cons_iff, List.cons_lt_cons_iff, hHead, hSame,
            ih (fun e he => hs e (List.mem_cons_of_mem c he))
              fun e he => ht e (List.mem_cons_of_mem d he)]

end Text
