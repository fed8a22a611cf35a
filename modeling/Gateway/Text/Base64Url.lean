import Gateway.Text.Base64

/-! Base64 with the two symbols that may stand in a URL, and no padding. A text
is read strictly: no spare bits, and no group of one symbol. -/
namespace Text.Base64Url

/-- The symbol of six bits. -/
def symbol (n : Nat) : Char :=
  if n = 62 then '-' else if n = 63 then '_' else Base64.symbol n

def value (c : Char) : Option Nat :=
  if c = '-' then some 62
  else if c = '_' then some 63
  else if c = '+' ∨ c = '/' then none
  else Base64.value c

def encode : List UInt8 → List Char
  | [] => []
  | [a] => [symbol (a.toNat / 4), symbol (a.toNat % 4 * 16)]
  | [a, b] => [symbol (a.toNat / 4), symbol (a.toNat % 4 * 16 + b.toNat / 16),
      symbol (b.toNat % 16 * 4)]
  | a :: b :: c :: rest =>
      symbol (a.toNat / 4) :: symbol (a.toNat % 4 * 16 + b.toNat / 16) ::
        symbol (b.toNat % 16 * 4 + c.toNat / 64) :: symbol (c.toNat % 64) :: encode rest

def decode : List Char → Option (List UInt8)
  | [] => some []
  | [_] => none
  | [a, b] => do
      let a ← value a
      let b ← value b
      if b % 16 = 0 then some [UInt8.ofNat (a * 4 + b / 16)] else none
  | [a, b, c] => do
      let a ← value a
      let b ← value b
      let c ← value c
      if c % 4 = 0 then
        some [UInt8.ofNat (a * 4 + b / 16), UInt8.ofNat (b % 16 * 16 + c / 4)]
      else none
  | a :: b :: c :: d :: rest => do
      let a ← value a
      let b ← value b
      let c ← value c
      let d ← value d
      let more ← decode rest
      return UInt8.ofNat (a * 4 + b / 16) :: UInt8.ofNat (b % 16 * 16 + c / 4) ::
        UInt8.ofNat (c % 4 * 64 + d) :: more

theorem value_symbol {n : Nat} (h : n < 64) : value (symbol n) = some n := by
  interval_cases n <;> decide

/-- A character is the symbol of its value. -/
theorem symbol_value {c : Char} {n : Nat} (h : value c = some n) : n < 64 ∧ symbol n = c := by
  have hBack : Char.ofNat c.toNat = c := Char.ofNat_toNat c
  unfold value Base64.value at h
  split_ifs at h with hDash hLine hOther hUpper hLower hDigit hPlus hSlash <;> cases h
  · exact ⟨by decide, hDash.symm⟩
  · exact ⟨by decide, hLine.symm⟩
  · have hLow : 65 ≤ c.toNat := hUpper.1
    have hHigh : c.toNat ≤ 90 := hUpper.2
    refine ⟨by omega, ?_⟩
    rw [symbol, if_neg (by omega), if_neg (by omega), Base64.symbol, if_pos (by omega),
      Nat.sub_add_cancel hLow, hBack]
  · have hLow : 97 ≤ c.toNat := hLower.1
    have hHigh : c.toNat ≤ 122 := hLower.2
    refine ⟨by omega, ?_⟩
    rw [symbol, if_neg (by omega), if_neg (by omega), Base64.symbol, if_neg (by omega),
      if_pos (by omega), Nat.sub_add_cancel (by omega), hBack]
  · have hLow : 48 ≤ c.toNat := hDigit.1
    have hHigh : c.toNat ≤ 57 := hDigit.2
    refine ⟨by omega, ?_⟩
    rw [symbol, if_neg (by omega), if_neg (by omega), Base64.symbol, if_neg (by omega),
      if_neg (by omega), if_pos (by omega), Nat.add_sub_cancel, hBack]
  · exact absurd (.inl hPlus) hOther
  · exact absurd (.inr hSlash) hOther

theorem value_eq_some {c : Char} {n : Nat} : value c = some n ↔ n < 64 ∧ c = symbol n :=
  ⟨fun h => ⟨(symbol_value h).1, (symbol_value h).2.symm⟩, fun h => h.2 ▸ value_symbol h.1⟩

theorem ofNat_toNat {n : Nat} (h : n < 256) : (UInt8.ofNat n).toNat = n := by
  simp [Nat.mod_eq_of_lt h]

/-- Decoding reads back what was encoded. -/
theorem decode_encode (bytes : List UInt8) : decode (encode bytes) = some bytes := by
  induction bytes using encode.induct with
  | case1 => rfl
  | case2 a =>
      have hA := Base64.toNat_lt a
      have hFirst : UInt8.ofNat (a.toNat / 4 * 4 + a.toNat % 4 * 16 / 16) = a :=
        Base64.ofNat_eq (by omega)
      have hSpare : a.toNat % 4 * 16 % 16 = 0 := by omega
      simp only [encode, decode, Option.bind_eq_bind, Option.bind_some, if_pos hSpare, hFirst,
        value_symbol (show a.toNat / 4 < 64 by omega),
        value_symbol (show a.toNat % 4 * 16 < 64 by omega)]
  | case3 a b =>
      have hA := Base64.toNat_lt a
      have hB := Base64.toNat_lt b
      have hFirst : UInt8.ofNat (a.toNat / 4 * 4 + (a.toNat % 4 * 16 + b.toNat / 16) / 16) = a :=
        Base64.ofNat_eq (by omega)
      have hSecond : UInt8.ofNat ((a.toNat % 4 * 16 + b.toNat / 16) % 16 * 16 +
          b.toNat % 16 * 4 / 4) = b := Base64.ofNat_eq (by omega)
      have hSpare : b.toNat % 16 * 4 % 4 = 0 := by omega
      simp only [encode, decode, Option.bind_eq_bind, Option.bind_some, if_pos hSpare, hFirst,
        hSecond, value_symbol (show a.toNat / 4 < 64 by omega),
        value_symbol (show a.toNat % 4 * 16 + b.toNat / 16 < 64 by omega),
        value_symbol (show b.toNat % 16 * 4 < 64 by omega)]
  | case4 a b c rest ih =>
      have hA := Base64.toNat_lt a
      have hB := Base64.toNat_lt b
      have hC := Base64.toNat_lt c
      have hFirst : UInt8.ofNat (a.toNat / 4 * 4 + (a.toNat % 4 * 16 + b.toNat / 16) / 16) = a :=
        Base64.ofNat_eq (by omega)
      have hSecond : UInt8.ofNat ((a.toNat % 4 * 16 + b.toNat / 16) % 16 * 16 +
          (b.toNat % 16 * 4 + c.toNat / 64) / 4) = b := Base64.ofNat_eq (by omega)
      have hThird : UInt8.ofNat ((b.toNat % 16 * 4 + c.toNat / 64) % 4 * 64 + c.toNat % 64) = c :=
        Base64.ofNat_eq (by omega)
      simp only [encode, decode, Option.bind_eq_bind, Option.bind_some, ih, hFirst, hSecond, hThird,
        Option.pure_def, value_symbol (show a.toNat / 4 < 64 by omega),
        value_symbol (show a.toNat % 4 * 16 + b.toNat / 16 < 64 by omega),
        value_symbol (show b.toNat % 16 * 4 + c.toNat / 64 < 64 by omega),
        value_symbol (show c.toNat % 64 < 64 by omega)]

/-- Only what was encoded is decoded. -/
theorem encode_decode {s : List Char} {bytes : List UInt8} (h : decode s = some bytes) :
    encode bytes = s := by
  induction s using decode.induct generalizing bytes with
  | case1 =>
      cases h
      rfl
  | case2 => cases h
  | case3 a b =>
      simp only [decode, Option.bind_eq_bind, Option.bind_eq_some_iff, value_eq_some] at h
      obtain ⟨x, ⟨hx, rfl⟩, y, ⟨hy, rfl⟩, h⟩ := h
      split_ifs at h with hSpare
      cases h
      have hByte := ofNat_toNat (show x * 4 + y / 16 < 256 by omega)
      have hOne : (x * 4 + y / 16) / 4 = x := by omega
      have hTwo : (x * 4 + y / 16) % 4 * 16 = y := by omega
      rw [encode, hByte, hOne, hTwo]
  | case4 a b c =>
      simp only [decode, Option.bind_eq_bind, Option.bind_eq_some_iff, value_eq_some] at h
      obtain ⟨x, ⟨hx, rfl⟩, y, ⟨hy, rfl⟩, z, ⟨hz, rfl⟩, h⟩ := h
      split_ifs at h with hSpare
      cases h
      have hFirst := ofNat_toNat (show x * 4 + y / 16 < 256 by omega)
      have hSecond := ofNat_toNat (show y % 16 * 16 + z / 4 < 256 by omega)
      have hOne : (x * 4 + y / 16) / 4 = x := by omega
      have hTwo : (x * 4 + y / 16) % 4 * 16 + (y % 16 * 16 + z / 4) / 16 = y := by omega
      have hThree : (y % 16 * 16 + z / 4) % 16 * 4 = z := by omega
      rw [encode, hFirst, hSecond, hOne, hTwo, hThree]
  | case5 a b c d rest ih =>
      simp only [decode, Option.bind_eq_bind, Option.bind_eq_some_iff, value_eq_some] at h
      obtain ⟨x, ⟨hx, rfl⟩, y, ⟨hy, rfl⟩, z, ⟨hz, rfl⟩, w, ⟨hw, rfl⟩, more, hMore, h⟩ := h
      cases h
      have hFirst := ofNat_toNat (show x * 4 + y / 16 < 256 by omega)
      have hSecond := ofNat_toNat (show y % 16 * 16 + z / 4 < 256 by omega)
      have hThird := ofNat_toNat (show z % 4 * 64 + w < 256 by omega)
      have hOne : (x * 4 + y / 16) / 4 = x := by omega
      have hTwo : (x * 4 + y / 16) % 4 * 16 + (y % 16 * 16 + z / 4) / 16 = y := by omega
      have hThree : (y % 16 * 16 + z / 4) % 16 * 4 + (z % 4 * 64 + w) / 64 = z := by omega
      have hFour : (z % 4 * 64 + w) % 64 = w := by omega
      simp only [encode, hFirst, hSecond, hThird, hOne, hTwo, hThree, hFour, ih hMore]

theorem decode_eq_some {s : List Char} {bytes : List UInt8} :
    decode s = some bytes ↔ s = encode bytes :=
  ⟨fun h => (encode_decode h).symm, fun h => h ▸ decode_encode bytes⟩

theorem symbol_plain {n : Nat} (h : n < 64) :
    (symbol n).isAlphanum = true ∨ symbol n = '-' ∨ symbol n = '_' := by
  interval_cases n <;> decide

/-- Letters, digits and the two symbols. -/
theorem mem_encode (bytes : List UInt8) :
    ∀ c ∈ encode bytes, c.isAlphanum = true ∨ c = '-' ∨ c = '_' := by
  induction bytes using encode.induct with
  | case1 => exact fun c hc => absurd hc List.not_mem_nil
  | case2 a =>
      have hA := Base64.toNat_lt a
      simp only [encode, List.forall_mem_cons]
      exact ⟨symbol_plain (by omega), symbol_plain (by omega), by simp⟩
  | case3 a b =>
      have hA := Base64.toNat_lt a
      have hB := Base64.toNat_lt b
      simp only [encode, List.forall_mem_cons]
      exact ⟨symbol_plain (by omega), symbol_plain (by omega), symbol_plain (by omega), by simp⟩
  | case4 a b c rest ih =>
      have hA := Base64.toNat_lt a
      have hB := Base64.toNat_lt b
      have hC := Base64.toNat_lt c
      simp only [encode, List.forall_mem_cons]
      exact ⟨symbol_plain (by omega), symbol_plain (by omega), symbol_plain (by omega),
        symbol_plain (by omega), ih⟩

end Text.Base64Url
