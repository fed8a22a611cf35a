import Mathlib.Data.List.Basic
import Mathlib.Data.UInt
import Mathlib.Tactic.IntervalCases

/-! Standard base64: four symbols for three bytes, the last group filled up with
`=` and without spare bits. -/
namespace Text.Base64

/-- The symbol of six bits. -/
def symbol (n : Nat) : Char :=
  if n < 26 then Char.ofNat (n + 65)
  else if n < 52 then Char.ofNat (n + 71)
  else if n < 62 then Char.ofNat (n - 4)
  else if n = 62 then '+'
  else '/'

/-- The six bits of a symbol. -/
def value (c : Char) : Option Nat :=
  if 'A' ≤ c ∧ c ≤ 'Z' then some (c.toNat - 65)
  else if 'a' ≤ c ∧ c ≤ 'z' then some (c.toNat - 71)
  else if '0' ≤ c ∧ c ≤ '9' then some (c.toNat + 4)
  else if c = '+' then some 62
  else if c = '/' then some 63
  else none

theorem value_symbol {n : Nat} (h : n < 64) : value (symbol n) = some n := by
  interval_cases n <;> decide

theorem value_pad : value '=' = none := by decide

def encode : List UInt8 → List Char
  | [] => []
  | [a] => [symbol (a.toNat / 4), symbol (a.toNat % 4 * 16), '=', '=']
  | [a, b] => [symbol (a.toNat / 4), symbol (a.toNat % 4 * 16 + b.toNat / 16),
      symbol (b.toNat % 16 * 4), '=']
  | a :: b :: c :: rest =>
      symbol (a.toNat / 4) :: symbol (a.toNat % 4 * 16 + b.toNat / 16) ::
        symbol (b.toNat % 16 * 4 + c.toNat / 64) :: symbol (c.toNat % 64) :: encode rest

/-- The bytes of a group; only the last one may be filled up. -/
def decodeGroup (last : Bool) (a b c d : Char) : Option (List UInt8) :=
  match value a, value b, value c, value d with
  | some a, some b, some c, some d =>
      some [UInt8.ofNat (a * 4 + b / 16), UInt8.ofNat (b % 16 * 16 + c / 4),
        UInt8.ofNat (c % 4 * 64 + d)]
  | some a, some b, some c, none =>
      if last && d = '=' && c % 4 = 0 then
        some [UInt8.ofNat (a * 4 + b / 16), UInt8.ofNat (b % 16 * 16 + c / 4)]
      else none
  | some a, some b, none, none =>
      if last && c = '=' && d = '=' && b % 16 = 0 then some [UInt8.ofNat (a * 4 + b / 16)]
      else none
  | _, _, _, _ => none

def decode : List Char → Option (List UInt8)
  | [] => some []
  | a :: b :: c :: d :: rest =>
      match decodeGroup rest.isEmpty a b c d, decode rest with
      | some front, some back => some (front ++ back)
      | _, _ => none
  | _ => none

theorem toNat_lt (b : UInt8) : b.toNat < 256 := b.toNat_lt_size

theorem ofNat_eq {n : Nat} {b : UInt8} (h : n = b.toNat) : UInt8.ofNat n = b := by
  rw [h, UInt8.ofNat_toNat]

/-- Decoding reads back what was encoded. -/
theorem decode_encode (bytes : List UInt8) : decode (encode bytes) = some bytes := by
  induction bytes using encode.induct with
  | case1 => rfl
  | case2 a =>
      have hA := toNat_lt a
      have hFirst : UInt8.ofNat (a.toNat / 4 * 4 + a.toNat % 4 * 16 / 16) = a := ofNat_eq (by omega)
      have hSpare : a.toNat % 4 * 16 % 16 = 0 := by omega
      simp only [encode, decode, decodeGroup, value_pad,
        value_symbol (show a.toNat / 4 < 64 by omega),
        value_symbol (show a.toNat % 4 * 16 < 64 by omega)]
      rw [if_pos (by simp [hSpare]), hFirst]
      rfl
  | case3 a b =>
      have hA := toNat_lt a
      have hB := toNat_lt b
      have hFirst : UInt8.ofNat (a.toNat / 4 * 4 + (a.toNat % 4 * 16 + b.toNat / 16) / 16) = a :=
        ofNat_eq (by omega)
      have hSecond : UInt8.ofNat ((a.toNat % 4 * 16 + b.toNat / 16) % 16 * 16 +
          b.toNat % 16 * 4 / 4) = b := ofNat_eq (by omega)
      have hSpare : b.toNat % 16 * 4 % 4 = 0 := by omega
      simp only [encode, decode, decodeGroup, value_pad,
        value_symbol (show a.toNat / 4 < 64 by omega),
        value_symbol (show a.toNat % 4 * 16 + b.toNat / 16 < 64 by omega),
        value_symbol (show b.toNat % 16 * 4 < 64 by omega)]
      rw [if_pos (by simp [hSpare]), hFirst, hSecond]
      rfl
  | case4 a b c rest ih =>
      have hA := toNat_lt a
      have hB := toNat_lt b
      have hC := toNat_lt c
      have hFirst : UInt8.ofNat (a.toNat / 4 * 4 + (a.toNat % 4 * 16 + b.toNat / 16) / 16) = a :=
        ofNat_eq (by omega)
      have hSecond : UInt8.ofNat ((a.toNat % 4 * 16 + b.toNat / 16) % 16 * 16 +
          (b.toNat % 16 * 4 + c.toNat / 64) / 4) = b := ofNat_eq (by omega)
      have hThird : UInt8.ofNat ((b.toNat % 16 * 4 + c.toNat / 64) % 4 * 64 + c.toNat % 64) = c :=
        ofNat_eq (by omega)
      simp only [encode, decode, decodeGroup, ih, value_symbol (show a.toNat / 4 < 64 by omega),
        value_symbol (show a.toNat % 4 * 16 + b.toNat / 16 < 64 by omega),
        value_symbol (show b.toNat % 16 * 4 + c.toNat / 64 < 64 by omega),
        value_symbol (show c.toNat % 64 < 64 by omega), hFirst, hSecond, hThird]
      rfl

/-- A text of whole groups of symbols is read to three bytes a group. -/
theorem decode_symbols (s : List Char) (hGroups : s.length % 4 = 0)
    (hSymbols : ∀ c ∈ s, (value c).isSome = true) :
    ∃ bytes, decode s = some bytes ∧ bytes.length = s.length / 4 * 3 := by
  match s with
  | [] => exact ⟨[], rfl, rfl⟩
  | [_] | [_, _] | [_, _, _] => simp at hGroups
  | a :: b :: c :: d :: rest =>
      obtain ⟨w, hA⟩ := Option.isSome_iff_exists.mp (hSymbols a (by simp))
      obtain ⟨x, hB⟩ := Option.isSome_iff_exists.mp (hSymbols b (by simp))
      obtain ⟨y, hC⟩ := Option.isSome_iff_exists.mp (hSymbols c (by simp))
      obtain ⟨z, hD⟩ := Option.isSome_iff_exists.mp (hSymbols d (by simp))
      have hFewer : rest.length % 4 = 0 := by
        simp only [List.length_cons] at hGroups
        omega
      obtain ⟨bytes, hRest, hLength⟩ := decode_symbols rest hFewer fun e he =>
        hSymbols e (by simp [he])
      refine ⟨_, by simp only [decode, decodeGroup, hA, hB, hC, hD, hRest]; rfl, ?_⟩
      simp only [List.length_append, List.length_cons, List.length_nil, hLength]
      omega

/-- Only symbols and `=` are written. -/
theorem mem_encode (bytes : List UInt8) :
    ∀ c ∈ encode bytes, (value c).isSome = true ∨ c = '=' := by
  have hSymbol : ∀ n < 64, (value (symbol n)).isSome = true := fun n h => by rw [value_symbol h]; rfl
  induction bytes using encode.induct with
  | case1 => simp [encode]
  | case2 a =>
      have hA := toNat_lt a
      simp [encode, hSymbol (a.toNat / 4) (by omega), hSymbol (a.toNat % 4 * 16) (by omega)]
  | case3 a b =>
      have hA := toNat_lt a
      have hB := toNat_lt b
      simp [encode, hSymbol (a.toNat / 4) (by omega),
        hSymbol (a.toNat % 4 * 16 + b.toNat / 16) (by omega),
        hSymbol (b.toNat % 16 * 4) (by omega)]
  | case4 a b c rest ih =>
      have hA := toNat_lt a
      have hB := toNat_lt b
      have hC := toNat_lt c
      intro d hd
      simp only [encode, List.mem_cons] at hd
      rcases hd with rfl | rfl | rfl | rfl | hd
      · exact .inl (hSymbol _ (by omega))
      · exact .inl (hSymbol _ (by omega))
      · exact .inl (hSymbol _ (by omega))
      · exact .inl (hSymbol _ (by omega))
      · exact ih d hd

end Text.Base64
