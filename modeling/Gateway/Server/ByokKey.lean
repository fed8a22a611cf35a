import Gateway.Text.Base64
import Gateway.Wire.Common

/-! The key that stored secrets are encrypted with, from its setting. The base64
reader is a parameter. -/
namespace Gateway.Server

open Json Text

inductive Encryptor where
  | aesGcm (key : List UInt8)
  /-- Secrets are stored in the clear. -/
  | noop
  deriving DecidableEq

def nibble (c : Char) : Option Nat :=
  if '0' ≤ c ∧ c ≤ '9' then some (c.toNat - 48)
  else if 'a' ≤ c ∧ c ≤ 'f' then some (c.toNat - 87)
  else if 'A' ≤ c ∧ c ≤ 'F' then some (c.toNat - 55)
  else none

/-- Pairs of digits. No byte of a character beyond ASCII is a digit. -/
def decodePairs : Str → Option (List UInt8)
  | [] => some []
  | [_] => none
  | high :: low :: rest =>
      match nibble high, nibble low, decodePairs rest with
      | some high, some low, some bytes => some (UInt8.ofNat (high * 16 + low) :: bytes)
      | _, _, _ => none

def decodeHex (s : Str) : Option (List UInt8) := if s = [] then none else decodePairs s

section

variable (base64 : Str → Option (List UInt8))

/-- As base64, then as hexadecimal. -/
def decodeKey (s : Str) : Option (List UInt8) :=
  let s := (Wire.trimEnd s).dropWhile Wire.isWhitespace
  (base64 s).or (decodeHex s)

def buildEncryptor (key : Option Str) : Encryptor :=
  match key with
  | none => .noop
  | some raw =>
      if raw = [] then .noop
      else match decodeKey base64 raw with
        | some bytes => if bytes.length = 32 then .aesGcm bytes else .noop
        | none => .noop

end

theorem symbol_of_nibble {c : Char} {n : Nat} (h : nibble c = some n) :
    (Base64.value c).isSome = true := by
  unfold nibble at h
  unfold Base64.value
  split_ifs at h with hDigit hLower hUpper
  · split_ifs <;> rfl
  · have hLetter : 'a' ≤ c ∧ c ≤ 'z' := ⟨hLower.1, Char.le_trans hLower.2 (by decide)⟩
    split_ifs <;> rfl
  · have hLetter : 'A' ≤ c ∧ c ≤ 'Z' := ⟨hUpper.1, Char.le_trans hUpper.2 (by decide)⟩
    rw [if_pos hLetter]
    rfl

/-- Two digits a byte, each of them a base64 symbol. -/
theorem decodePairs_eq_some {s : Str} {bytes : List UInt8} (h : decodePairs s = some bytes) :
    s.length = 2 * bytes.length ∧ ∀ c ∈ s, (Base64.value c).isSome = true := by
  match s with
  | [] =>
      cases h
      exact ⟨rfl, by simp⟩
  | [c] => cases h
  | high :: low :: rest =>
      unfold decodePairs at h
      split at h
      · next hHigh hLow hRest =>
          cases h
          obtain ⟨hLength, hSymbols⟩ := decodePairs_eq_some hRest
          refine ⟨by simp only [List.length_cons, hLength]; omega, ?_⟩
          intro c hc
          rcases List.mem_cons.mp hc with rfl | hc
          · exact symbol_of_nibble hHigh
          · rcases List.mem_cons.mp hc with rfl | hc
            · exact symbol_of_nibble hLow
            · exact hSymbols c hc
      · cases h

theorem le_toNat {a c : Char} (h : a ≤ c) : a.toNat ≤ c.toNat := h

theorem not_whitespace {c : Char} (h : (Base64.value c).isSome = true ∨ c = '=') :
    Wire.isWhitespace c = false := by
  have hRange : (65 ≤ c.toNat ∧ c.toNat ≤ 122) ∨ (43 ≤ c.toNat ∧ c.toNat ≤ 61) := by
    rcases h with h | rfl
    · unfold Base64.value at h
      split_ifs at h with hUpper hLower hDigit hPlus hSlash
      · have hFirst := le_toNat hUpper.1
        have hLast := le_toNat hUpper.2
        simp at hFirst hLast
        omega
      · have hFirst := le_toNat hLower.1
        have hLast := le_toNat hLower.2
        simp at hFirst hLast
        omega
      · have hFirst := le_toNat hDigit.1
        have hLast := le_toNat hDigit.2
        simp at hFirst hLast
        omega
      · rw [hPlus]
        decide
      · rw [hSlash]
        decide
      · cases h
    · decide
  simp only [Wire.isWhitespace, Bool.or_eq_false_iff, Bool.and_eq_false_iff, decide_eq_false_iff_not,
    beq_eq_false_iff_ne]
  omega

theorem trim_eq_self {s : Str} (h : ∀ c ∈ s, (Base64.value c).isSome = true ∨ c = '=') :
    (Wire.trimEnd s).dropWhile Wire.isWhitespace = s := by
  have hEnd : Wire.trimEnd s = s := by
    unfold Wire.trimEnd
    rw [List.rdropWhile_eq_self_iff]
    intro hSome
    rw [not_whitespace (h _ (List.getLast_mem hSome))]
    exact Bool.false_ne_true
  rw [hEnd]
  cases s with
  | nil => rfl
  | cons c rest => rw [List.dropWhile_cons_of_neg]; simp [not_whitespace (h c List.mem_cons_self)]

section

variable {base64 : Str → Option (List UInt8)} {encode64 : List UInt8 → Str}

theorem decodeKey_of_symbols {s : Str} (h : ∀ c ∈ s, (Base64.value c).isSome = true ∨ c = '=') :
    decodeKey base64 s = (base64 s).or (decodeHex s) := by
  unfold decodeKey
  rw [trim_eq_self h]

/-- The base64 spelling of a key is read as the key. The hexadecimal one, in
letters of either case, is base64 for another value of 48 bytes: the key is not
read, and secrets are stored in the clear. -/
theorem hex_key_unread (hRead : ∀ bytes, base64 (encode64 bytes) = some bytes)
    (hWritten : ∀ bytes, ∀ c ∈ encode64 bytes, (Base64.value c).isSome = true ∨ c = '=')
    (hGroups : ∀ s : Str, s.length % 4 = 0 → (∀ c ∈ s, (Base64.value c).isSome = true) →
      ∃ bytes, base64 s = some bytes ∧ bytes.length = s.length / 4 * 3)
    {key : List UInt8} (hLength : key.length = 32) {hex : Str} (hHex : decodeHex hex = some key) :
    decodeKey base64 (encode64 key) = some key ∧
      buildEncryptor base64 (some (encode64 key)) = .aesGcm key ∧
      decodeKey base64 hex ≠ some key ∧ buildEncryptor base64 (some hex) = .noop := by
  have hSpelt : decodeKey base64 (encode64 key) = some key := by
    rw [decodeKey_of_symbols (hWritten key), hRead]
    rfl
  have hSome : encode64 key ≠ [] := by
    intro hNil
    have hSame := (hRead key).symm.trans ((congrArg base64 (hNil.trans rfl)))
    obtain ⟨bytes, hBytes, hNone⟩ := hGroups [] rfl (by simp)
    rw [hBytes] at hSame
    rw [Option.some.inj hSame, hNone] at hLength
    cases hLength
  have hPairs : hex ≠ [] ∧ decodePairs hex = some key := by
    unfold decodeHex at hHex
    split_ifs at hHex with hNil
    exact ⟨hNil, hHex⟩
  obtain ⟨hDigits, hSymbols⟩ := decodePairs_eq_some hPairs.2
  rw [hLength] at hDigits
  obtain ⟨other, hOther, hMany⟩ := hGroups hex (by omega) hSymbols
  have hKey : decodeKey base64 hex = some other := by
    rw [decodeKey_of_symbols fun c hc => .inl (hSymbols c hc), hOther]
    rfl
  have hLonger : other.length = 48 := by omega
  refine ⟨hSpelt, ?_, ?_, ?_⟩
  · simp [buildEncryptor, hSome, hSpelt, hLength]
  · intro hSame
    rw [hKey] at hSame
    rw [Option.some.inj hSame, hLength] at hLonger
    cases hLonger
  · simp [buildEncryptor, hPairs.1, hKey, hLonger]

end

def zeros : Str := List.replicate 64 '0'

/-- The key of the example configuration. -/
theorem zero_key_unread :
    decodeKey Base64.decode (Base64.encode (List.replicate 32 0)) = some (List.replicate 32 0) ∧
      buildEncryptor Base64.decode (some (Base64.encode (List.replicate 32 0))) =
        .aesGcm (List.replicate 32 0) ∧
      decodeKey Base64.decode zeros ≠ some (List.replicate 32 0) ∧
      buildEncryptor Base64.decode (some zeros) = .noop :=
  hex_key_unread Base64.decode_encode Base64.mem_encode Base64.decode_symbols (by decide)
    (by decide)

/-- Secrets are stored in the clear under the example key. -/
theorem zero_key_in_clear :
    decodeHex zeros = some (List.replicate 32 0) ∧
      (decodeKey Base64.decode zeros).map List.length = some 48 ∧
      buildEncryptor Base64.decode (some zeros) = .noop := by
  decide +kernel

end Gateway.Server
