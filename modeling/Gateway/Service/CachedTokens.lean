import Gateway.Service.Record
import Mathlib.Tactic.Linarith

/-! What a turn of an Anthropic upstream is billed. Its input count leaves the
cached tokens out, and the price takes them off once more. -/
namespace Gateway.Service

open Json Wire

/-! ### Rounding -/

/-- An amount that rounds to `n` or more. -/
def RoundsTo (n : Int) (q : Rat) : Prop :=
  if 0 < n then (n : Rat) - 1 / 2 ≤ q else (n : Rat) - 1 / 2 < q

theorem le_roundHalfAway_iff (n : Int) (q : Rat) : n ≤ roundHalfAway q ↔ RoundsTo n q := by
  unfold roundHalfAway RoundsTo
  by_cases hSign : 0 ≤ q
  · rw [if_pos hSign, Int.le_floor]
    split_ifs with hPos
    · constructor <;> intro h <;> linarith
    · have hLeast : (n : Rat) ≤ 0 := by exact_mod_cast not_lt.mp hPos
      constructor <;> intro _ <;> linarith
  · rw [if_neg hSign, Int.le_ceil_iff]
    have hBelow := not_le.mp hSign
    split_ifs with hPos
    · have hLeast : (1 : Rat) ≤ n := by exact_mod_cast hPos
      constructor <;> intro h <;> linarith
    · constructor <;> intro h <;> linarith

theorem saturate_eq_iff (a b : Int) :
    saturate a = saturate b ↔ ∀ n, -(2 ^ 63) < n → n < 2 ^ 63 → (n ≤ a ↔ n ≤ b) := by
  unfold saturate
  constructor
  · intro hSame n hLow hHigh
    omega
  · intro hAll
    have hHere := hAll (max (-(2 ^ 63)) (min a (2 ^ 63 - 1)))
    have hThere := hAll (max (-(2 ^ 63)) (min b (2 ^ 63 - 1)))
    omega

/-- Two sums give one amount just if no amount is reached by one of them only. -/
theorem saturate_round_eq_iff (q r : Rat) :
    saturate (roundHalfAway q) = saturate (roundHalfAway r) ↔
      ∀ n, -(2 ^ 63) < n → n < 2 ^ 63 → (RoundsTo n q ↔ RoundsTo n r) := by
  simp only [saturate_eq_iff, le_roundHalfAway_iff]

/-! ### The sum of a turn -/

/-- A count of a usage object. -/
def usageCount (v : Value) (key : String) : Nat := ((v.get key).bind Value.asU64).getD 0

/-- Fresh and cached input and output, each at its price. -/
def turnSum (p : ModelPrice) (input cacheRead cacheWrite output : Nat) : Rat :=
  input * p.inputPer1m + cacheRead * p.inputPer1m * p.cacheReadMultiplier +
    cacheWrite * p.inputPer1m * p.cacheWriteMultiplier + output * p.outputPer1m

/-- The recorded amount falls short by the price of as much fresh input as there
is cached. -/
theorem costMicros_eq (p : ModelPrice) (input cacheRead cacheWrite output : Nat) :
    p.costMicros input output cacheRead cacheWrite =
      saturate (roundHalfAway (turnSum p input cacheRead cacheWrite output -
        (min input (cacheRead + cacheWrite) : Nat) * p.inputPer1m)) := by
  have hBillable : ((max ((input : Int) - cacheRead - cacheWrite) 0 : Int) : Rat) =
      input - (min input (cacheRead + cacheWrite) : Nat) := by
    have hWhole : max ((input : Int) - cacheRead - cacheWrite) 0 =
        input - (min input (cacheRead + cacheWrite) : Nat) := by
      omega
    rw [hWhole]
    push_cast
    rfl
  unfold ModelPrice.costMicros turnSum
  dsimp only
  rw [hBillable]
  congr 2
  push_cast
  ring

/-- The amount recorded for a turn is that of its fresh, cached and generated
tokens just if the shortfall, and what is lost of counts over 32 bits, crosses no
rounding boundary. -/
theorem anthropic_cost_iff (rctx : RecordCtx) (turn : Turn) (v : Value) :
    let p := rctx.price
    let count := usageCount v
    let read (key : String) := usageCount v key % 2 ^ 32
    (rctx.telemetry { turn with usage := Anthropic.parseUsage (some v) }).costMicros =
        saturate (roundHalfAway (turnSum p (count "input_tokens") (count "cache_read_input_tokens")
          (count "cache_creation_input_tokens") (count "output_tokens"))) ↔
      ∀ n, -(2 ^ 63) < n → n < 2 ^ 63 →
        (RoundsTo n (turnSum p (read "input_tokens") (read "cache_read_input_tokens")
            (read "cache_creation_input_tokens") (read "output_tokens") -
            (min (read "input_tokens")
              (read "cache_read_input_tokens" + read "cache_creation_input_tokens") : Nat) *
              p.inputPer1m) ↔
          RoundsTo n (turnSum p (count "input_tokens") (count "cache_read_input_tokens")
            (count "cache_creation_input_tokens") (count "output_tokens"))) := by
  intro p count read
  have hRead (key : String) : (optU32 v key).getD 0 = read key := by
    unfold optU32
    simp only [read, usageCount]
    cases (v.get key).bind Value.asU64 <;> rfl
  have hCost : (rctx.telemetry { turn with usage := Anthropic.parseUsage (some v) }).costMicros =
      p.costMicros (read "input_tokens") (read "output_tokens") (read "cache_read_input_tokens")
        (read "cache_creation_input_tokens") := by
    simp only [← hRead]
    rfl
  rw [hCost, costMicros_eq, saturate_round_eq_iff]

/-- A hundred fresh tokens beside a thousand from the cache go unbilled. -/
theorem fresh_input_unbilled :
    let p : ModelPrice := { inputPer1m := 3, outputPer1m := 15, cacheReadMultiplier := 1 / 10 }
    let rctx : RecordCtx := { deployment := { modelId := [], providerId := [], pricing := some p } }
    let v := obj [("input_tokens", .nat 100), ("cache_read_input_tokens", .nat 1000)]
    (rctx.telemetry ⟨Anthropic.parseUsage (some v), 200, false, none, 0⟩).costMicros = 300 ∧
      saturate (roundHalfAway (turnSum p 100 1000 0 0)) = 600 := by
  decide +kernel

end Gateway.Service
