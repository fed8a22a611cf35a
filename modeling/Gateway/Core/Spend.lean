import Gateway.Json.Value
import Gateway.Text.Occurs
import Mathlib.Algebra.Order.Field.Rat
import Mathlib.Algebra.Order.Floor.Defs
import Mathlib.Data.Rat.Floor

/-! What a turn costs, and the rows it leaves in the store. Prices and sums that
the source keeps in floating point are rationals. -/
namespace Gateway

open Json

abbrev Id := Str

/-- An instant in nanoseconds. -/
abbrev Timestamp := Int

/-- Millionths of a dollar. -/
abbrev Micros := Int

/-! ### Prices -/

/-- Dollars for a million tokens; the cache multipliers scale the input price. -/
structure ModelPrice where
  inputPer1m : Rat
  outputPer1m : Rat
  cacheReadMultiplier : Rat := 1
  cacheWriteMultiplier : Rat := 1
  deriving DecidableEq

/-- To the nearest integer, halves away from zero. -/
def roundHalfAway (q : Rat) : Int := if 0 ≤ q then ⌊q + 1 / 2⌋ else ⌈q - 1 / 2⌉

/-- As a signed 64-bit integer, at its ends where the value does not fit. -/
def saturate (n : Int) : Int := max (-(2 ^ 63)) (min n (2 ^ 63 - 1))

def ModelPrice.costMicros (p : ModelPrice) (input output cacheRead cacheWrite : Int) : Micros :=
  let billable : Rat := (max (input - cacheRead - cacheWrite) 0 : Int)
  saturate (roundHalfAway (billable * p.inputPer1m +
    cacheRead * p.inputPer1m * p.cacheReadMultiplier +
    cacheWrite * p.inputPer1m * p.cacheWriteMultiplier + output * p.outputPer1m))

/-- The families of the built-in table, the first that occurs in a name counts. -/
def builtinPrices : List (List String × Rat × Rat) :=
  [(["gpt-4o-mini"], 15 / 100, 60 / 100), (["gpt-4o"], 250 / 100, 10),
    (["gpt-4.1-mini"], 40 / 100, 160 / 100), (["gpt-4.1"], 2, 8),
    (["o3-mini"], 110 / 100, 440 / 100), (["claude-3-5-haiku", "claude-haiku"], 80 / 100, 4),
    (["claude-3-5-sonnet", "claude-sonnet"], 3, 15), (["claude-opus", "claude-3-opus"], 15, 75),
    (["gemini-1.5-flash", "gemini-2.0-flash"], 75 / 1000, 30 / 100),
    (["gemini-1.5-pro", "gemini-2.5-pro"], 125 / 100, 5)]

def asciiLower (s : Str) : Str := s.map Char.toLower

def builtinPrice (model : Str) : Option ModelPrice :=
  (builtinPrices.find? fun row => row.1.any fun family => family.toList <:+: asciiLower model).map
    fun row => { inputPer1m := row.2.1, outputPer1m := row.2.2 }

/-! ### Rows -/

inductive SubjectType where
  | key
  | user
  | team
  deriving DecidableEq

/-- Midnight of the day of an instant. -/
def dayStart (now : Timestamp) : Timestamp := now - now % 86400000000000

/-- A row of a finished turn. -/
structure TelemetryRecord where
  requestId : Str
  apiKeyId : Option Id
  userId : Option Id
  teamId : Option Id
  surface : Str
  requestedModel : Str
  decisionModel : Str
  decisionProvider : Str
  inputTokens : Int := 0
  outputTokens : Int := 0
  cacheReadTokens : Int := 0
  cacheWriteTokens : Int := 0
  costMicros : Micros := 0
  status : Int
  isError : Bool
  createdAt : Timestamp
  deriving DecidableEq

/-- What a turn adds to the spend of a subject on a day. -/
structure RollupDelta where
  subjectType : SubjectType
  subjectId : Id
  periodStart : Timestamp
  spendMicros : Micros
  requestCount : Int
  inputTokens : Int
  outputTokens : Int
  deriving DecidableEq

end Gateway
