import Gateway.Json.Value
import Gateway.Text.Utf8

/-! A strict reader of JSON documents: no comments, no trailing commas, no
control characters in strings, no unpaired surrogates, and a bound on nesting. -/
namespace Json

def isSpace (c : Char) : Bool := c = ' ' || c = '\n' || c = '\t' || c = '\r'

def skipSpace (s : Str) : Str := s.dropWhile isSpace

def hexValue (c : Char) : Option Nat :=
  if '0' ≤ c ∧ c ≤ '9' then some (c.toNat - 48)
  else if 'a' ≤ c ∧ c ≤ 'f' then some (c.toNat - 87)
  else if 'A' ≤ c ∧ c ≤ 'F' then some (c.toNat - 55)
  else none

def hexFour (a b c d : Char) : Option Nat := do
  return (((← hexValue a) * 16 + (← hexValue b)) * 16 + (← hexValue c)) * 16 + (← hexValue d)

def shortEscape (c : Char) : Option Char :=
  if c = '\x22' ∨ c = '\\' ∨ c = '/' then some c
  else if c = 'b' then some '\x08'
  else if c = 'f' then some '\x0c'
  else if c = 'n' then some '\n'
  else if c = 'r' then some '\r'
  else if c = 't' then some '\t'
  else none

/-- A string after its opening quote, with what follows its closing one. A
surrogate stands only as half of a pair. -/
def readString : Str → Option (Str × Str)
  | [] => none
  | '\x22' :: rest => some ([], rest)
  | '\\' :: 'u' :: a :: b :: c :: d :: rest =>
      match hexFour a b c d with
      | none => none
      | some high =>
          if 0xDC00 ≤ high ∧ high ≤ 0xDFFF then none
          else if 0xD800 ≤ high ∧ high ≤ 0xDBFF then
            match rest with
            | '\\' :: 'u' :: e :: f :: g :: h :: more =>
                match hexFour e f g h with
                | none => none
                | some low =>
                    if 0xDC00 ≤ low ∧ low ≤ 0xDFFF then
                      (readString more).map fun (s, after) =>
                        (Char.ofNat (0x10000 + (high - 0xD800) * 0x400 + (low - 0xDC00)) :: s,
                          after)
                    else none
            | _ => none
          else (readString rest).map fun (s, after) => (Char.ofNat high :: s, after)
  | '\\' :: e :: rest =>
      match shortEscape e with
      | none => none
      | some c => (readString rest).map fun (s, after) => (c :: s, after)
  | c :: rest =>
      if c.toNat < 0x20 then none
      else (readString rest).map fun (s, after) => (c :: s, after)

def digitsValue (ds : Str) : Nat := ds.foldl (fun n c => n * 10 + (c.toNat - 48)) 0

def takeDigits (s : Str) : Str × Str := s.span Char.isDigit

/-- The exponent part, when there is one. -/
def readExponent (s : Str) : Option (Int × Str) :=
  match s with
  | e :: rest =>
      if e = 'e' ∨ e = 'E' then
        let (negative, rest) :=
          match rest with
          | '+' :: r => (false, r)
          | '-' :: r => (true, r)
          | r => (false, r)
        match takeDigits rest with
        | ([], _) => none
        | (ds, after) =>
            some (if negative then -(digitsValue ds : Int) else digitsValue ds, after)
      else some (0, s)
  | [] => some (0, s)

/-- Past the largest double. -/
def outOfRange (mantissa : Nat) (exponent : Int) : Bool :=
  let places : Int := (Nat.toDigits 10 mantissa).length + exponent
  let limit := 2 ^ 1024 - 2 ^ 970
  if mantissa = 0 then false
  else if places < 309 then false
  else if 309 < places then true
  else if 0 ≤ exponent then limit ≤ mantissa * 10 ^ exponent.toNat
  else limit * 10 ^ (-exponent).toNat ≤ mantissa

/-- A number after its sign: no leading zeros; an integer that fits its 64-bit
type stays one, and a negative zero is a float. -/
def readNumber (negative : Bool) (s : Str) : Option (Number × Str) :=
  match takeDigits s with
  | ([], _) => none
  | (ds, rest) =>
      if ds.head? = some '0' ∧ 1 < ds.length then none
      else
        let fraction : Option (Str × Str) :=
          match rest with
          | '.' :: r =>
              match takeDigits r with
              | ([], _) => none
              | (fs, after) => some (fs, after)
          | r => some ([], r)
        match fraction with
        | none => none
        | some (fs, afterFraction) =>
            match readExponent afterFraction with
            | none => none
            | some (e, after) =>
                let plain := after.length = rest.length
                let n := digitsValue ds
                if plain ∧ negative = false ∧ n < 2 ^ 64 then some (.posInt n, after)
                else if plain ∧ negative ∧ 0 < n ∧ n ≤ 2 ^ 63 then some (.negInt n, after)
                else
                  let mantissa := digitsValue (ds ++ fs)
                  let exponent := e - fs.length
                  if outOfRange mantissa exponent then none
                  else some (.float negative mantissa exponent, after)

mutual
def readValue : Nat → Nat → Str → Option (Value × Str)
  | 0, _, _ => none
  | fuel + 1, depth, s =>
      match skipSpace s with
      | 'n' :: 'u' :: 'l' :: 'l' :: rest => some (.null, rest)
      | 't' :: 'r' :: 'u' :: 'e' :: rest => some (.bool true, rest)
      | 'f' :: 'a' :: 'l' :: 's' :: 'e' :: rest => some (.bool false, rest)
      | '\x22' :: rest => (readString rest).map fun (t, after) => (.string t, after)
      | '-' :: rest => (readNumber true rest).map fun (n, after) => (.number n, after)
      | '[' :: rest =>
          if depth = 0 then none
          else match skipSpace rest with
            | ']' :: after => some (.array [], after)
            | _ => (readItems fuel (depth - 1) rest).map fun (vs, after) => (.array vs, after)
      | '{' :: rest =>
          if depth = 0 then none
          else match skipSpace rest with
            | '}' :: after => some (.object [], after)
            | _ => (readFields fuel (depth - 1) [] rest).map fun (fs, after) => (.object fs, after)
      | t => (readNumber false t).map fun (n, after) => (.number n, after)

/-- Items after an opening bracket or a comma. -/
def readItems : Nat → Nat → Str → Option (List Value × Str)
  | 0, _, _ => none
  | fuel + 1, depth, s =>
      match readValue fuel depth s with
      | none => none
      | some (v, rest) =>
          match skipSpace rest with
          | ',' :: more => (readItems fuel depth more).map fun (vs, after) => (v :: vs, after)
          | ']' :: after => some ([v], after)
          | _ => none

/-- Members after an opening brace or a comma; a repeated name takes its last
value. -/
def readFields : Nat → Nat → List (Str × Value) → Str → Option (List (Str × Value) × Str)
  | 0, _, _, _ => none
  | fuel + 1, depth, fields, s =>
      match skipSpace s with
      | '\x22' :: rest =>
          match readString rest with
          | none => none
          | some (key, rest) =>
              match skipSpace rest with
              | ':' :: rest =>
                  match readValue fuel depth rest with
                  | none => none
                  | some (v, rest) =>
                      match skipSpace rest with
                      | ',' :: more => readFields fuel depth (insertField key v fields) more
                      | '}' :: after => some (insertField key v fields, after)
                      | _ => none
              | _ => none
      | _ => none
end

/-- Containers may nest this deep. -/
def maxDepth : Nat := 127

/-- A whole document. Every step of the reader but the last takes a character,
so the fuel is never short. -/
def fromStr (s : Str) : Option Value :=
  match readValue (2 * s.length + 2) maxDepth s with
  | some (v, rest) => if skipSpace rest = [] then some v else none
  | none => none

def fromSlice (bytes : List UInt8) : Option Value := (Text.fromUtf8 bytes).bind fromStr

end Json
