import Gateway.Text.Regex
import Gateway.Wire.Common

/-! The shapes by which personal data is recognised. -/
namespace Gateway.Redact

open Json Text

/-- What a pattern takes for the character of a word and for a digit. On ASCII
both are as usual; elsewhere they follow the tables of Unicode. -/
structure Unicode where
  word : Char → Bool
  digit : Char → Bool
  word_ascii : ∀ c : Char, c.toNat < 128 → word c = (c.isAlphanum || c == '_')
  digit_ascii : ∀ c : Char, c.toNat < 128 → digit c = c.isDigit

/-- The tables cut down to ASCII. -/
def Unicode.ascii : Unicode where
  word c := c.isAlphanum || c == '_'
  digit := Char.isDigit
  word_ascii _ _ := rfl
  digit_ascii _ _ := rfl

open Regex in
section

/-- A character of a class, or one more of those listed. -/
def oneOf (inClass : Char → Bool) (more : String) : Regex :=
  one fun c => inClass c || more.toList.contains c

def exactly (s : String) : Regex := literal s.toList

variable (U : Unicode)

def digit : Regex := one U.digit

def space : Regex := one Wire.isWhitespace

/-- `-----BEGIN [A-Z ]*PRIVATE KEY-----[\s\S]*?-----END [A-Z ]*PRIVATE KEY-----` -/
def privateKey : Pattern where
  regex := Regex.all [exactly "-----BEGIN ", star true (oneOf Char.isUpper " "),
    exactly "PRIVATE KEY-----", star false (one fun _ => true), exactly "-----END ",
    star true (oneOf Char.isUpper " "), exactly "PRIVATE KEY-----"]

/-- `\b(?:sk-[A-Za-z0-9_-]{16,}|sk-ant-[A-Za-z0-9_-]{16,}|yb_[A-Za-z0-9_-]{16,}|`
`gh[pousr]_[A-Za-z0-9]{20,}|xox[abpors]-[A-Za-z0-9-]{10,}|AKIA[0-9A-Z]{16}|`
`AIza[0-9A-Za-z_-]{35})\b` -/
def apiKey : Pattern where
  regex := Regex.all [boundary,
    choice [
      seq (exactly "sk-") (atLeast 16 (oneOf Char.isAlphanum "_-")),
      seq (exactly "sk-ant-") (atLeast 16 (oneOf Char.isAlphanum "_-")),
      seq (exactly "yb_") (atLeast 16 (oneOf Char.isAlphanum "_-")),
      Regex.all [exactly "gh", oneOf (fun _ => false) "pousr", exactly "_",
        atLeast 20 (oneOf Char.isAlphanum "")],
      Regex.all [exactly "xox", oneOf (fun _ => false) "abpors", exactly "-",
        atLeast 10 (oneOf Char.isAlphanum "-")],
      seq (exactly "AKIA") (times 16 (one fun c => c.isDigit || c.isUpper)),
      seq (exactly "AIza") (times 35 (oneOf Char.isAlphanum "_-"))],
    boundary]

/-- `\beyJ[A-Za-z0-9_-]{8,}\.[A-Za-z0-9_-]{8,}\.[A-Za-z0-9_-]{8,}\b` -/
def webToken : Pattern where
  regex := Regex.all [boundary, exactly "eyJ", atLeast 8 (oneOf Char.isAlphanum "_-"), exactly ".",
    atLeast 8 (oneOf Char.isAlphanum "_-"), exactly ".", atLeast 8 (oneOf Char.isAlphanum "_-"),
    boundary]

/-- `(?i)\bbearer\s+`, sixteen or more of the letters, digits and `._~+-` or a
slash, and `=*`. Letters are in either case, and so the long s and the Kelvin
sign, which fold to one, are of the class too. -/
def bearer : Pattern where
  regex := Regex.all [boundary,
    Regex.all ("bearer".toList.map fun l => one fun c => c == l || c == l.toUpper),
    plus space, atLeast 16 (oneOf Char.isAlphanum "/._~+-\u017F\u212A"), star true (exactly "=")]

/-- `\b[A-Za-z0-9._%+-]+@[A-Za-z0-9.-]+\.[A-Za-z]{2,}\b` -/
def email : Pattern where
  regex := Regex.all [boundary, plus (oneOf Char.isAlphanum "._%+-"), exactly "@",
    plus (oneOf Char.isAlphanum ".-"), exactly ".", atLeast 2 (one Char.isAlpha), boundary]

/-- `\b\d{3}-\d{2}-\d{4}\b` -/
def socialSecurity : Pattern where
  regex := Regex.all [boundary, times 3 (digit U), exactly "-", times 2 (digit U), exactly "-",
    times 4 (digit U), boundary]

/-- `\b\d+(?:[ -]\d+)*\b` -/
def digitRuns : Pattern where
  regex := Regex.all [boundary, plus (digit U),
    star true (seq (oneOf (fun _ => false) " -") (plus (digit U))), boundary]

/-- `\b[A-CEGHJ-PR-TW-Z]{2}\s?\d{2}\s?\d{2}\s?\d{2}\s?[A-D]\b` -/
def nationalInsurance : Pattern where
  regex := Regex.all [boundary,
    times 2 (oneOf (fun _ => false) "ABCEGHJKLMNOPRSTWXYZ"), optional space, times 2 (digit U),
    optional space, times 2 (digit U), optional space, times 2 (digit U), optional space,
    oneOf (fun _ => false) "ABCD", boundary]

/-- `(?:\+\d{1,3}[ .-]?)?(?:\(\d{2,4}\)[ .-]?|\b\d{2,4}[ .-])\d{3,4}[ .-]\d{3,4}\b` -/
def phone : Pattern where
  regex := Regex.all [
    optional (Regex.all [exactly "+", between 1 3 (digit U),
      optional (oneOf (fun _ => false) " .-")]),
    alt
      (Regex.all [exactly "(", between 2 4 (digit U), exactly ")",
        optional (oneOf (fun _ => false) " .-")])
      (Regex.all [boundary, between 2 4 (digit U), oneOf (fun _ => false) " .-"]),
    between 3 4 (digit U), oneOf (fun _ => false) " .-", between 3 4 (digit U), boundary]

end

end Gateway.Redact
