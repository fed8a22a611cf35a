import Gateway.Json.Written
import Gateway.Json.Render
import Gateway.Redact.Redactor

/-! Redacting a captured body. -/
namespace Gateway.Redact

open Json Text

section

variable (redactor : Redactor)

/-- A whole number of 13 to 19 digits whose first is a card network's. -/
def cardShaped (number : Number) : Bool :=
  let text := number.text
  let digits := (Wire.stripPrefix ['-'] text).getD text
  (13 ≤ digits.length && digits.length ≤ 19) && digits.all Char.isDigit &&
    digits.head?.any fun c => '2' ≤ c && c ≤ '6'

mutual
/-- The value redacted, and whether anything in it was. -/
def redactValue : Value → Value × Bool
  | .string text =>
      let redacted := redactor text
      if redacted ≠ text then (.string redacted, true) else (.string text, false)
  | .number number =>
      if cardShaped number then
        let redacted := redactor number.text
        if redacted ≠ number.text then (.string redacted, true) else (.number number, false)
      else (.number number, false)
  | .array items =>
      let (redacted, changed) := redactItems items
      (.array redacted, changed)
  | .object fields =>
      let (redacted, changed) := redactFields [] fields
      (.object redacted, changed)
  | .null => (.null, false)
  | .bool b => (.bool b, false)

def redactItems : List Value → List Value × Bool
  | [] => ([], false)
  | item :: items =>
      let (redacted, changed) := redactValue item
      let (rest, more) := redactItems items
      (redacted :: rest, changed || more)

/-- A name that comes to stand twice takes its last value. -/
def redactFields (redacted : List (Str × Value)) :
    List (Str × Value) → List (Str × Value) × Bool
  | [] => (redacted, false)
  | (key, field) :: fields =>
      let (field, changed) := redactValue field
      let (rest, more) := redactFields (insertField (redactor key) field redacted) fields
      (rest, changed || redactor key ≠ key || more)
end

mutual
/-- Parses only when no object gives a key twice. -/
def uniqueKeys : Value → Bool
  | .array items => uniqueItems items
  | .object fields => uniqueFields [] fields
  | _ => true

def uniqueItems : List Value → Bool
  | [] => true
  | item :: items => uniqueKeys item && uniqueItems items

def uniqueFields (seen : List Str) : List (Str × Value) → Bool
  | [] => true
  | (key, field) :: fields =>
      !seen.contains key && uniqueKeys field && uniqueFields (key :: seen) fields
end

def isContainer : Value → Bool
  | .object _ | .array _ => true
  | _ => false

/-- `none` when the text is not a JSON object or array, `some none` when it is
and holds nothing to redact. A key given twice parses to its last value only,
so such a document is written back. -/
def redactDocument (text : Str) : Option (Option Str) :=
  match fromStr text with
  | none => none
  | some value =>
      if isContainer value then
        let duplicated := !(writtenStr text).any uniqueKeys
        let (redacted, changed) := redactValue redactor value
        if !changed && !duplicated then some none else some (some redacted.render)
      else none

def redactJson (body : List UInt8) : Option (Option (List UInt8)) :=
  (fromUtf8 body).bind fun text => (redactDocument redactor text).map (Option.map toUtf8)

/-- A line's prefix and carriage return, and what stands between them. -/
def lineParts (line : Str) : Str × Str × Str :=
  let (line, carriage) :=
    match Wire.stripSuffix ['\r'] line with
    | some line => (line, ['\r'])
    | none => (line, [])
  match Wire.stripPrefix "data:".toList line with
  | some rest => ("data:".toList, rest, carriage)
  | none => ([], line, carriage)

def redactRest (rest : Str) : Str :=
  match redactDocument redactor (rest.dropWhile Wire.isWhitespace) with
  | some (some json) => rest.takeWhile Wire.isWhitespace ++ json
  | some none => rest
  | none => redactor rest

def redactLine (line : Str) : Str :=
  let (lead, rest, carriage) := lineParts line
  lead ++ (redactRest redactor rest ++ carriage)

def lineChanged (line : Str) : Bool :=
  let (_, rest, _) := lineParts line
  redactRest redactor rest ≠ rest

def joinLines (lines : List Str) : Str := ['\n'].intercalate lines

/-- A captured body with its personal data taken out, or the body as it came
when there was none. A body that is not text is not kept. -/
def redactBody (body : List UInt8) : List UInt8 :=
  match redactJson redactor body with
  | some redacted => redacted.getD body
  | none =>
      match fromUtf8 body with
      | none => []
      | some text =>
          let lines := text.splitOn '\n'
          if lines.any (lineChanged redactor) then
            toUtf8 (joinLines (lines.map (redactLine redactor)))
          else body

end

/-! ### Lines -/

theorem stripPrefix_text {lead s : Str} :
    (∀ rest, Wire.stripPrefix lead s = some rest ↔ s = lead ++ rest) ∧
      (Wire.stripPrefix lead s = none ↔ ¬ lead <+: s) := by
  unfold Wire.stripPrefix
  constructor
  · intro rest
    split_ifs with h
    · obtain ⟨t, rfl⟩ := List.isPrefixOf_iff_prefix.mp h
      simp
    · simp only [reduceCtorEq, false_iff]
      rintro rfl
      exact h (List.isPrefixOf_iff_prefix.mpr (List.prefix_append _ _))
  · rw [← List.isPrefixOf_iff_prefix]
    split_ifs with h <;> simp [h]

theorem stripSuffix_text {c : Char} {s : Str} :
    (∀ rest, Wire.stripSuffix [c] s = some rest ↔ s = rest ++ [c]) ∧
      (Wire.stripSuffix [c] s = none ↔ s.getLast? ≠ some c) := by
  have hReverse := @stripPrefix_text [c] s.reverse
  unfold Wire.stripSuffix
  constructor
  · intro rest
    rw [List.reverse_singleton, Option.map_eq_some_iff]
    constructor
    · rintro ⟨t, ht, rfl⟩
      have := congrArg List.reverse ((hReverse.1 t).mp ht)
      simpa using this
    · rintro rfl
      exact ⟨rest.reverse, (hReverse.1 _).mpr (by simp), by simp⟩
  · rw [List.reverse_singleton, Option.map_eq_none_iff, hReverse.2, ← List.head?_reverse]
    cases s.reverse with
    | nil => simp
    | cons d t => simp [List.cons_prefix_cons, eq_comm]

/-- What a line is made of: a prefix, what stands between, and a carriage
return that ends it, where there is one. -/
theorem lineParts_spec (line : Str) : ∃ lead rest carriage, lineParts line = (lead, rest, carriage) ∧
    line = lead ++ (rest ++ carriage) ∧
    (carriage = ['\r'] ∨ carriage = [] ∧ line.getLast? ≠ some '\r') ∧
    (lead = "data:".toList ∨ lead = [] ∧ ¬ "data:".toList <+: rest) := by
  have hBody : ∀ body : Str, ∃ lead rest, body = lead ++ rest ∧
      (lead = "data:".toList ∨ lead = [] ∧ ¬ "data:".toList <+: rest) ∧
      ∀ carriage : Str, (match Wire.stripPrefix "data:".toList body with
        | some rest => ("data:".toList, rest, carriage)
        | none => ([], body, carriage)) = (lead, rest, carriage) := by
    intro body
    cases h : Wire.stripPrefix "data:".toList body with
    | some rest => exact ⟨_, rest, (stripPrefix_text.1 rest).mp h, .inl rfl, fun _ => rfl⟩
    | none => exact ⟨[], body, rfl, .inr ⟨rfl, stripPrefix_text.2.mp h⟩, fun _ => rfl⟩
  unfold lineParts
  cases h : Wire.stripSuffix ['\r'] line with
  | some body =>
      obtain ⟨lead, rest, rfl, hLead, hParts⟩ := hBody body
      exact ⟨lead, rest, ['\r'], hParts _, by simpa using (stripSuffix_text.1 _).mp h, .inl rfl,
        hLead⟩
  | none =>
      obtain ⟨lead, rest, rfl, hLead, hParts⟩ := hBody line
      exact ⟨lead, rest, [], hParts _, by simp, .inr ⟨rfl, stripSuffix_text.2.mp h⟩, hLead⟩

section

variable {redactor : Redactor}

theorem redactLine_of_not_changed {line : Str} (h : lineChanged redactor line = false) :
    redactLine redactor line = line := by
  obtain ⟨lead, rest, carriage, hParts, hLine, -⟩ := lineParts_spec line
  rw [lineChanged, hParts] at h
  have hSame : redactRest redactor rest = rest := by simpa using h
  rw [redactLine, hParts]
  dsimp only
  rw [hSame, ← hLine]

/-- A text that is not one document is redacted line by line. -/
theorem redactBody_lines {text : Str} (h : redactDocument redactor text = none) :
    redactBody redactor (toUtf8 text) =
      toUtf8 (joinLines ((text.splitOn '\n').map (redactLine redactor))) := by
  have hJson : redactJson redactor (toUtf8 text) = none := by
    rw [redactJson, fromUtf8_toUtf8, Option.bind_some, h]
    rfl
  rw [redactBody, hJson]
  dsimp only
  rw [fromUtf8_toUtf8]
  dsimp only
  split_ifs with hChanged
  · rfl
  · have hSame : (text.splitOn '\n').map (redactLine redactor) = text.splitOn '\n' := by
      refine (List.map_congr_left fun line hLine => ?_).trans (List.map_id _)
      have hLineChanged := fun hOne => hChanged (List.any_eq_true.mpr ⟨line, hLine, hOne⟩)
      exact redactLine_of_not_changed (Bool.not_eq_true _ ▸ hLineChanged)
    rw [hSame, joinLines, List.intercalate_splitOn]

end

end Gateway.Redact
