import Gateway.Json.Kept
import Gateway.Redact.Lines

/-! What redaction leaves as it is: a body without anything to redact, the lines of
a stream, and documents as documents. -/
namespace Gateway.Redact

open Json Text

/-! ### Nothing to redact -/

section

variable (redactor : Redactor)

mutual
/-- The redactor changes no string, name or card number of the value. -/
def Clean : Value → Prop
  | .string s => redactor s = s
  | .number n => cardShaped n = true → redactor n.text = n.text
  | .array items => ItemsClean items
  | .object fields => FieldsClean fields
  | .null | .bool _ => True

def ItemsClean : List Value → Prop
  | [] => True
  | v :: vs => Clean v ∧ ItemsClean vs

def FieldsClean : List (Str × Value) → Prop
  | [] => True
  | (key, v) :: fs => redactor key = key ∧ Clean v ∧ FieldsClean fs
end

mutual
theorem redactValue_unchanged {v : Value} (h : Clean redactor v) : (redactValue redactor v).2 = false := by
  cases v with
  | null => rfl
  | bool b => rfl
  | number n =>
      rw [redactValue]
      by_cases hCard : cardShaped n = true
      · rw [Clean] at h
        rw [if_pos hCard, h hCard, if_neg (not_not.mpr rfl)]
      · rw [if_neg hCard]
  | string s =>
      rw [Clean] at h
      rw [redactValue, h, if_neg (not_not.mpr rfl)]
  | array items =>
      rw [Clean] at h
      rw [redactValue]
      exact redactItems_unchanged h
  | object fields =>
      rw [Clean] at h
      rw [redactValue]
      exact redactFields_unchanged [] h

theorem redactItems_unchanged {items : List Value} (h : ItemsClean redactor items) :
    (redactItems redactor items).2 = false := by
  cases items with
  | nil => rw [redactItems]
  | cons v vs =>
      rw [ItemsClean] at h
      rw [redactItems]
      show ((redactValue redactor v).2 || (redactItems redactor vs).2) = false
      rw [redactValue_unchanged h.1, redactItems_unchanged h.2]
      rfl

theorem redactFields_unchanged {fields : List (Str × Value)} (start : List (Str × Value))
    (h : FieldsClean redactor fields) : (redactFields redactor start fields).2 = false := by
  cases fields with
  | nil => rw [redactFields]
  | cons f fs =>
      obtain ⟨key, v⟩ := f
      rw [FieldsClean] at h
      rw [redactFields]
      show ((redactValue redactor v).2 || decide (redactor key ≠ key) ||
        (redactFields redactor (insertField (redactor key) (redactValue redactor v).1 start) fs).2) =
          false
      rw [redactValue_unchanged h.2.1, redactFields_unchanged _ h.2.2, h.1]
      simp
end

/-- The text is a JSON object or array. -/
def IsDocument (text : Str) : Prop := ∃ v, fromStr text = some v ∧ isContainer v = true

/-- A document that holds nothing to redact, and no name twice. -/
def CleanDocument (text : Str) : Prop :=
  ∃ v, fromStr text = some v ∧ isContainer v = true ∧ Clean redactor v ∧
    (writtenStr text).any uniqueKeys = true

/-- What stands on a line between its prefix and its end. -/
def CleanRest (rest : Str) : Prop :=
  (IsDocument (rest.dropWhile Wire.isWhitespace) →
    CleanDocument redactor (rest.dropWhile Wire.isWhitespace)) ∧
  (¬IsDocument (rest.dropWhile Wire.isWhitespace) → redactor rest = rest)

/-- A body of one document, or of lines, that holds nothing to redact. -/
def CleanBody (text : Str) : Prop :=
  (IsDocument text → CleanDocument redactor text) ∧
  (¬IsDocument text → ∀ line ∈ text.splitOn '\n', CleanRest redactor (lineParts line).2.1)

end

section

variable {redactor : Redactor}

theorem redactDocument_eq_none_iff {text : Str} :
    redactDocument redactor text = none ↔ ¬IsDocument text := by
  unfold redactDocument IsDocument
  cases fromStr text with
  | none => simp
  | some v =>
      dsimp only
      split_ifs <;> simp_all

theorem CleanDocument.redactDocument {text : Str} (h : CleanDocument redactor text) :
    redactDocument redactor text = some none := by
  obtain ⟨v, hParse, hContainer, hClean, hUnique⟩ := h
  have hSame := redactValue_unchanged redactor hClean
  rw [Redact.redactDocument, hParse]
  dsimp only
  rw [if_pos hContainer, if_pos (by rw [hSame, hUnique]; rfl)]

theorem CleanRest.redactRest {rest : Str} (h : CleanRest redactor rest) :
    redactRest redactor rest = rest := by
  unfold Redact.redactRest
  by_cases hDocument : IsDocument (rest.dropWhile Wire.isWhitespace)
  · rw [(h.1 hDocument).redactDocument]
  · rw [redactDocument_eq_none_iff.mpr hDocument]
    exact h.2 hDocument

/-- A body with nothing to redact is given back byte for byte. -/
theorem redactBody_clean {text : Str} (h : CleanBody redactor text) :
    redactBody redactor (toUtf8 text) = toUtf8 text := by
  by_cases hDocument : IsDocument text
  · have hJson : redactJson redactor (toUtf8 text) = some none := by
      rw [redactJson, fromUtf8_toUtf8, Option.bind_some, (h.1 hDocument).redactDocument]
      rfl
    rw [redactBody, hJson]
    rfl
  · have hSame : (text.splitOn '\n').map (redactLine redactor) = text.splitOn '\n' := by
      refine (List.map_congr_left fun line hLine => ?_).trans (List.map_id _)
      refine redactLine_of_not_changed ?_
      have hRest := (h.2 hDocument line hLine).redactRest
      rw [lineChanged]
      simpa using hRest
    rw [redactBody_lines (redactDocument_eq_none_iff.mpr hDocument), hSame, joinLines,
      List.intercalate_splitOn]

/-! ### Documents -/

mutual
theorem kept_redactValue {depth : Nat} {v : Value} (h : v.Kept depth) :
    (redactValue redactor v).1.Kept depth := by
  cases v with
  | null => trivial
  | bool b => trivial
  | number n =>
      rw [redactValue]
      dsimp only
      split_ifs
      · trivial
      · exact h
      · exact h
  | string s =>
      rw [redactValue]
      split_ifs <;> trivial
  | array items =>
      rw [redactValue]
      exact ⟨h.1, kept_redactItems h.2⟩
  | object fields =>
      rw [redactValue]
      obtain ⟨hOrder, hKept⟩ :=
        @kept_redactFields (depth - 1) [] fields List.Pairwise.nil trivial h.2.2
      exact ⟨h.1, hOrder, hKept⟩

theorem kept_redactItems {depth : Nat} {items : List Value} (h : ItemsKept depth items) :
    ItemsKept depth (redactItems redactor items).1 := by
  cases items with
  | nil =>
      rw [redactItems]
      trivial
  | cons v vs =>
      rw [redactItems]
      exact ⟨kept_redactValue h.1, kept_redactItems h.2⟩

theorem kept_redactFields {depth : Nat} {start fields : List (Str × Value)} (hOrder : InOrder start)
    (hStart : FieldsKept depth start) (h : FieldsKept depth fields) :
    InOrder (redactFields redactor start fields).1 ∧
      FieldsKept depth (redactFields redactor start fields).1 := by
  cases fields with
  | nil =>
      rw [redactFields]
      exact ⟨hOrder, hStart⟩
  | cons f fs =>
      obtain ⟨key, v⟩ := f
      rw [redactFields]
      exact kept_redactFields (hOrder.insertField _ _)
        (hStart.insertField (kept_redactValue h.1) _) h.2
end

theorem isContainer_redactValue (v : Value) :
    isContainer (redactValue redactor v).1 = isContainer v := by
  cases v with
  | null => rfl
  | bool b => rfl
  | number n =>
      rw [redactValue]
      dsimp only
      split_ifs <;> rfl
  | string s =>
      rw [redactValue]
      split_ifs <;> rfl
  | array items =>
      rw [redactValue]
      rfl
  | object fields =>
      rw [redactValue]
      rfl

theorem isDocument_render {v : Value} (h : v.Kept maxDepth) (hContainer : isContainer v = true) :
    IsDocument v.render := by
  refine ⟨v.reread, fromStr_render h.readable, ?_⟩
  cases v with
  | array items => rfl
  | object fields => rfl
  | null => cases hContainer
  | bool b => cases hContainer
  | number n => cases hContainer
  | string s => cases hContainer

/-- What a document is redacted to is one, and is the text of a value. -/
theorem redactDocument_eq_some {text out : Str} (h : redactDocument redactor text = some (some out)) :
    IsDocument out ∧ ∃ v, isContainer v = true ∧ out = v.render := by
  unfold redactDocument at h
  cases hParse : fromStr text with
  | none =>
      rw [hParse] at h
      cases h
  | some v =>
      rw [hParse] at h
      dsimp only at h
      split_ifs at h with hContainer hSame
      · cases h
      obtain rfl := Option.some.inj (Option.some.inj h)
      have hKept : (redactValue redactor v).1.Kept maxDepth := kept_redactValue (kept_of_fromStr hParse)
      have hStill : isContainer (redactValue redactor v).1 = true := by
        rw [isContainer_redactValue, hContainer]
      exact ⟨isDocument_render hKept hStill, _, hStill, rfl⟩

end

/-! ### The text of a document -/

theorem newline_notMem_escape (s : Str) : '\n' ∉ escape s := by
  intro hMem
  obtain ⟨c, -, hc⟩ := List.mem_flatMap.mp hMem
  by_cases hPlain : Plain c
  · rw [escapeChar_of_plain hPlain] at hc
    obtain rfl := List.mem_singleton.mp hc
    exact absurd hPlain.2.2 (by decide)
  · have hHex : ∀ n < 16, '\n' ≠ hexDigit n := by decide
    unfold escapeChar at hc
    split_ifs at hc with hQuote hSlash _ _ _ _ _ hControl
    all_goals simp only [List.mem_cons, List.not_mem_nil, or_false] at hc
    · simp at hc
    · simp at hc
    · simp at hc
    · simp at hc
    · simp at hc
    · simp at hc
    · simp at hc
    · rcases hc with hc | hc | hc | hc | hc | hc
      · simp at hc
      · simp at hc
      · simp at hc
      · simp at hc
      · exact hHex _ (by omega) hc
      · exact hHex _ (by omega) hc
    · exact hPlain ⟨hQuote, hSlash, Nat.not_lt.mp hControl⟩

theorem newline_notMem_render (v : Value) : '\n' ∉ v.render := by
  intro hMem
  have hInString : InString ['\n'] := ⟨by decide, '\n', List.mem_cons_self, by decide⟩
  obtain ⟨a, b, hText⟩ := List.append_of_mem hMem
  obtain ⟨s, -, hEscape⟩ := (infix_render_iff hInString v).mp ⟨a, b, by rw [hText]; simp⟩
  exact newline_notMem_escape s (hEscape.subset List.mem_cons_self)

/-- A document stands between brackets. -/
theorem render_container {v : Value} (h : isContainer v = true) :
    ∃ first body last, v.render = first :: (body ++ [last]) ∧ first ∈ "\x7b[".toList ∧
      last ∈ "\x7d]".toList := by
  cases v with
  | null => cases h
  | bool b => cases h
  | number n => cases h
  | string s => cases h
  | array items =>
      cases items with
      | nil => exact ⟨'[', [], ']', rfl, by decide, by decide⟩
      | cons v vs =>
          refine ⟨'[', (v.tokens ++ itemTokens vs).flatMap Token.text, ']', ?_, by decide, by decide⟩
          simp [Value.render, Value.tokens, Token.text]
  | object fields =>
      cases fields with
      | nil => exact ⟨'{', [], '}', rfl, by decide, by decide⟩
      | cons f fs =>
          obtain ⟨k, v⟩ := f
          refine ⟨'{', (Token.str k :: Token.punct [':'] :: (v.tokens ++ fieldTokens fs)).flatMap
            Token.text, '}', ?_, by decide, by decide⟩
          simp [Value.render, Value.tokens, Token.text]

/-! ### Lines -/

/-- What may be put in the place of what stands on a line. -/
structure Replaces (rest out : Str) : Prop where
  oneLine : '\n' ∉ out
  ends : out.getLast? = some '\r' → rest.getLast? = some '\r'
  begins : "data:".toList <+: out → "data:".toList <+: rest
  document : IsDocument (rest.dropWhile Wire.isWhitespace) →
    IsDocument (out.dropWhile Wire.isWhitespace)

theorem replaces_redact (U : Unicode) {rest : Str} (h : '\n' ∉ rest)
    (hText : ¬IsDocument (rest.dropWhile Wire.isWhitespace)) : Replaces rest (redact U rest) where
  oneLine := redact_oneLine h
  ends := redact_induction (P := fun s t => t.getLast? = some '\r' → s.getLast? = some '\r')
    (fun _ h => h) (fun _ _ _ hFirst hSecond h => hFirst (hSecond h))
    (fun _ _ hMarked => hMarked.getLast (by decide)) rest
  begins := redact_induction (P := fun s t => "data:".toList <+: t → "data:".toList <+: s)
    (fun _ h => h) (fun _ _ _ hFirst hSecond h => hFirst (hSecond h))
    (fun _ _ hMarked => hMarked.beginning (by decide)) rest
  document hDocument := absurd hDocument hText

theorem replaces_render {rest : Str} (h : '\n' ∉ rest) {v : Value} (hContainer : isContainer v = true)
    (hDocument : IsDocument v.render) :
    Replaces rest (rest.takeWhile Wire.isWhitespace ++ v.render) := by
  obtain ⟨first, body, last, hRender, hFirst, hLast⟩ := render_container hContainer
  have hSpace : ∀ c ∈ rest.takeWhile Wire.isWhitespace, Wire.isWhitespace c = true :=
    fun c hc => List.mem_takeWhile_imp hc
  have hMark : Wire.isWhitespace first = false := by
    have hNone : "\x7b[".toList.all (fun c => !Wire.isWhitespace c) = true := by decide
    simpa using List.all_eq_true.mp hNone first hFirst
  constructor
  · intro hMem
    rcases List.mem_append.mp hMem with hMem | hMem
    · exact h ((List.takeWhile_prefix _).subset hMem)
    · exact newline_notMem_render v hMem
  · intro hEnd
    rw [hRender, ← List.cons_append, ← List.append_assoc, List.getLast?_concat] at hEnd
    rw [Option.some.inj hEnd] at hLast
    exact absurd hLast (by decide)
  · intro hBegin
    rw [hRender] at hBegin
    cases hLead : rest.takeWhile Wire.isWhitespace with
    | nil =>
        rw [hLead] at hBegin
        obtain ⟨hChar, -⟩ := List.cons_prefix_cons.mp hBegin
        rw [← hChar] at hFirst
        exact absurd hFirst (by decide)
    | cons c cs =>
        rw [hLead] at hBegin
        obtain ⟨hChar, -⟩ := List.cons_prefix_cons.mp hBegin
        have hWhite := hSpace c (by rw [hLead]; exact List.mem_cons_self)
        rw [← hChar] at hWhite
        exact absurd hWhite (by decide)
  · intro _
    rwa [List.dropWhile_append_of_pos hSpace, hRender, List.dropWhile_cons_of_neg (by simp [hMark]),
      ← hRender]

theorem replaces_redactRest (U : Unicode) {rest : Str} (h : '\n' ∉ rest) :
    Replaces rest (redactRest (redact U) rest) := by
  unfold redactRest
  cases hDocument : redactDocument (redact U) (rest.dropWhile Wire.isWhitespace) with
  | none => exact replaces_redact U h (redactDocument_eq_none_iff.mp hDocument)
  | some redacted =>
      cases redacted with
      | none => exact ⟨h, id, id, id⟩
      | some json =>
          obtain ⟨hJson, v, hContainer, rfl⟩ := redactDocument_eq_some hDocument
          exact replaces_render h hContainer hJson

/-- A line is made of its parts. -/
theorem lineParts_eq {lead rest carriage : Str}
    (hEnd : carriage = ['\r'] ∨ carriage = [] ∧ (lead ++ rest).getLast? ≠ some '\r')
    (hLead : lead = "data:".toList ∨ lead = [] ∧ ¬ "data:".toList <+: rest) :
    lineParts (lead ++ (rest ++ carriage)) = (lead, rest, carriage) := by
  unfold lineParts
  rcases hEnd with rfl | ⟨rfl, hNone⟩
  · rw [(stripSuffix_text.1 (lead ++ rest)).mpr (List.append_assoc _ _ _).symm]
    dsimp only
    rcases hLead with rfl | ⟨rfl, hOther⟩
    · rw [(stripPrefix_text.1 rest).mpr rfl]
    · rw [List.nil_append, stripPrefix_text.2.mpr hOther]
  · rw [List.append_nil, stripSuffix_text.2.mpr hNone]
    dsimp only
    rcases hLead with rfl | ⟨rfl, hOther⟩
    · rw [(stripPrefix_text.1 rest).mpr rfl]
    · rw [List.nil_append, stripPrefix_text.2.mpr hOther]

/-- Two lines with the same prefix and the same end, where a document on the one is
one on the other. -/
structure SameFraming (line out : Str) : Prop where
  lead : (lineParts out).1 = (lineParts line).1
  carriage : (lineParts out).2.2 = (lineParts line).2.2
  document : IsDocument ((lineParts line).2.1.dropWhile Wire.isWhitespace) →
    IsDocument ((lineParts out).2.1.dropWhile Wire.isWhitespace)

theorem sameFraming_redactLine (U : Unicode) {line : Str} (h : '\n' ∉ line) :
    SameFraming line (redactLine (redact U) line) ∧ '\n' ∉ redactLine (redact U) line := by
  obtain ⟨lead, rest, carriage, hParts, hLine, hEnd, hLead⟩ := lineParts_spec line
  have hRest : '\n' ∉ rest := fun hMem => h (by rw [hLine]; simp [hMem])
  obtain ⟨hOneLine, hEnds, hBegins, hDocument⟩ := replaces_redactRest U hRest
  have hOut : redactLine (redact U) line = lead ++ (redactRest (redact U) rest ++ carriage) := by
    rw [redactLine, hParts]
  have hEndOut : carriage = ['\r'] ∨
      carriage = [] ∧ (lead ++ redactRest (redact U) rest).getLast? ≠ some '\r' := by
    refine hEnd.imp_right fun hBare => ⟨hBare.1, fun hReturn => hBare.2 ?_⟩
    rw [hLine, hBare.1, List.append_nil, List.getLast?_append]
    rw [List.getLast?_append] at hReturn
    cases hTail : (redactRest (redact U) rest).getLast? with
    | some c =>
        rw [hTail, Option.some_or] at hReturn
        rw [hEnds (hTail.trans hReturn), Option.some_or]
    | none =>
        rw [hTail, Option.none_or] at hReturn
        rcases hLead with rfl | ⟨rfl, -⟩ <;> cases hReturn
  have hPartsOut : lineParts (redactLine (redact U) line) =
      (lead, redactRest (redact U) rest, carriage) := by
    rw [hOut]
    exact lineParts_eq hEndOut (hLead.imp_right fun hBare =>
      ⟨hBare.1, fun hBegin => hBare.2 (hBegins hBegin)⟩)
  refine ⟨⟨?_, ?_, ?_⟩, ?_⟩
  · rw [hPartsOut, hParts]
  · rw [hPartsOut, hParts]
  · rw [hPartsOut, hParts]
    exact hDocument
  · rw [hOut]
    intro hMem
    rcases List.mem_append.mp hMem with hMem | hMem
    · exact h (by rw [hLine]; simp [hMem])
    · rcases List.mem_append.mp hMem with hMem | hMem
      · exact hOneLine hMem
      · exact h (by rw [hLine]; simp [hMem])

/-! ### Bodies -/

/-- Of a text, a body with nothing to redact is given back as it is. Else a document
stays one, and a stream keeps its lines, with their prefixes, their ends and their
documents. -/
theorem framing_kept (U : Unicode) (text : Str) :
    (CleanBody (redact U) text → redactBody (redact U) (toUtf8 text) = toUtf8 text) ∧
    ∃ out, redactBody (redact U) (toUtf8 text) = toUtf8 out ∧
      (IsDocument text → IsDocument out) ∧
      (¬IsDocument text →
        out.splitOn '\n' = (text.splitOn '\n').map (redactLine (redact U)) ∧
        ∀ line ∈ text.splitOn '\n', SameFraming line (redactLine (redact U) line)) := by
  refine ⟨redactBody_clean, ?_⟩
  cases hDocument : redactDocument (redact U) text with
  | none =>
      have hOther := redactDocument_eq_none_iff.mp hDocument
      refine ⟨_, redactBody_lines hDocument, fun h => absurd h hOther, fun _ => ⟨?_, ?_⟩⟩
      · refine List.splitOn_intercalate '\n' ?_ ?_
        · intro out hOut
          obtain ⟨line, hLine, rfl⟩ := List.mem_map.mp hOut
          exact (sameFraming_redactLine U (newline_notMem_splitOn line hLine)).2
        · simp
      · exact fun line hLine => (sameFraming_redactLine U (newline_notMem_splitOn line hLine)).1
  | some redacted =>
      have hText : IsDocument text := by
        by_contra hOther
        rw [redactDocument_eq_none_iff.mpr hOther] at hDocument
        cases hDocument
      have hJson : redactJson (redact U) (toUtf8 text) = some (redacted.map toUtf8) := by
        rw [redactJson, fromUtf8_toUtf8, Option.bind_some, hDocument]
        rfl
      rw [redactBody, hJson]
      cases redacted with
      | none => exact ⟨text, rfl, id, fun h => absurd hText h⟩
      | some out =>
          exact ⟨out, rfl, fun _ => (redactDocument_eq_some hDocument).1, fun h => absurd hText h⟩

end Gateway.Redact
