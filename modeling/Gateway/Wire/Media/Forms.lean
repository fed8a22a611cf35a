import Gateway.Wire.Media.Sections

/-! Multipart forms as they are written, field by field, and what the gateway reads
of them and forwards. -/
namespace Gateway.Wire.Media

open Json Text

/-! ### Cutting and trimming -/

section

variable {s l piece : Str} {c : Char}

theorem pieces_one (h : ';' ∉ s) : ∀ x ∈ s, (decide (x = ';')) = false := by
  rintro x hx
  simp only [decide_eq_false_iff_not]
  rintro rfl
  exact h hx

/-- The pieces of a text that has one more character. -/
theorem mem_pieces_concat (hc : c ≠ ';') (h : piece ∈ (s ++ [c]).splitOnP (· = ';')) :
    piece ∈ (s.splitOnP (· = ';')).dropLast ∨ ∃ l, piece = l ++ [c] ∧ l ⊆ s := by
  induction hLength : s.length using Nat.strong_induction_on generalizing s with
  | _ n ih =>
      by_cases hMem : ';' ∈ s
      · obtain ⟨a, t, rfl, hNot⟩ := List.eq_append_cons_of_mem hMem
        have hText : a ++ ';' :: t ++ [c] = a ++ ';' :: (t ++ [c]) := by simp
        rw [hText, List.splitOnP_append_cons_of_forall_mem (pieces_one hNot) ';' (by simp)] at h
        rw [List.splitOnP_append_cons_of_forall_mem (pieces_one hNot) ';' (by simp),
          List.dropLast_cons_of_ne_nil (List.splitOnP_ne_nil _ _)]
        rcases List.mem_cons.mp h with rfl | h
        · exact .inl List.mem_cons_self
        · rcases ih t.length (by simp at hLength; omega) h rfl with hInner | ⟨l, rfl, hl⟩
          · exact .inl (List.mem_cons_of_mem _ hInner)
          · exact .inr ⟨l, rfl, fun x hx => by simp [hl hx]⟩
      · have hNot : ';' ∉ s ++ [c] := by simp [hMem, Ne.symm hc]
        rw [List.splitOnP_eq_singleton (pieces_one hNot)] at h
        exact .inr ⟨s, List.mem_singleton.mp h, fun _ hx => hx⟩

theorem subset_of_mem_pieces (h : piece ∈ s.splitOnP (· = ';')) : piece ⊆ s := by
  induction hLength : s.length using Nat.strong_induction_on generalizing s with
  | _ n ih =>
      by_cases hMem : ';' ∈ s
      · obtain ⟨a, t, rfl, hNot⟩ := List.eq_append_cons_of_mem hMem
        rw [List.splitOnP_append_cons_of_forall_mem (pieces_one hNot) ';' (by simp)] at h
        rcases List.mem_cons.mp h with rfl | h
        · exact List.subset_append_left _ _
        · have hRest := ih t.length (by simp at hLength; omega) h rfl
          exact fun x hx => by simp [hRest hx]
      · rw [List.splitOnP_eq_singleton (pieces_one hMem)] at h
        rw [List.mem_singleton.mp h]
        exact fun x hx => hx

/-- White space is all that is trimmed. -/
theorem count_trim (h : isWhitespace c = false) (s : Str) : (trim s).count c = s.count c := by
  have hBlank : ∀ t : Str, (∀ x ∈ t, isWhitespace x = true) → t.count c = 0 := by
    intro t ht
    rw [List.count_eq_zero]
    intro hc
    rw [ht c hc] at h
    cases h
  have hFront : ∀ t : Str, (t.dropWhile isWhitespace).count c = t.count c := by
    intro t
    conv_rhs => rw [← List.takeWhile_append_dropWhile (p := isWhitespace) (l := t)]
    rw [List.count_append, hBlank _ fun x hx => List.mem_takeWhile_imp hx, Nat.zero_add]
  have hBack : ∀ t : Str, (t.rdropWhile isWhitespace).count c = t.count c := by
    intro t
    rw [List.rdropWhile, List.count_reverse, hFront, List.count_reverse]
  rw [trim, trimEnd, hFront, hBack]

/-- Blanks before a text that has none at its ends. -/
theorem trim_blanks (hl : ∀ x ∈ l, isWhitespace x = true) (hSome : s ≠ [])
    (hFirst : isWhitespace (s.head hSome) = false) (hLast : isWhitespace (s.getLast hSome) = false) :
    trim (l ++ s) = s := by
  have hEnd : trimEnd (l ++ s) = l ++ s := by
    rw [trimEnd, List.rdropWhile_eq_self_iff]
    intro hNe
    rw [List.getLast_append_of_ne_nil _ hSome, hLast]
    decide
  rw [trim, hEnd, List.dropWhile_append_of_pos hl]
  cases s with
  | nil => exact absurd rfl hSome
  | cons x s => exact List.dropWhile_cons_of_neg (by simpa using hFirst)

end

/-! ### Fields -/

/-- A parameter of a content disposition: a token, or a quoted text. -/
structure Param where
  blanks : Str := [' ']
  key : Str
  value : Str
  quoted : Bool := true

def Param.text (p : Param) : Str :=
  p.blanks ++ (p.key ++ '=' ::
    (if p.quoted then '\x22' :: (p.value ++ ['\x22']) else p.value))

/-- A field or a file, with the lines around its content disposition. -/
structure FormField where
  lead : List Str := []
  label : Str := "Content-Disposition".toList
  params : List Param
  trail : List Str := []
  content : List UInt8

namespace FormField

def disposition (f : FormField) : Str :=
  f.label ++ (": form-data".toList ++ f.params.flatMap fun p => ';' :: p.text)

def lines (f : FormField) : List Str := f.lead ++ f.disposition :: f.trail

def headers (f : FormField) : Str := f.lines.flatMap fun line => '\r' :: '\n' :: line

def toSection (f : FormField) : Section := ⟨toUtf8 f.headers, f.content⟩

def Named (f : FormField) (name : Str) : Prop :=
  ∃ p ∈ f.params, p.key = "name".toList ∧ p.value = name

end FormField

/-- A form is what stands between its opening and what follows its last delimiter. -/
structure Form where
  preamble : List UInt8 := []
  fields : List FormField
  epilogue : List UInt8 := crlf

def Form.bytes (boundary : Str) (form : Form) : List UInt8 :=
  form.preamble ++ sectionsBody (delimiter boundary) (form.fields.map FormField.toSection)
    (toUtf8 "--".toList ++ form.epilogue)

/-! ### Well-formed forms -/

def IsToken (s : Str) : Prop := ∀ c ∈ s, isWhitespace c = false ∧ c ≠ ';' ∧ c ≠ '=' ∧ c ≠ '\x22'

instance (s : Str) : Decidable (IsToken s) := List.decidableBAll _ s

structure Param.WellFormed (p : Param) : Prop where
  blanks : ∀ c ∈ p.blanks, c = ' ' ∨ c = '\t'
  key : IsToken p.key
  token : p.quoted = false → IsToken p.value
  quote : '\x22' ∉ p.value
  oneLine : '\r' ∉ p.value ∧ '\n' ∉ p.value

/-- A line of a header that is not a content disposition. -/
structure OtherLine (line : Str) : Prop where
  some : line ≠ []
  oneLine : '\r' ∉ line ∧ '\n' ∉ line
  other : "content-disposition".toList.isPrefixOf (toAsciiLowercase line) = false

structure FormField.WellFormed (d : List UInt8) (f : FormField) : Prop where
  others : ∀ line ∈ f.lead ++ f.trail, OtherLine line
  label : toAsciiLowercase f.label = "content-disposition".toList
  params : ∀ p ∈ f.params, p.WellFormed
  headers : ¬ d <:+: toUtf8 f.headers
  content : ¬ d <:+: f.content

structure Form.WellFormed (boundary : Str) (form : Form) : Prop where
  oneLine : '\r' ∉ boundary
  preamble : Opening (delimiter boundary) form.preamble
  fields : ∀ f ∈ form.fields, f.WellFormed (delimiter boundary)

/-- No quoted text has a piece between semicolons that is taken for the parameter
`name=model`. -/
def FormField.Unbroken (f : FormField) : Prop :=
  ∀ p ∈ f.params, p.quoted = true → ∀ piece ∈ (p.value.splitOnP (· = ';')).tail.dropLast,
    trim piece ≠ wantedBare "model".toList

/-! ### Lines -/

theorem linesOfPieces_cons {s t : Str} {pieces : List Str} :
    linesOfPieces (s :: t :: pieces) =
      (stripSuffix ['\r'] s).getD s :: linesOfPieces (t :: pieces) := rfl

/-- Lines behind their ends are read as they are. -/
theorem textLines_flatMap {lines : List Str}
    (h : ∀ line ∈ lines, line ≠ [] ∧ '\r' ∉ line ∧ '\n' ∉ line) {first : Str}
    (hFirst : '\n' ∉ first) (hNe : lines ≠ [] ∨ first ≠ []) :
    textLines (first ++ lines.flatMap fun line => '\r' :: '\n' :: line) = first :: lines := by
  induction lines generalizing first with
  | nil =>
      have hSome : first ≠ [] := hNe.resolve_left (by simp)
      rw [List.flatMap_nil, List.append_nil, textLines, List.splitOnP_eq_singleton]
      · rw [linesOfPieces, if_neg hSome]
      · intro c hc
        simp only [decide_eq_false_iff_not]
        rintro rfl
        exact hFirst hc
  | cons line rest ih =>
      obtain ⟨⟨hSome, -, hLine⟩, hRest⟩ := List.forall_mem_cons.mp h
      have hText : first ++ (line :: rest).flatMap (fun line => '\r' :: '\n' :: line) =
          (first ++ ['\r']) ++ '\n' :: (line ++ rest.flatMap fun line => '\r' :: '\n' :: line) := by
        simp
      have hPiece : ∀ c ∈ first ++ ['\r'], (decide (c = '\n')) = false := by
        intro c hc
        simp only [decide_eq_false_iff_not]
        rintro rfl
        rcases List.mem_append.mp hc with hc | hc
        · exact hFirst hc
        · exact absurd (List.mem_singleton.mp hc) (by decide)
      have hTail := ih hRest hLine (.inr hSome)
      rw [textLines] at hTail
      rw [hText, textLines, List.splitOnP_append_cons_of_forall_mem hPiece '\n' (by simp)]
      cases hSplit : (line ++ rest.flatMap fun line => '\r' :: '\n' :: line).splitOnP (· = '\n') with
      | nil => exact absurd hSplit (List.splitOnP_ne_nil _ _)
      | cons t pieces =>
          rw [hSplit] at hTail
          rw [linesOfPieces_cons, hTail, stripSuffix_append]
          rfl

section

variable {d : List UInt8} {f : FormField}

theorem notMem_label (h : f.WellFormed d) {c : Char} (hc : c.toLower ∉ "content-disposition".toList) :
    c ∉ f.label := by
  intro hMem
  refine hc ?_
  rw [← h.label]
  exact List.mem_map_of_mem hMem

theorem oneLine_text {p : Param} (h : p.WellFormed) : '\r' ∉ p.text ∧ '\n' ∉ p.text := by
  have hEach : ∀ c, isWhitespace c = true → c ≠ ' ' → c ≠ '\t' → c ∉ p.value → c ∉ p.text := by
    intro c hSpace hBlank hTab hValue hMem
    have hQuote : c ≠ '\x22' := by rintro rfl; exact absurd hSpace (by decide)
    unfold Param.text at hMem
    rcases List.mem_append.mp hMem with hMem | hMem
    · rcases h.blanks c hMem with rfl | rfl
      · exact hBlank rfl
      · exact hTab rfl
    · rcases List.mem_append.mp hMem with hMem | hMem
      · rw [(h.key c hMem).1] at hSpace
        cases hSpace
      · rcases List.mem_cons.mp hMem with rfl | hMem
        · exact absurd hSpace (by decide)
        · split_ifs at hMem
          · simp [hQuote, hValue] at hMem
          · exact hValue hMem
  exact ⟨hEach '\r' (by decide) (by decide) (by decide) h.oneLine.1,
    hEach '\n' (by decide) (by decide) (by decide) h.oneLine.2⟩

theorem oneLine_disposition (h : f.WellFormed d) :
    f.disposition ≠ [] ∧ '\r' ∉ f.disposition ∧ '\n' ∉ f.disposition := by
  refine ⟨by simp [FormField.disposition], ?_, ?_⟩
  · simp only [FormField.disposition, List.mem_append, List.mem_flatMap, List.mem_cons, not_or,
      not_exists, not_and]
    exact ⟨notMem_label h (by decide), by decide, fun p hp =>
      ⟨by decide, (oneLine_text (h.params p hp)).1⟩⟩
  · simp only [FormField.disposition, List.mem_append, List.mem_flatMap, List.mem_cons, not_or,
      not_exists, not_and]
    exact ⟨notMem_label h (by decide), by decide, fun p hp =>
      ⟨by decide, (oneLine_text (h.params p hp)).2⟩⟩

theorem oneLine_lines (h : f.WellFormed d) :
    ∀ line ∈ f.lines, line ≠ [] ∧ '\r' ∉ line ∧ '\n' ∉ line := by
  intro line hLine
  rcases List.mem_append.mp hLine with hLine | hLine
  · have hOther := h.others line (List.mem_append_left _ hLine)
    exact ⟨hOther.some, hOther.oneLine⟩
  · rcases List.mem_cons.mp hLine with rfl | hLine
    · exact oneLine_disposition h
    · have hOther := h.others line (List.mem_append_right _ hLine)
      exact ⟨hOther.some, hOther.oneLine⟩

theorem dispositionLine_headers (h : f.WellFormed d) : dispositionLine f.headers = f.disposition := by
  have hLines : textLines f.headers = [] :: f.lines := by
    have hSome : f.lines ≠ [] := by simp [FormField.lines]
    exact textLines_flatMap (oneLine_lines h) List.not_mem_nil (.inl hSome)
  have hLead : f.lead.find? (fun line =>
      "content-disposition".toList.isPrefixOf (toAsciiLowercase line)) = none := by
    rw [List.find?_eq_none]
    intro line hLine
    rw [(h.others line (List.mem_append_left _ hLine)).other]
    exact Bool.false_ne_true
  have hHere : "content-disposition".toList.isPrefixOf (toAsciiLowercase f.disposition) = true := by
    rw [List.isPrefixOf_iff_prefix, FormField.disposition, toAsciiLowercase, List.map_append,
      ← toAsciiLowercase, h.label]
    exact List.prefix_append _ _
  rw [dispositionLine, hLines, List.find?_cons_of_neg (by decide), FormField.lines,
    List.find?_append, hLead, Option.none_or, List.find?_cons_of_pos (by exact hHere)]
  rfl

/-! ### Parameters -/

/-- The pieces of a disposition are those of its parameters, behind its kind. -/
theorem mem_pieces_flatMap {first : Str} {params : List Param} {piece : Str} :
    piece ∈ (first ++ params.flatMap fun p => ';' :: p.text).splitOnP (· = ';') ↔
      piece ∈ first.splitOnP (· = ';') ∨ ∃ p ∈ params, piece ∈ p.text.splitOnP (· = ';') := by
  induction params generalizing first with
  | nil => simp
  | cons p params ih =>
      have hText : first ++ (p :: params).flatMap (fun p => ';' :: p.text) =
          first ++ ';' :: (p.text ++ params.flatMap fun p => ';' :: p.text) := by simp
      rw [hText, List.splitOnP_append_cons _ _ (by simp), List.mem_append, ih]
      simp

theorem wanted_counts : (wantedQuoted "model".toList).count '\x22' = 2 ∧
    (wantedBare "model".toList).count '\x22' = 0 ∧
    (wantedQuoted "model".toList).count ':' = 0 ∧ (wantedBare "model".toList).count ':' = 0 := by
  decide

/-- A piece with one quote is neither form of the parameter. -/
theorem not_wanted_of_count {piece : Str} (h : piece.count '\x22' = 1) :
    trim piece ≠ wantedQuoted "model".toList ∧ trim piece ≠ wantedBare "model".toList := by
  have hCount := count_trim (c := '\x22') (by decide) piece
  constructor
  · intro hSame
    rw [hSame, wanted_counts.1, h] at hCount
    cases hCount
  · intro hSame
    rw [hSame, wanted_counts.2.1, h] at hCount
    cases hCount

/-- Whether a piece is one of the two forms of the parameter. -/
def Wanted (piece : Str) : Prop :=
  trim piece = wantedQuoted "model".toList ∨ trim piece = wantedBare "model".toList

/-- Tokens and quotes around an equals sign are the parameter just where its key
and its value are. -/
theorem parameter_eq_iff {key value key' value' : Str} (h : '=' ∉ key) (h' : '=' ∉ key') :
    key ++ '=' :: value = key' ++ '=' :: value' ↔ key = key' ∧ value = value' := by
  constructor
  · intro hSame
    have hSplit := splitOnce_append h value
    rw [hSame, splitOnce_append h' value'] at hSplit
    cases hSplit
    exact ⟨rfl, rfl⟩
  · rintro ⟨rfl, rfl⟩
    rfl

section

variable {p : Param} (h : p.WellFormed)

include h

theorem isWhitespace_blanks : ∀ x ∈ p.blanks, isWhitespace x = true := by
  intro x hx
  rcases h.blanks x hx with rfl | rfl <;> decide

theorem head_core (rest : Str) :
    isWhitespace ((p.key ++ '=' :: rest).head (by simp)) = false := by
  cases hKey : p.key with
  | nil =>
      show isWhitespace '=' = false
      decide
  | cons c key => exact (h.key c (hKey ▸ List.mem_cons_self)).1

theorem notMem_front {c : Char} (hc : c ∈ ";\x22".toList) : c ∉ p.blanks ++ p.key := by
  intro hMem
  rcases List.mem_append.mp hMem with hMem | hMem
  · rcases h.blanks c hMem with rfl | rfl <;> exact absurd hc (by decide)
  · obtain ⟨-, hSemi, -, hQuote⟩ := h.key c hMem
    rcases List.mem_cons.mp hc with rfl | hc
    · exact hSemi rfl
    · exact hQuote (List.mem_singleton.mp hc)

theorem notMem_key : '=' ∉ p.key := fun hMem => (h.key '=' hMem).2.2.1 rfl

/-- A token is the parameter where its text is. -/
theorem wanted_bare (hBare : p.quoted = false) :
    (∃ piece ∈ p.text.splitOnP (· = ';'), Wanted piece) ↔
      p.key = "name".toList ∧ p.value = "model".toList := by
  have hValue := h.token hBare
  have hText : p.text = p.blanks ++ (p.key ++ '=' :: p.value) := by
    rw [Param.text, hBare, if_neg Bool.false_ne_true]
  have hOne : ';' ∉ p.text := by
    rw [hText, ← List.append_assoc, List.mem_append, List.mem_cons]
    rintro (hMem | hMem | hMem)
    · exact notMem_front h (by decide) hMem
    · exact absurd hMem (by decide)
    · exact (hValue _ hMem).2.1 rfl
  have hTrim : trim p.text = p.key ++ '=' :: p.value := by
    rw [hText]
    refine trim_blanks (isWhitespace_blanks h) (by simp) (head_core h _) ?_
    rcases List.mem_append.mp (List.getLast_mem (by simp : p.key ++ '=' :: p.value ≠ [])) with hMem | hMem
    · exact (h.key _ hMem).1
    · rcases List.mem_cons.mp hMem with hSame | hMem
      · rw [hSame]
        decide
      · exact (hValue _ hMem).1
  have hQuotes : (p.key ++ '=' :: p.value).count '\x22' = 0 := by
    rw [List.count_eq_zero, List.mem_append, List.mem_cons]
    rintro (hMem | hMem | hMem)
    · exact (h.key _ hMem).2.2.2 rfl
    · exact absurd hMem (by decide)
    · exact h.quote hMem
  rw [List.splitOnP_eq_singleton (pieces_one hOne)]
  simp only [List.mem_singleton, exists_eq_left, Wanted, hTrim]
  constructor
  · rintro (hQuoted | hSame)
    · rw [hQuoted, wanted_counts.1] at hQuotes
      cases hQuotes
    · exact (parameter_eq_iff (notMem_key h) (by decide)).mp hSame
  · exact fun hSame => .inr ((parameter_eq_iff (notMem_key h) (by decide)).mpr hSame)

theorem count_front : (p.blanks ++ p.key).count '\x22' = 0 :=
  List.count_eq_zero.mpr (notMem_front h (by decide))

/-- A quoted text in one piece is the parameter where its text is. -/
theorem wanted_quoted (hQuoted : p.quoted = true) (hOne : ';' ∉ p.value) :
    (∃ piece ∈ p.text.splitOnP (· = ';'), Wanted piece) ↔
      p.key = "name".toList ∧ p.value = "model".toList := by
  have hText : p.text = p.blanks ++ (p.key ++ '=' :: ('\x22' :: (p.value ++ ['\x22']))) := by
    rw [Param.text, hQuoted, if_pos rfl]
  have hPiece : ';' ∉ p.text := by
    rw [hText, ← List.append_assoc, List.mem_append]
    rintro (hMem | hMem)
    · exact notMem_front h (by decide) hMem
    · simp [hOne] at hMem
  have hTrim : trim p.text = p.key ++ '=' :: ('\x22' :: (p.value ++ ['\x22'])) := by
    rw [hText]
    refine trim_blanks (isWhitespace_blanks h) (by simp) (head_core h _) ?_
    have hLast : (p.key ++ '=' :: ('\x22' :: (p.value ++ ['\x22']))).getLast (by simp) = '\x22' := by
      simp
    rw [hLast]
    decide
  have hQuotes : (p.key ++ '=' :: ('\x22' :: (p.value ++ ['\x22']))).count '\x22' = 2 := by
    have hKey : p.key.count '\x22' = 0 :=
      List.count_eq_zero.mpr fun hMem => (h.key _ hMem).2.2.2 rfl
    have hValue : p.value.count '\x22' = 0 := List.count_eq_zero.mpr h.quote
    simp [List.count_append, hKey, hValue]
  have hWanted : wantedQuoted "model".toList =
      "name".toList ++ '=' :: ('\x22' :: ("model".toList ++ ['\x22'])) := by decide
  rw [List.splitOnP_eq_singleton (pieces_one hPiece)]
  simp only [List.mem_singleton, exists_eq_left, Wanted, hTrim]
  constructor
  · rintro (hSame | hBare)
    · rw [hWanted] at hSame
      obtain ⟨hKey, hValue⟩ := (parameter_eq_iff (notMem_key h) (by decide)).mp hSame
      exact ⟨hKey, List.append_cancel_right (List.cons.inj hValue).2⟩
    · rw [hBare, wanted_counts.2.1] at hQuotes
      cases hQuotes
  · rintro ⟨hKey, hValue⟩
    rw [hKey, hValue, hWanted]
    exact .inl rfl

/-- In a quoted text with semicolons only a whole piece between two of them can be
taken for the parameter. -/
theorem not_wanted_broken (hQuoted : p.quoted = true) (hSemi : ';' ∈ p.value)
    (hUnbroken : ∀ piece ∈ (p.value.splitOnP (· = ';')).tail.dropLast,
      trim piece ≠ wantedBare "model".toList) :
    ∀ piece ∈ p.text.splitOnP (· = ';'), ¬ Wanted piece := by
  obtain ⟨first, rest, hValue, hNot⟩ := List.eq_append_cons_of_mem hSemi
  have hQuote := h.quote
  rw [hValue] at hQuote hUnbroken
  have hText : p.text = (p.blanks ++ p.key ++ '=' :: ('\x22' :: first)) ++ ';' :: (rest ++ ['\x22']) := by
    rw [Param.text, hQuoted, if_pos rfl, hValue]
    simp
  have hFront : ';' ∉ p.blanks ++ p.key ++ '=' :: ('\x22' :: first) := by
    rw [List.mem_append]
    rintro (hMem | hMem)
    · exact notMem_front h (by decide) hMem
    · simp [hNot] at hMem
  have hFirst : (p.blanks ++ p.key ++ '=' :: ('\x22' :: first)).count '\x22' = 1 := by
    have hNone : first.count '\x22' = 0 := List.count_eq_zero.mpr fun hMem => hQuote (by simp [hMem])
    rw [List.count_append, count_front h]
    simp [hNone]
  rw [List.splitOnP_append_cons_of_forall_mem (pieces_one hNot) ';' (by simp), List.tail_cons]
    at hUnbroken
  rw [hText, List.splitOnP_append_cons_of_forall_mem (pieces_one hFront) ';' (by simp)]
  intro piece hPiece
  rcases List.mem_cons.mp hPiece with rfl | hPiece
  · exact not_or.mpr (not_wanted_of_count hFirst)
  · rcases mem_pieces_concat (by decide) hPiece with hInner | ⟨l, rfl, hSub⟩
    · rintro (hSame | hSame)
      · have hCount := count_trim (c := '\x22') (by decide) piece
        have hNone : piece.count '\x22' = 0 := List.count_eq_zero.mpr fun hMem => by
          have hRest := subset_of_mem_pieces (List.mem_of_mem_dropLast hInner) hMem
          exact hQuote (by simp [hRest])
        rw [hSame, wanted_counts.1, hNone] at hCount
        cases hCount
      · exact hUnbroken piece hInner hSame
    · have hNone : l.count '\x22' = 0 := List.count_eq_zero.mpr fun hMem => by
        exact hQuote (by simp [hSub hMem])
      exact not_or.mpr (not_wanted_of_count (by simp [hNone]))

theorem wanted_iff (hUnbroken : p.quoted = true →
      ∀ piece ∈ (p.value.splitOnP (· = ';')).tail.dropLast, trim piece ≠ wantedBare "model".toList) :
    (∃ piece ∈ p.text.splitOnP (· = ';'), Wanted piece) ↔
      p.key = "name".toList ∧ p.value = "model".toList := by
  cases hQuoted : p.quoted with
  | false => exact wanted_bare h hQuoted
  | true =>
      by_cases hSemi : ';' ∈ p.value
      · constructor
        · rintro ⟨piece, hPiece, hWanted⟩
          exact absurd hWanted (not_wanted_broken h hQuoted hSemi (hUnbroken hQuoted) piece hPiece)
        · rintro ⟨-, hValue⟩
          rw [hValue] at hSemi
          exact absurd hSemi (by decide)
      · exact wanted_quoted h hQuoted hSemi

end

/-- The search takes a field for the model where its name is. -/
theorem namesField_headers (h : f.WellFormed d) (hUnbroken : f.Unbroken) :
    namesField f.headers "model".toList = true ↔ f.Named "model".toList := by
  have hKind : ¬ ∃ piece ∈ (f.label ++ ": form-data".toList).splitOnP (· = ';'), Wanted piece := by
    have hOne : ';' ∉ f.label ++ ": form-data".toList := by
      rw [List.mem_append]
      rintro (hMem | hMem)
      · exact notMem_label h (by decide) hMem
      · exact absurd hMem (by decide)
    rw [List.splitOnP_eq_singleton (pieces_one hOne)]
    simp only [List.mem_singleton, exists_eq_left]
    have hCount := count_trim (c := ':') (by decide) (f.label ++ ": form-data".toList)
    have hSome : 0 < (f.label ++ ": form-data".toList).count ':' :=
      List.count_pos_iff.mpr (List.mem_append_right _ (by decide))
    rintro (hSame | hSame)
    · rw [hSame, wanted_counts.2.2.1] at hCount
      omega
    · rw [hSame, wanted_counts.2.2.2] at hCount
      omega
  have hPieces : namesField f.headers "model".toList = true ↔
      ∃ piece ∈ f.disposition.splitOnP (· = ';'), Wanted piece := by
    rw [namesField, dispositionLine_headers h, List.any_eq_true]
    simp [Wanted]
  rw [hPieces, FormField.disposition, ← List.append_assoc]
  simp only [mem_pieces_flatMap, or_and_right, exists_or]
  rw [or_iff_right hKind]
  constructor
  · rintro ⟨piece, ⟨p, hp, hPiece⟩, hWanted⟩
    exact ⟨p, hp, (wanted_iff (h.params p hp) (hUnbroken p hp)).mp ⟨piece, hPiece, hWanted⟩⟩
  · rintro ⟨p, hp, hNamed⟩
    obtain ⟨piece, hPiece, hWanted⟩ := (wanted_iff (h.params p hp) (hUnbroken p hp)).mpr hNamed
    exact ⟨piece, ⟨p, hp, hPiece⟩, hWanted⟩

end

/-! ### The form as sections -/

/-- Lines with something in them leave no blank one among the headers. -/
theorem position_headers {lines : List Str} (h : ∀ line ∈ lines, line ≠ [] ∧ '\r' ∉ line ∧ '\n' ∉ line)
    (t : List UInt8) :
    position blankLine (toUtf8 (lines.flatMap fun line => '\r' :: '\n' :: line) ++ (blankLine ++ t)) =
      some (toUtf8 (lines.flatMap fun line => '\r' :: '\n' :: line)).length := by
  induction lines with
  | nil => exact position_prefix blankLine t
  | cons line rest ih =>
      obtain ⟨⟨hSome, hReturn, -⟩, hRest⟩ := List.forall_mem_cons.mp h
      have hBytes : (13 : UInt8) ∉ toUtf8 line := fun hMem =>
        hReturn (mem_of_mem_toUtf8 (b := 13) (by decide) hMem)
      have hText : toUtf8 ((line :: rest).flatMap fun line => '\r' :: '\n' :: line) =
          13 :: 10 :: (toUtf8 line ++ toUtf8 (rest.flatMap fun line => '\r' :: '\n' :: line)) := by
        rw [List.flatMap_cons, toUtf8, toUtf8, toUtf8, List.flatMap_append]
        rfl
      have hNot : ¬ blankLine <+: 13 :: 10 :: (toUtf8 line ++
          (toUtf8 (rest.flatMap fun line => '\r' :: '\n' :: line) ++ (blankLine ++ t))) := by
        intro hPrefix
        rw [blankLine, List.cons_prefix_cons, List.cons_prefix_cons] at hPrefix
        cases hLine : toUtf8 line with
        | nil => exact hSome (toUtf8_injective (hLine.trans rfl))
        | cons b bytes =>
            rw [hLine, List.cons_append, List.cons_prefix_cons] at hPrefix
            exact hBytes (hLine ▸ hPrefix.2.2.1 ▸ List.mem_cons_self)
      rw [hText, List.cons_append, List.cons_append, List.append_assoc, position, if_neg hNot,
        position_cons_of_head (by decide) (by decide), position_append_of_head rfl hBytes, ih hRest]
      simp
      omega

theorem clear_toSection {d : List UInt8} {f : FormField} (h : f.WellFormed d) :
    f.toSection.Clear d :=
  ⟨h.headers, h.content, position_headers (oneLine_lines h)⟩

theorem fromUtf8Lossy_toSection (f : FormField) : fromUtf8Lossy f.toSection.head = f.headers :=
  fromUtf8Lossy_toUtf8 f.headers

/-- The form with the content of one field exchanged. -/
def Form.withContent (form : Form) (before : List FormField) (f : FormField) (after : List FormField)
    (content : List UInt8) : Form :=
  { form with fields := before ++ { f with content := content } :: after }

section

variable {boundary : Str} {form : Form} (h : form.WellFormed boundary)
  (hUnbroken : ∀ g ∈ form.fields, g.Unbroken)

include h hUnbroken

theorem namesField_toSection {g : FormField} (hg : g ∈ form.fields) :
    namesField (fromUtf8Lossy g.toSection.head) "model".toList = true ↔ g.Named "model".toList := by
  rw [fromUtf8Lossy_toSection]
  exact namesField_headers (h.fields g hg) (hUnbroken g hg)

/-- Sections of fields that are not named model. -/
theorem sections_skipped {fields : List FormField} (hFields : ∀ g ∈ fields, g ∈ form.fields)
    (hNot : ∀ g ∈ fields, ¬ g.Named "model".toList) :
    (∀ q ∈ fields.map FormField.toSection, q.Clear (delimiter boundary)) ∧
      ∀ q ∈ fields.map FormField.toSection,
        namesField (fromUtf8Lossy q.head) "model".toList = false := by
  constructor
  · intro q hq
    obtain ⟨g, hg, rfl⟩ := List.mem_map.mp hq
    exact clear_toSection (h.fields g (hFields g hg))
  · intro q hq
    obtain ⟨g, hg, rfl⟩ := List.mem_map.mp hq
    exact Bool.eq_false_iff.mpr fun hNames =>
      hNot g hg ((namesField_toSection h hUnbroken (hFields g hg)).mp hNames)

theorem multipartField_form {before after : List FormField} {f : FormField} {v : Str}
    (hFields : form.fields = before ++ f :: after) (hNamed : f.Named "model".toList)
    (hOthers : ∀ g ∈ before ++ after, ¬ g.Named "model".toList) (hContent : f.content = toUtf8 v)
    (hSome : v ≠ []) (hTrim : trim v = v) :
    multipartField (form.bytes boundary) boundary "model".toList = some v ∧
      ∀ upstreamModel,
        replaceMultipartField (form.bytes boundary) boundary "model".toList upstreamModel =
          (form.withContent before f after (toUtf8 upstreamModel)).bytes boundary := by
  have hHere : f ∈ form.fields := by simp [hFields]
  have hd := isDelimiter_delimiter h.oneLine
  have hBefore : ∀ g ∈ before, g ∈ form.fields := fun g hg => by simp [hFields, hg]
  obtain ⟨hClear, hNot⟩ := sections_skipped h hUnbroken hBefore fun g hg =>
    hOthers g (List.mem_append_left _ hg)
  have hNames := (namesField_toSection h hUnbroken hHere).mpr hNamed
  have hSection := clear_toSection (h.fields f hHere)
  have hBytes : form.bytes boundary = form.preamble ++ sectionsBody (delimiter boundary)
      (before.map FormField.toSection ++ f.toSection :: after.map FormField.toSection)
      (toUtf8 "--".toList ++ form.epilogue) := by
    rw [Form.bytes, hFields, List.map_append, List.map_cons]
  rw [hBytes]
  refine ⟨multipartField_sections hd h.preamble hClear hNot hSection hNames hContent hSome hTrim,
    fun upstreamModel => ?_⟩
  rw [replaceMultipartField_sections hd h.preamble hClear hNot hSection hNames]
  simp [Form.bytes, Form.withContent, FormField.toSection, FormField.headers, FormField.lines,
    FormField.disposition]

theorem multipartField_unnamed (hRest : ¬ delimiter boundary <:+: toUtf8 "--".toList ++ form.epilogue)
    (hOthers : ∀ g ∈ form.fields, ¬ g.Named "model".toList) :
    multipartField (form.bytes boundary) boundary "model".toList = none := by
  obtain ⟨hClear, hNot⟩ := sections_skipped h hUnbroken (fun _ hg => hg) hOthers
  rw [multipartField, Form.bytes, multipartSpan_eq_none (isDelimiter_delimiter h.oneLine) h.preamble
    hClear hNot hRest]
  rfl

end

section

variable {contentType boundary : Str} (hType : isMultipart contentType = true)
  (hBoundary : multipartBoundary contentType = some boundary)

include hType hBoundary

theorem routeMediaRequest_form (body : List UInt8) : routeMediaRequest body contentType =
    match multipartField body boundary "model".toList with
    | none => .error (.missingField "model".toList)
    | some model => .ok ⟨model, some boundary⟩ := by
  rw [routeMediaRequest, if_pos hType, hBoundary] <;> rfl

/-- A form with one field that is named model is routed by its value, and forwarded
with that value exchanged and nothing else. A form with no such field is refused.
Any other body is refused as well, or forwarded with the bytes that were read as
the model exchanged. -/
theorem forms_routed :
    (∀ (form : Form) (before after : List FormField) (f : FormField) (v : Str),
      form.WellFormed boundary → (∀ g ∈ form.fields, g.Unbroken) →
        form.fields = before ++ f :: after → f.Named "model".toList →
          (∀ g ∈ before ++ after, ¬ g.Named "model".toList) → f.content = toUtf8 v → v ≠ [] →
            trim v = v →
              routeMediaRequest (form.bytes boundary) contentType = .ok ⟨v, some boundary⟩ ∧
                ∀ upstreamModel,
                  MediaRequest.upstreamBody ⟨v, some boundary⟩ (form.bytes boundary) upstreamModel =
                    .ok ((form.withContent before f after (toUtf8 upstreamModel)).bytes boundary)) ∧
    (∀ form : Form, form.WellFormed boundary → (∀ g ∈ form.fields, g.Unbroken) →
      ¬ delimiter boundary <:+: toUtf8 "--".toList ++ form.epilogue →
        (∀ g ∈ form.fields, ¬ g.Named "model".toList) →
          routeMediaRequest (form.bytes boundary) contentType =
            .error (.missingField "model".toList)) ∧
    ∀ body, (∃ e, routeMediaRequest body contentType = .error e) ∨
      ∃ front value back model, body = front ++ (value ++ back) ∧
        (fromUtf8 value).map trim = some model ∧
        routeMediaRequest body contentType = .ok ⟨model, some boundary⟩ ∧
        ∀ upstreamModel, MediaRequest.upstreamBody ⟨model, some boundary⟩ body upstreamModel =
          .ok (front ++ (toUtf8 upstreamModel ++ back)) := by
  refine ⟨?_, ?_, ?_⟩
  · intro form before after f v h hUnbroken hFields hNamed hOthers hContent hSome hTrim
    obtain ⟨hField, hReplace⟩ :=
      multipartField_form h hUnbroken hFields hNamed hOthers hContent hSome hTrim
    refine ⟨by rw [routeMediaRequest_form hType hBoundary, hField], fun upstreamModel => ?_⟩
    rw [MediaRequest.upstreamBody]
    exact congrArg Except.ok (hReplace upstreamModel)
  · intro form h hUnbroken hRest hOthers
    rw [routeMediaRequest_form hType hBoundary, multipartField_unnamed h hUnbroken hRest hOthers]
  · intro body
    have hRoute := routeMediaRequest_form hType hBoundary body
    cases hField : multipartField body boundary "model".toList with
    | none =>
        rw [hField] at hRoute
        exact .inl ⟨_, hRoute⟩
    | some model =>
        rw [hField] at hRoute
        obtain ⟨front, value, back, hBody, hModel, hSent⟩ := routed_form hRoute
        exact .inr ⟨front, value, back, model, hBody, hModel, hRoute, hSent⟩

end

/-! ### Two forms -/

def formType : Str := "multipart/form-data; boundary=b".toList

def fileField (filename : String) (content : List UInt8) : FormField where
  params := [{ key := "name".toList, value := "file".toList },
    { key := "filename".toList, value := filename.toList }]
  trail := ["Content-Type: audio/wav".toList]
  content := content

def modelField (model : String) : FormField where
  params := [{ key := "name".toList, value := "model".toList }]
  content := toUtf8 model.toList

/-- A file, and the model. -/
def transcription (filename : String) : Form where
  fields := [fileField filename [45, 0, 45], modelField "m"]

theorem wellFormed_modelField : (modelField "m").WellFormed (delimiter ['b']) where
  others := by simp [modelField]
  label := by decide
  params := by
    intro p hp
    obtain rfl := List.mem_singleton.mp hp
    exact ⟨by simp, by decide, by decide, by decide, by decide⟩
  headers := by decide +kernel
  content := by decide +kernel

theorem wellFormed_fileField {filename : String}
    (hName : Param.WellFormed { key := "filename".toList, value := filename.toList })
    (hHeaders : ¬ delimiter ['b'] <:+: toUtf8 (fileField filename [45, 0, 45]).headers) :
    (fileField filename [45, 0, 45]).WellFormed (delimiter ['b']) where
  others := by
    intro line hLine
    obtain rfl := List.mem_singleton.mp hLine
    exact ⟨by decide, by decide, by decide⟩
  label := by
    show toAsciiLowercase "Content-Disposition".toList = _
    decide
  params := by
    refine List.forall_mem_cons.mpr ⟨?_, List.forall_mem_singleton.mpr hName⟩
    exact ⟨by simp, by decide, by decide, by decide, by decide⟩
  headers := hHeaders
  content := by
    show ¬ delimiter ['b'] <:+: [45, 0, 45]
    decide

theorem wellFormed_transcription {filename : String}
    (h : (fileField filename [45, 0, 45]).WellFormed (delimiter ['b'])) :
    (transcription filename).WellFormed ['b'] where
  oneLine := by decide
  preamble := .inl rfl
  fields := List.forall_mem_cons.mpr ⟨h, List.forall_mem_singleton.mpr wellFormed_modelField⟩

/-- A file is passed by, with what its name and its bytes look like. -/
theorem transcription_routed :
    routeMediaRequest ((transcription "a; b.wav").bytes ['b']) formType = .ok ⟨['m'], some ['b']⟩ := by
  have hFile : (fileField "a; b.wav" [45, 0, 45]).WellFormed (delimiter ['b']) :=
    wellFormed_fileField ⟨by simp, by decide, by decide, by decide, by decide⟩ (by decide +kernel)
  have hUnbroken : ∀ g ∈ (transcription "a; b.wav").fields, g.Unbroken := by
    unfold FormField.Unbroken
    decide +kernel
  have hNamed : (modelField "m").Named "model".toList := ⟨_, List.mem_cons_self, rfl, rfl⟩
  have hOther : ∀ g ∈ [fileField "a; b.wav" [45, 0, 45]] ++ [], ¬ g.Named "model".toList := by
    unfold FormField.Named
    decide +kernel
  exact ((forms_routed (by decide +kernel) (by decide +kernel)).1 _ _ _ _ ['m']
    (wellFormed_transcription hFile) hUnbroken rfl hNamed hOther rfl (by simp) (by decide)).1

/-- The closing delimiter of a form. -/
theorem closing_isInfix (d : List UInt8) (ps : List Section) (close rest : List UInt8) :
    d ++ close <:+: sectionsBody d ps (close ++ rest) := by
  induction ps with
  | nil => exact ⟨[], rest, by simp [sectionsBody]⟩
  | cons p ps ih =>
      rw [sectionsBody, ← List.append_assoc]
      exact ih.trans (List.suffix_append _ _).isInfix

/-- The model, without a closing delimiter. -/
def unclosed : List UInt8 := sectionsBody (delimiter ['b']) [(modelField "m").toSection] []

/-- A piece of a file's name is taken for the model's parameter, and a body that is
no form is rewritten. -/
theorem forms_misread :
    (¬ ∀ (contentType boundary : Str) (form : Form) (before after : List FormField) (f : FormField)
        (v : Str), isMultipart contentType = true → multipartBoundary contentType = some boundary →
        form.WellFormed boundary → form.fields = before ++ f :: after → f.Named "model".toList →
          (∀ g ∈ before ++ after, ¬ g.Named "model".toList) → f.content = toUtf8 v → v ≠ [] →
            trim v = v → routeMediaRequest (form.bytes boundary) contentType = .ok ⟨v, some boundary⟩) ∧
    ¬ ∀ (contentType boundary : Str) (body : List UInt8), isMultipart contentType = true →
        multipartBoundary contentType = some boundary → (∀ form : Form, form.bytes boundary ≠ body) →
          (∃ e, routeMediaRequest body contentType = .error e) ∨
            ∀ request, routeMediaRequest body contentType = .ok request →
              ∀ upstreamModel, request.upstreamBody body upstreamModel = .ok body := by
  have hd : IsDelimiter (delimiter ['b']) := isDelimiter_delimiter (by decide)
  have hType : isMultipart formType = true := by decide +kernel
  have hBoundary : multipartBoundary formType = some ['b'] := by decide +kernel
  have hModel := clear_toSection wellFormed_modelField
  constructor
  · intro h
    have hFile : (fileField "x; name=model; y" [45, 0, 45]).WellFormed (delimiter ['b']) :=
      wellFormed_fileField ⟨by simp, by decide, by decide, by decide, by decide⟩ (by decide +kernel)
    have hOther : ∀ g ∈ [fileField "x; name=model; y" [45, 0, 45]] ++ [],
        ¬ g.Named "model".toList := by
      unfold FormField.Named
      decide +kernel
    have hClaim := h formType ['b'] (transcription "x; name=model; y") _ [] (modelField "m") ['m']
      hType hBoundary (wellFormed_transcription hFile) rfl ⟨_, List.mem_cons_self, rfl, rfl⟩ hOther rfl
      (by simp) (by decide)
    have hField : multipartField ([] ++ sectionsBody (delimiter ['b'])
        ([] ++ (fileField "x; name=model; y" [45, 0, 45]).toSection :: [(modelField "m").toSection])
        (toUtf8 "--".toList ++ crlf)) ['b'] "model".toList = some "-\x00-".toList :=
      multipartField_sections hd (.inl rfl) (by simp) (by simp) (clear_toSection hFile)
        (by decide +kernel) (by decide +kernel) (by simp) (by decide)
    rw [routeMediaRequest_form hType hBoundary] at hClaim
    have hBytes : (transcription "x; name=model; y").bytes ['b'] =
        [] ++ sectionsBody (delimiter ['b']) ([] ++ (fileField "x; name=model; y" [45, 0, 45]).toSection ::
          [(modelField "m").toSection]) (toUtf8 "--".toList ++ crlf) := rfl
    rw [hBytes, hField] at hClaim
    exact absurd hClaim (by decide)
  · intro h
    have hNames : namesField (fromUtf8Lossy (modelField "m").toSection.head) "model".toList = true := by
      decide +kernel
    have hNone : ∀ form : Form, form.bytes ['b'] ≠ unclosed := by
      intro form hSame
      have hClose : delimiter ['b'] ++ toUtf8 "--".toList <:+: unclosed := by
        rw [← hSame, Form.bytes]
        exact (closing_isInfix _ _ _ _).trans (List.suffix_append _ _).isInfix
      exact absurd hClose (by decide +kernel)
    have hField : multipartField ([] ++ sectionsBody (delimiter ['b'])
        ([] ++ (modelField "m").toSection :: []) []) ['b'] "model".toList = some ['m'] :=
      multipartField_sections hd (.inl rfl) (by simp) (by simp) hModel hNames rfl (by simp) (by decide)
    have hRoute : routeMediaRequest unclosed formType = .ok ⟨['m'], some ['b']⟩ := by
      have hUnclosed : multipartField unclosed ['b'] "model".toList = some ['m'] := hField
      rw [routeMediaRequest_form hType hBoundary, hUnclosed]
    have hReplace : replaceMultipartField ([] ++ sectionsBody (delimiter ['b'])
        ([] ++ (modelField "m").toSection :: []) []) ['b'] "model".toList ['n'] =
        [] ++ sectionsBody (delimiter ['b'])
          ([] ++ { (modelField "m").toSection with content := toUtf8 ['n'] } :: []) [] :=
      replaceMultipartField_sections hd (.inl rfl) (by simp) (by simp) hModel hNames ['n']
    rcases h formType ['b'] unclosed hType hBoundary hNone with ⟨e, hError⟩ | hSame
    · rw [hRoute] at hError
      cases hError
    · have hSent := Except.ok.inj (hSame _ hRoute ['n'])
      have hRewritten := hReplace.symm.trans hSent
      exact absurd hRewritten (by decide +kernel)

end Gateway.Wire.Media
