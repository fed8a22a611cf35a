import Gateway.Wire.Media

/-! The search through the sections of a body, each a head, a blank line and a
content behind a delimiter. -/
namespace Gateway.Wire.Media

open Json Text

/-- A delimiter begins with a dash and stays within its line. -/
structure IsDelimiter (d : List UInt8) : Prop where
  first : d.head? = some 45
  noReturn : 13 ∉ d

namespace IsDelimiter

variable {d : List UInt8} (h : IsDelimiter d)

include h

theorem ne_nil : d ≠ [] := by
  rintro rfl
  cases h.first

theorem head_ne {x : UInt8} (hx : x ≠ 45) : d.head? ≠ some x := by
  rw [h.first]
  exact fun hSame => hx (Option.some.inj hSame).symm

theorem not_infix_cons {x : UInt8} (hx : x ≠ 45) {s : List UInt8} (hs : ¬ d <:+: s) :
    ¬ d <:+: x :: s := by
  rw [List.infix_cons_iff]
  rintro (⟨t, ht⟩ | hRest)
  · cases d with
    | nil => exact h.ne_nil rfl
    | cons y d => exact h.head_ne hx (congrArg some (List.cons.inj ht).1)
  · exact hs hRest

end IsDelimiter

theorem isDelimiter_delimiter {boundary : Str} (h : '\r' ∉ boundary) :
    IsDelimiter (delimiter boundary) := by
  refine ⟨rfl, fun hMem => ?_⟩
  have hText : '\r' ∈ "--".toList ++ boundary := mem_of_mem_toUtf8 (b := 13) (by decide) hMem
  rcases List.mem_append.mp hText with hDash | hBoundary
  · revert hDash
    decide
  · exact h hBoundary

/-! ### Sections -/

structure Section where
  head : List UInt8
  content : List UInt8

def crlf : List UInt8 := [13, 10]

def Section.bytes (p : Section) : List UInt8 := p.head ++ (blankLine ++ (p.content ++ crlf))

/-- The sections, each behind a delimiter, and what follows the last delimiter. -/
def sectionsBody (d : List UInt8) : List Section → List UInt8 → List UInt8
  | [], rest => d ++ rest
  | p :: ps, rest => d ++ (p.bytes ++ sectionsBody d ps rest)

/-- The delimiter stands in neither part of a section, and the first blank line
ends the head. -/
structure Section.Clear (d : List UInt8) (p : Section) : Prop where
  head : ¬ d <:+: p.head
  content : ¬ d <:+: p.content
  blank : ∀ t, position blankLine (p.head ++ (blankLine ++ t)) = some p.head.length

section

variable {d : List UInt8} {p : Section}

theorem position_section (hd : IsDelimiter d) (hClear : p.Clear d) (t : List UInt8) :
    position d (p.bytes ++ (d ++ t)) = some p.bytes.length := by
  have hBytes : p.bytes ++ (d ++ t) =
      p.head ++ 13 :: ([10] ++ 13 :: ((10 :: p.content) ++ 13 :: (10 :: (d ++ t)))) := by
    simp [Section.bytes, blankLine, crlf]
  have hLine : ¬ d <:+: [10] := hd.not_infix_cons (by decide) fun h =>
    hd.ne_nil (List.infix_nil.mp h)
  have hContent : ¬ d <:+: 10 :: p.content := hd.not_infix_cons (by decide) hClear.content
  rw [hBytes, position_append_cons hd.ne_nil hd.noReturn hClear.head,
    position_append_cons hd.ne_nil hd.noReturn hLine,
    position_append_cons hd.ne_nil hd.noReturn hContent,
    position_cons_of_head hd.ne_nil (hd.head_ne (by decide)), position_prefix]
  simp [Section.bytes, blankLine, crlf]
  omega

/-- One step of the search, at the delimiter of a section. -/
theorem spanFrom_section {boundary name : Str} (hd : IsDelimiter (delimiter boundary))
    (hClear : p.Clear (delimiter boundary)) (front t : List UInt8) :
    spanFrom (front ++ (delimiter boundary ++ (p.bytes ++ (delimiter boundary ++ t)))) boundary
        name front.length =
      if namesField (fromUtf8Lossy p.head) name then
        some ⟨(front ++ (delimiter boundary ++ (p.head ++ blankLine))).length,
          (front ++ (delimiter boundary ++ (p.head ++ blankLine))).length + p.content.length⟩
      else
        spanFrom (front ++ (delimiter boundary ++ (p.bytes ++ (delimiter boundary ++ t)))) boundary
          name (front ++ (delimiter boundary ++ p.bytes)).length := by
  generalize hBody : front ++ (delimiter boundary ++ (p.bytes ++ (delimiter boundary ++ t))) = body
  have hStart : (front ++ delimiter boundary).length = front.length + (delimiter boundary).length :=
    List.length_append
  have hNext : find body (delimiter boundary) (front.length + (delimiter boundary).length) =
      some (front ++ (delimiter boundary ++ p.bytes)).length := by
    rw [← hBody, ← List.append_assoc, ← hStart, find_append, position_section hd hClear]
    simp
    omega
  have hBlank : find body blankLine (front.length + (delimiter boundary).length) =
      some (front ++ (delimiter boundary ++ p.head)).length := by
    rw [← hBody, ← List.append_assoc, ← hStart, find_append, Section.bytes, List.append_assoc,
      List.append_assoc, hClear.blank]
    simp
    omega
  have hBefore : (front ++ (delimiter boundary ++ p.head)).length <
      (front ++ (delimiter boundary ++ p.bytes)).length := by
    simp [Section.bytes, blankLine, crlf]
  have hHead : (body.take (front ++ (delimiter boundary ++ p.head)).length).drop
      (front.length + (delimiter boundary).length) = p.head := by
    have hCut : body = (front ++ (delimiter boundary ++ p.head)) ++ (blankLine ++ (p.content ++ crlf) ++
        (delimiter boundary ++ t)) := by
      rw [← hBody, Section.bytes]
      simp
    rw [hCut, List.take_left, ← hStart, ← List.append_assoc, List.drop_left]
  rw [spanFrom]
  dsimp only
  split
  · next hNone => rw [hNext] at hNone; cases hNone
  · next next hSome =>
      cases hNext.symm.trans hSome
      rw [hBlank, Option.filter_some, if_pos (by simpa using hBefore)]
      dsimp only
      rw [hHead]
      split_ifs
      · simp [Section.bytes, blankLine, crlf]
        omega
      · rfl

/-- The bytes before the content of the section behind some others. -/
def leadOf (d : List UInt8) (before : List Section) (p : Section) : List UInt8 :=
  before.flatMap (fun q => d ++ q.bytes) ++ (d ++ (p.head ++ blankLine))

theorem sectionsBody_eq (d : List UInt8) (before after : List Section) (p : Section)
    (rest : List UInt8) : sectionsBody d (before ++ p :: after) rest =
      leadOf d before p ++ (p.content ++ (crlf ++ sectionsBody d after rest)) := by
  induction before with
  | nil => simp [sectionsBody, leadOf, Section.bytes]
  | cons q before ih =>
      rw [List.cons_append, sectionsBody, ih]
      simp [leadOf]

theorem sectionsBody_head (d : List UInt8) (ps : List Section) (rest : List UInt8) :
    ∃ t, sectionsBody d ps rest = d ++ t := by
  cases ps with
  | nil => exact ⟨rest, rfl⟩
  | cons p ps => exact ⟨_, rfl⟩

/-- The search goes past the sections that do not name the field. -/
theorem spanFrom_skip {boundary name : Str} (hd : IsDelimiter (delimiter boundary))
    {before : List Section} (hClear : ∀ q ∈ before, q.Clear (delimiter boundary))
    (hNot : ∀ q ∈ before, namesField (fromUtf8Lossy q.head) name = false) (front : List UInt8)
    {later : List UInt8} (hLater : ∃ t, later = delimiter boundary ++ t) :
    spanFrom (front ++ (before.flatMap (fun q => delimiter boundary ++ q.bytes) ++ later)) boundary
        name front.length =
      spanFrom (front ++ (before.flatMap (fun q => delimiter boundary ++ q.bytes) ++ later)) boundary
        name (front ++ before.flatMap fun q => delimiter boundary ++ q.bytes).length := by
  induction before generalizing front with
  | nil => simp
  | cons q before ih =>
      obtain ⟨hFirst, hRest⟩ := List.forall_mem_cons.mp hClear
      obtain ⟨hName, hNames⟩ := List.forall_mem_cons.mp hNot
      obtain ⟨t, ht⟩ : ∃ t, before.flatMap (fun q => delimiter boundary ++ q.bytes) ++ later =
          delimiter boundary ++ t := by
        cases before with
        | nil => exact hLater
        | cons r before =>
            exact ⟨r.bytes ++ (before.flatMap (fun q => delimiter boundary ++ q.bytes) ++ later),
              by simp⟩
      have hBody : front ++ ((q :: before).flatMap (fun q => delimiter boundary ++ q.bytes) ++ later) =
          front ++ (delimiter boundary ++ (q.bytes ++ (delimiter boundary ++ t))) := by
        rw [← ht]
        simp
      have hNext : front ++ (delimiter boundary ++ (q.bytes ++ (delimiter boundary ++ t))) =
          (front ++ (delimiter boundary ++ q.bytes)) ++
            (before.flatMap (fun q => delimiter boundary ++ q.bytes) ++ later) := by
        rw [ht]
        simp
      rw [hBody, spanFrom_section hd hFirst, hName, if_neg Bool.false_ne_true, hNext,
        ih hRest hNames]
      simp

/-- What may come before the first delimiter: nothing, or lines without it. -/
def Opening (d preamble : List UInt8) : Prop :=
  preamble = [] ∨ ∃ text, preamble = text ++ crlf ∧ ¬ d <:+: text

theorem find_opening (hd : IsDelimiter d) {preamble : List UInt8} (h : Opening d preamble)
    {later : List UInt8} (hLater : ∃ t, later = d ++ t) :
    find (preamble ++ later) d 0 = some preamble.length := by
  obtain ⟨t, rfl⟩ := hLater
  have hFind : find (preamble ++ (d ++ t)) d 0 = position d (preamble ++ (d ++ t)) := by
    simp [find]
  rw [hFind]
  rcases h with rfl | ⟨text, rfl, hText⟩
  · exact position_prefix d t
  · have hBytes : text ++ crlf ++ (d ++ t) = text ++ 13 :: (10 :: (d ++ t)) := by simp [crlf]
    rw [hBytes, position_append_cons hd.ne_nil hd.noReturn hText,
      position_cons_of_head hd.ne_nil (hd.head_ne (by decide)), position_prefix]
    simp [crlf]
    omega

section

variable {boundary name : Str} (hd : IsDelimiter (delimiter boundary)) {preamble rest : List UInt8}
  (hOpening : Opening (delimiter boundary) preamble) {before after : List Section}
  (hClear : ∀ q ∈ before, q.Clear (delimiter boundary))
  (hNot : ∀ q ∈ before, namesField (fromUtf8Lossy q.head) name = false)

include hd hOpening hClear hNot

/-- The content of the first section that names the field is found. -/
theorem multipartSpan_sections (hHere : p.Clear (delimiter boundary))
    (hNames : namesField (fromUtf8Lossy p.head) name = true) (after : List Section)
    (rest : List UInt8) :
    multipartSpan (preamble ++ sectionsBody (delimiter boundary) (before ++ p :: after) rest) boundary
        name =
      some ⟨(preamble ++ leadOf (delimiter boundary) before p).length,
        (preamble ++ leadOf (delimiter boundary) before p).length + p.content.length⟩ := by
  obtain ⟨t, ht⟩ := sectionsBody_head (delimiter boundary) after rest
  have hBody : sectionsBody (delimiter boundary) (before ++ p :: after) rest =
      before.flatMap (fun q => delimiter boundary ++ q.bytes) ++
        (delimiter boundary ++ (p.bytes ++ (delimiter boundary ++ t))) := by
    rw [sectionsBody_eq, ht]
    simp [leadOf, Section.bytes]
  rw [multipartSpan, find_opening hd hOpening (sectionsBody_head _ _ _), Option.bind_some, hBody,
    spanFrom_skip hd hClear hNot preamble ⟨_, rfl⟩, ← List.append_assoc preamble,
    spanFrom_section hd hHere, hNames, if_pos rfl]
  simp [leadOf]

/-- Where no section names the field, none is found. -/
theorem multipartSpan_eq_none (hRest : ¬ delimiter boundary <:+: rest) :
    multipartSpan (preamble ++ sectionsBody (delimiter boundary) before rest) boundary name = none := by
  have hBody : sectionsBody (delimiter boundary) before rest =
      before.flatMap (fun q => delimiter boundary ++ q.bytes) ++ (delimiter boundary ++ rest) := by
    clear hClear hNot
    induction before with
    | nil => rfl
    | cons q before ih =>
        rw [sectionsBody, ih]
        simp
  rw [multipartSpan, find_opening hd hOpening (sectionsBody_head _ _ _), Option.bind_some, hBody,
    spanFrom_skip hd hClear hNot preamble ⟨_, rfl⟩]
  generalize hFront : preamble ++ before.flatMap (fun q => delimiter boundary ++ q.bytes) = front
  have hNext : find (preamble ++ (before.flatMap (fun q => delimiter boundary ++ q.bytes) ++
      (delimiter boundary ++ rest))) (delimiter boundary)
      (front.length + (delimiter boundary).length) = none := by
    have hText : preamble ++ (before.flatMap (fun q => delimiter boundary ++ q.bytes) ++
        (delimiter boundary ++ rest)) = (front ++ delimiter boundary) ++ rest := by
      rw [← hFront]
      simp
    rw [hText, ← List.length_append, find_append, position_eq_none hRest]
    rfl
  rw [spanFrom]
  dsimp only
  split
  · rfl
  · next hSome => rw [hNext] at hSome; cases hSome

theorem multipartField_sections (hHere : p.Clear (delimiter boundary))
    (hNames : namesField (fromUtf8Lossy p.head) name = true) {v : Str} (hValue : p.content = toUtf8 v)
    (hSome : v ≠ []) (hTrim : trim v = v) :
    multipartField (preamble ++ sectionsBody (delimiter boundary) (before ++ p :: after) rest) boundary
      name = some v := by
  have hSpan := multipartSpan_sections hd hOpening hClear hNot hHere hNames after rest
  have hContent : ((preamble ++ sectionsBody (delimiter boundary) (before ++ p :: after) rest).take
      ((preamble ++ leadOf (delimiter boundary) before p).length + p.content.length)).drop
      (preamble ++ leadOf (delimiter boundary) before p).length = p.content := by
    rw [sectionsBody_eq, ← List.append_assoc, ← List.append_assoc, ← List.length_append,
      List.take_left, List.drop_left]
  rw [multipartField, hSpan]
  simp only [Option.bind_eq_bind, Option.bind_some, hContent]
  rw [hValue, fromUtf8_toUtf8, Option.bind_some, hTrim, if_pos hSome]

theorem replaceMultipartField_sections (hHere : p.Clear (delimiter boundary))
    (hNames : namesField (fromUtf8Lossy p.head) name = true) (value : Str) :
    replaceMultipartField (preamble ++ sectionsBody (delimiter boundary) (before ++ p :: after) rest)
        boundary name value =
      preamble ++ sectionsBody (delimiter boundary)
        (before ++ { p with content := toUtf8 value } :: after) rest := by
  have hSpan := multipartSpan_sections hd hOpening hClear hNot hHere hNames after rest
  rw [replaceMultipartField, hSpan]
  dsimp only
  rw [sectionsBody_eq, sectionsBody_eq, ← List.append_assoc preamble, List.take_left,
    ← List.append_assoc _ p.content, ← List.length_append, List.drop_left]
  simp [leadOf]

end

end

/-! ### Every body -/

/-- What is found lies within the body. -/
theorem spanFrom_range {body : List UInt8} {boundary name : Str} {place : Nat} {span : FieldSpan}
    (h : spanFrom body boundary name place = some span) :
    span.start ≤ span.stop ∧ span.stop ≤ body.length := by
  fun_induction spanFrom body boundary name place with
  | case1 => cases h
  | case2 => cases h
  | case3 place headersStart next hNext headersEnd hBlank headers hNames =>
      cases h
      obtain ⟨a, b, hBody, hAt, -⟩ := find_eq_some hNext
      obtain ⟨a', b', hBody', hAt', -⟩ := find_eq_some (Option.filter_eq_some_iff.mp hBlank).1
      have hLength := congrArg List.length hBody
      have hLength' := congrArg List.length hBody'
      have hFour : blankLine.length = 4 := rfl
      simp only [List.length_append] at hLength hLength'
      dsimp only
      omega
  | case4 place headersStart next hNext headersEnd hBlank headers hNames ih => exact ih h

theorem multipartSpan_range {body : List UInt8} {boundary name : Str} {span : FieldSpan}
    (h : multipartSpan body boundary name = some span) :
    span.start ≤ span.stop ∧ span.stop ≤ body.length := by
  obtain ⟨place, -, hSpan⟩ := Option.bind_eq_some_iff.mp h
  exact spanFrom_range hSpan

/-- The bytes of the field are cut out of the body. -/
theorem multipartSpan_splits {body : List UInt8} {boundary name : Str} {span : FieldSpan}
    (h : multipartSpan body boundary name = some span) :
    body.take span.start ++ ((body.take span.stop).drop span.start ++ body.drop span.stop) = body := by
  have hStart : body.take span.start = (body.take span.stop).take span.start := by
    rw [List.take_take, Nat.min_eq_left (multipartSpan_range h).1]
  rw [hStart, ← List.append_assoc, List.take_append_drop, List.take_append_drop]

/-- A form that is routed is forwarded with the bytes that were read as its model
exchanged, and one that is not is left as it is. -/
theorem routed_form {body : List UInt8} {contentType boundary model : Str}
    (h : routeMediaRequest body contentType = .ok ⟨model, some boundary⟩) :
    ∃ front value back, body = front ++ (value ++ back) ∧ (fromUtf8 value).map trim = some model ∧
      ∀ upstreamModel, (⟨model, some boundary⟩ : MediaRequest).upstreamBody body upstreamModel =
        .ok (front ++ (toUtf8 upstreamModel ++ back)) := by
  have hField : multipartField body boundary "model".toList = some model := by
    unfold routeMediaRequest at h
    split_ifs at h
    · split at h
      · cases h
      · split at h
        · cases h
        · next hField =>
            cases h
            exact hField
    · split at h
      · cases h
      · split at h <;> cases h
  unfold multipartField at hField
  obtain ⟨span, hSpan, hValue⟩ := Option.bind_eq_some_iff.mp hField
  obtain ⟨value, hText, hModel⟩ := Option.bind_eq_some_iff.mp hValue
  split_ifs at hModel
  cases hModel
  refine ⟨_, _, _, (multipartSpan_splits hSpan).symm, by rw [hText]; rfl, fun upstreamModel => ?_⟩
  unfold MediaRequest.upstreamBody replaceMultipartField
  dsimp only
  rw [hSpan]
  simp

end Gateway.Wire.Media
