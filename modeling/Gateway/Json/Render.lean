import Gateway.Json.Value
import Gateway.Text.Occurs

/-! The compact text of a JSON value, as a sequence of tokens. The result of
this file is `infix_render_iff`: a pattern that has a character found only
inside strings occurs in the text exactly where one of the value's strings,
once escaped, carries it. -/
namespace Json

open Text

def hexDigit (n : Nat) : Char := ("0123456789abcdef".toList)[n]?.getD '0'

/-- The short escapes, then `\u00XX` for the other control characters. Every
other character stands for itself. -/
def escapeChar (c : Char) : Str :=
  if c = '\x22' then ['\\', '\x22']
  else if c = '\\' then ['\\', '\\']
  else if c = '\x08' then ['\\', 'b']
  else if c = '\x0c' then ['\\', 'f']
  else if c = '\n' then ['\\', 'n']
  else if c = '\r' then ['\\', 'r']
  else if c = '\t' then ['\\', 't']
  else if c.toNat < 0x20 then
    ['\\', 'u', '0', '0', hexDigit (c.toNat / 16), hexDigit (c.toNat % 16)]
  else [c]

def escape (s : Str) : Str := s.flatMap escapeChar

/-- A character that stands for itself. -/
def Plain (c : Char) : Prop := c ≠ '\x22' ∧ c ≠ '\\' ∧ 0x20 ≤ c.toNat

instance (c : Char) : Decidable (Plain c) := inferInstanceAs (Decidable (_ ∧ _))

theorem escapeChar_of_plain {c : Char} (h : Plain c) : escapeChar c = [c] := by
  obtain ⟨hQuote, hSlash, hControl⟩ := h
  have hNe (d : Char) (hd : d.toNat < 0x20) : c ≠ d := by
    rintro rfl
    omega
  simp [escapeChar, hQuote, hSlash, hNe '\x08' (by decide), hNe '\x0c' (by decide),
    hNe '\n' (by decide), hNe '\r' (by decide), hNe '\t' (by decide), Nat.not_lt.mpr hControl]

/-- An escape is a backslash, characters of `\u01`, and one last character. -/
theorem escapeChar_of_not_plain {c : Char} (h : ¬ Plain c) :
    ∃ middle last, escapeChar c = '\\' :: (middle ++ [last]) ∧
      ∀ d ∈ middle, d ∈ "u01".toList := by
  unfold escapeChar
  by_cases hQuote : c = '\x22'
  · rw [if_pos hQuote]
    exact ⟨[], _, rfl, by simp⟩
  by_cases hSlash : c = '\\'
  · rw [if_neg hQuote, if_pos hSlash]
    exact ⟨[], _, rfl, by simp⟩
  have hControl : c.toNat < 0x20 := by
    by_contra hHigh
    exact h ⟨hQuote, hSlash, Nat.not_lt.mp hHigh⟩
  rw [if_neg hQuote, if_neg hSlash]
  -- the five short escapes
  iterate 5
    split
    · exact ⟨[], _, rfl, by simp⟩
  refine ⟨['u', '0', '0', hexDigit (c.toNat / 16)], hexDigit (c.toNat % 16), rfl, ?_⟩
  have hDigit : ∀ n < 2, hexDigit n ∈ "u01".toList := by decide
  have := hDigit (c.toNat / 16) (by omega)
  simp at this ⊢
  exact this

/-- The character an escape ends in. -/
def escapeLast (c : Char) : Char := (escapeChar c).getLastD c

theorem prefix_escape_iff {w s : Str} (hw : ∀ c ∈ w, Plain c) :
    w <+: escape s ↔ w <+: s := by
  induction w generalizing s with
  | nil => simp
  | cons x xs ih =>
      have hx := hw x (by simp)
      cases s with
      | nil => simp [escape]
      | cons c rest =>
          have ih' := ih (s := rest) (fun d hd => hw d (by simp [hd]))
          rw [escape, List.flatMap_cons]
          by_cases hc : Plain c
          · rw [escapeChar_of_plain hc, List.singleton_append, List.cons_prefix_cons,
              List.cons_prefix_cons]
            exact and_congr_right fun _ => ih'
          · obtain ⟨middle, last, hEscape, -⟩ := escapeChar_of_not_plain hc
            have hSlash : x ≠ '\\' := hx.2.1
            have hNe : x ≠ c := by
              rintro rfl
              exact hc hx
            simp [hEscape, List.cons_prefix_cons, hSlash, hNe]

/-- Escaping hides no plain pattern, and can only complete one: an escape may
end in the pattern's first character. -/
theorem infix_escape_iff {x : Char} {w s : Str} (hx : x ∉ "\\u01".toList)
    (hw : ∀ c ∈ w, Plain c) :
    x :: w <:+: escape s ↔ ∃ c, escapeLast c = x ∧ c :: w <:+: s := by
  induction s with
  | nil => simp [escape]
  | cons d rest ih =>
      have hHead : ∀ c, c :: w <:+: d :: rest ↔ (c = d ∧ w <+: rest) ∨ c :: w <:+: rest := by
        intro c
        rw [List.infix_cons_iff, List.cons_prefix_cons]
      have hSplit : (∃ c, escapeLast c = x ∧ c :: w <:+: d :: rest) ↔
          (escapeLast d = x ∧ w <+: rest) ∨ (∃ c, escapeLast c = x ∧ c :: w <:+: rest) := by
        simp only [hHead]
        constructor
        · rintro ⟨c, hc, ⟨rfl, h⟩ | h⟩
          · exact Or.inl ⟨hc, h⟩
          · exact Or.inr ⟨c, hc, h⟩
        · rintro (⟨hd, h⟩ | ⟨c, hc, h⟩)
          · exact ⟨d, hd, Or.inl ⟨rfl, h⟩⟩
          · exact ⟨c, hc, Or.inr h⟩
      rw [hSplit, ← ih, escape, List.flatMap_cons, ← escape]
      by_cases hd : Plain d
      · have hLast : escapeLast d = d := by simp [escapeLast, escapeChar_of_plain hd]
        rw [escapeChar_of_plain hd, List.singleton_append, List.infix_cons_iff,
          List.cons_prefix_cons, prefix_escape_iff hw, hLast, eq_comm]
      · obtain ⟨middle, last, hEscape, hMiddle⟩ := escapeChar_of_not_plain hd
        have hLast : escapeLast d = last := by
          rw [escapeLast, hEscape, ← List.cons_append, List.getLastD_concat]
        have hAbsent : x ∉ '\\' :: middle := by
          intro h
          rcases List.mem_cons.mp h with rfl | h
          · exact hx (by decide)
          · have := hMiddle x h
            simp at this hx
            rcases this with h | h | h <;> simp [h] at hx
        have hText : escapeChar d ++ escape rest = ('\\' :: middle) ++ (last :: escape rest) := by
          simp [hEscape]
        rw [hText, cons_infix_append_iff hAbsent, List.infix_cons_iff,
          List.cons_prefix_cons, prefix_escape_iff hw, hLast, eq_comm]

/-- A control character ends its escape in the letter of a short escape or in
a hexadecimal digit. -/
theorem escapeLast_eq_iff {x c : Char} (hx : Plain x) :
    escapeLast c = x ↔ c = x ∨ (¬ Plain c ∧ escapeLast c = x) := by
  by_cases hc : Plain c
  · simp [escapeLast, escapeChar_of_plain hc, hc]
  · have : c ≠ x := by
      rintro rfl
      exact hc hx
    simp [hc, this]

/-- The lexical pieces of a document: everything outside strings, and the
strings. -/
inductive Token where
  | punct (text : Str)
  | str (s : Str)

def Token.text : Token → Str
  | .punct t => t
  | .str s => '\x22' :: (escape s ++ ['\x22'])

def digits (n : Nat) : Str := Nat.toDigits 10 n

def intText (e : Int) : Str := (if e < 0 then ['-'] else []) ++ digits e.natAbs

/-- A decimal in the layout of the shortest-float printers: plain up to
sixteen places, with an exponent beyond. -/
def decimalText (mantissa : Nat) (exponent : Int) : Str :=
  let ds := digits mantissa
  let point : Int := ds.length + exponent
  if mantissa = 0 then "0.0".toList
  else if 0 ≤ exponent ∧ point ≤ 16 then ds ++ List.replicate exponent.toNat '0' ++ ".0".toList
  else if 0 < point ∧ point ≤ 16 then ds.take point.toNat ++ '.' :: ds.drop point.toNat
  else if -5 < point ∧ point ≤ 0 then "0.".toList ++ List.replicate (-point).toNat '0' ++ ds
  else if ds.length = 1 then ds ++ 'e' :: intText (point - 1)
  else ds.take 1 ++ '.' :: ds.drop 1 ++ 'e' :: intText (point - 1)

def Number.text : Number → Str
  | .posInt n => digits n
  | .negInt n => '-' :: digits n
  | .float negative m e => (if negative then ['-'] else []) ++ decimalText m e

mutual
def Value.tokens : Value → List Token
  | .null => [.punct "null".toList]
  | .bool true => [.punct "true".toList]
  | .bool false => [.punct "false".toList]
  | .number n => [.punct n.text]
  | .string s => [.str s]
  | .array [] => [.punct "[]".toList]
  | .array (v :: vs) => .punct ['['] :: (v.tokens ++ (itemTokens vs ++ [.punct [']']]))
  | .object [] => [.punct "{}".toList]
  | .object ((k, v) :: fs) =>
      .punct ['{'] :: .str k :: .punct [':'] :: (v.tokens ++ (fieldTokens fs ++ [.punct ['}']]))

def itemTokens : List Value → List Token
  | [] => []
  | v :: vs => .punct [','] :: (v.tokens ++ itemTokens vs)

def fieldTokens : List (Str × Value) → List Token
  | [] => []
  | (k, v) :: fs => .punct [','] :: .str k :: .punct [':'] :: (v.tokens ++ fieldTokens fs)
end

def Value.render (v : Value) : Str := v.tokens.flatMap Token.text

mutual
/-- Every string of a value, member names included. -/
def Value.strings : Value → List Str
  | .string s => [s]
  | .array items => itemStrings items
  | .object fields => fieldStrings fields
  | _ => []

def itemStrings : List Value → List Str
  | [] => []
  | v :: vs => v.strings ++ itemStrings vs

def fieldStrings : List (Str × Value) → List Str
  | [] => []
  | (k, v) :: fs => k :: (v.strings ++ fieldStrings fs)
end

theorem fieldStrings_eq_flatMap (fields : List (Str × Value)) :
    fieldStrings fields = fields.flatMap (fun f => f.1 :: f.2.strings) := by
  induction fields with
  | nil => rfl
  | cons f rest ih => simp [fieldStrings, ih]

/-- The strings of a written object are its names and its members' strings. -/
theorem mem_strings_obj {fields : List (String × Value)} {s : Str}
    (distinct : (fields.map Prod.fst).Nodup) :
    s ∈ (obj fields).strings ↔ ∃ f ∈ fields, s = f.1.toList ∨ s ∈ f.2.strings := by
  have hPerm := (members_perm distinct).flatMap_right (fun f => f.1 :: f.2.strings)
  rw [obj, Value.strings, fieldStrings_eq_flatMap, hPerm.mem_iff]
  simp only [List.mem_flatMap, List.mem_map, List.mem_cons]
  constructor
  · rintro ⟨_, ⟨f, hf, rfl⟩, h⟩
    exact ⟨f, hf, h⟩
  · rintro ⟨f, hf, h⟩
    exact ⟨_, ⟨f, hf, rfl⟩, h⟩

/-- Characters found outside strings. -/
def structural : Str := "{}[]:,+-.0123456789eEnultrfas".toList

def Token.Structural : Token → Prop
  | .punct t => ∀ c ∈ t, c ∈ structural
  | .str _ => True

private theorem digit_structural {c : Char} (h : c.isDigit = true) : c ∈ structural := by
  have hAll : ∀ n < 58, 48 ≤ n → Char.ofNat n ∈ structural := by decide
  simp only [Char.isDigit, Bool.and_eq_true, decide_eq_true_eq] at h
  have hLow : 48 ≤ c.toNat := h.1
  have hHigh : c.toNat ≤ 57 := h.2
  have := hAll c.toNat (by omega) hLow
  rwa [Char.ofNat_toNat] at this

private theorem digits_structural {n : Nat} : ∀ c ∈ digits n, c ∈ structural :=
  fun _ hc => digit_structural (Nat.isDigit_of_mem_toDigits (by decide) (by decide) hc)

private theorem intText_structural {e : Int} : ∀ c ∈ intText e, c ∈ structural := by
  intro c hc
  rcases List.mem_append.mp hc with h | h
  · split_ifs at h
    · simp only [List.mem_singleton] at h
      subst h
      decide
    · simp at h
  · exact digits_structural c h

private theorem decimalText_structural {m : Nat} {e : Int} :
    ∀ c ∈ decimalText m e, c ∈ structural := by
  have hZero : ∀ n, ∀ c ∈ List.replicate n '0', c ∈ structural := by
    intro n c hc
    rw [List.eq_of_mem_replicate hc]
    decide
  have hTake : ∀ n, ∀ c ∈ (digits m).take n, c ∈ structural :=
    fun n c hc => digits_structural c (List.mem_of_mem_take hc)
  have hDrop : ∀ n, ∀ c ∈ (digits m).drop n, c ∈ structural :=
    fun n c hc => digits_structural c (List.mem_of_mem_drop hc)
  have hDot : '.' ∈ structural := by decide
  have hE : 'e' ∈ structural := by decide
  have hPoint : ∀ c ∈ ".0".toList, c ∈ structural := forall_mem_of_all (by decide)
  have hLead : ∀ c ∈ "0.".toList, c ∈ structural := forall_mem_of_all (by decide)
  intro c hc
  unfold decimalText at hc
  split_ifs at hc
  · exact forall_mem_of_all (by decide : "0.0".toList.all (fun c => decide (c ∈ structural)) = true) c hc
  all_goals grind [digits_structural, intText_structural]

private theorem number_structural (n : Number) : ∀ c ∈ n.text, c ∈ structural := by
  have hMinus : '-' ∈ structural := by decide
  cases n with
  | posInt n => exact digits_structural
  | negInt n =>
      intro c hc
      rcases List.mem_cons.mp hc with rfl | h
      · exact hMinus
      · exact digits_structural c h
  | float negative m e =>
      intro c hc
      rcases List.mem_append.mp hc with h | h
      · split_ifs at h
        · exact List.mem_singleton.mp h ▸ hMinus
        · simp at h
      · exact decimalText_structural c h

private theorem punct_structural {t : Str} (h : t.all (fun c => decide (c ∈ structural)) = true) :
    (Token.punct t).Structural := forall_mem_of_all h

mutual
private theorem tokens_structural (v : Value) : ∀ t ∈ v.tokens, t.Structural := by
  match v with
  | .null => exact List.forall_mem_singleton.mpr (punct_structural (by decide))
  | .bool true => exact List.forall_mem_singleton.mpr (punct_structural (by decide))
  | .bool false => exact List.forall_mem_singleton.mpr (punct_structural (by decide))
  | .number n => exact List.forall_mem_singleton.mpr (number_structural n)
  | .string s => exact List.forall_mem_singleton.mpr trivial
  | .array [] => exact List.forall_mem_singleton.mpr (punct_structural (by decide))
  | .array (v :: vs) =>
      intro t ht
      simp only [Value.tokens, List.mem_cons, List.mem_append, List.not_mem_nil, or_false] at ht
      rcases ht with rfl | h | h | rfl
      · exact punct_structural (by decide)
      · exact tokens_structural v t h
      · exact itemTokens_structural vs t h
      · exact punct_structural (by decide)
  | .object [] => exact List.forall_mem_singleton.mpr (punct_structural (by decide))
  | .object ((k, v) :: fs) =>
      intro t ht
      simp only [Value.tokens, List.mem_cons, List.mem_append, List.not_mem_nil, or_false] at ht
      rcases ht with rfl | rfl | rfl | h | h | rfl
      · exact punct_structural (by decide)
      · trivial
      · exact punct_structural (by decide)
      · exact tokens_structural v t h
      · exact fieldTokens_structural fs t h
      · exact punct_structural (by decide)

private theorem itemTokens_structural (vs : List Value) : ∀ t ∈ itemTokens vs, t.Structural := by
  match vs with
  | [] => simp [itemTokens]
  | v :: vs =>
      intro t ht
      simp only [itemTokens, List.mem_cons, List.mem_append] at ht
      rcases ht with rfl | h | h
      · exact punct_structural (by decide)
      · exact tokens_structural v t h
      · exact itemTokens_structural vs t h

private theorem fieldTokens_structural (fs : List (Str × Value)) :
    ∀ t ∈ fieldTokens fs, t.Structural := by
  match fs with
  | [] => simp [fieldTokens]
  | (k, v) :: fs =>
      intro t ht
      simp only [fieldTokens, List.mem_cons, List.mem_append] at ht
      rcases ht with rfl | rfl | rfl | h | h
      · exact punct_structural (by decide)
      · trivial
      · exact punct_structural (by decide)
      · exact tokens_structural v t h
      · exact fieldTokens_structural fs t h
end

mutual
private theorem str_mem_tokens (v : Value) (s : Str) : Token.str s ∈ v.tokens ↔ s ∈ v.strings := by
  match v with
  | .null | .bool true | .bool false | .number _ => simp [Value.tokens, Value.strings]
  | .string t => simp [Value.tokens, Value.strings]
  | .array [] | .object [] => simp [Value.tokens, Value.strings, itemStrings, fieldStrings]
  | .array (v :: vs) =>
      simp [Value.tokens, Value.strings, itemStrings, str_mem_tokens v s, str_mem_items vs s]
  | .object ((k, v) :: fs) =>
      simp [Value.tokens, Value.strings, fieldStrings, str_mem_tokens v s, str_mem_fields fs s]

private theorem str_mem_items (vs : List Value) (s : Str) :
    Token.str s ∈ itemTokens vs ↔ s ∈ itemStrings vs := by
  match vs with
  | [] => simp [itemTokens, itemStrings]
  | v :: vs => simp [itemTokens, itemStrings, str_mem_tokens v s, str_mem_items vs s]

private theorem str_mem_fields (fs : List (Str × Value)) (s : Str) :
    Token.str s ∈ fieldTokens fs ↔ s ∈ fieldStrings fs := by
  match fs with
  | [] => simp [fieldTokens, fieldStrings]
  | (k, v) :: fs => simp [fieldTokens, fieldStrings, str_mem_tokens v s, str_mem_fields fs s]
end

/-- A pattern that only a string can carry: it has no quote, so it stays
within one string, and it has a character that no token outside strings has. -/
structure InString (w : Str) : Prop where
  noQuote : '\x22' ∉ w
  marked : ∃ c ∈ w, c ∉ structural

private theorem infix_tokens_iff {w : Str} (hw : InString w) {tokens : List Token}
    (hTokens : ∀ t ∈ tokens, t.Structural) (lead : Str) (hLead : ∀ c ∈ lead, c ∈ structural) :
    w <:+: lead ++ tokens.flatMap Token.text ↔ ∃ s, Token.str s ∈ tokens ∧ w <:+: escape s := by
  obtain ⟨mark, hMark, hOut⟩ := hw.marked
  have hAbsent {t : Str} (ht : ∀ c ∈ t, c ∈ structural) : ¬ w <:+: t :=
    not_infix_of_notMem hMark (fun h => hOut (ht mark h))
  induction tokens generalizing lead with
  | nil => simpa using hAbsent hLead
  | cons token rest ih =>
      have hRest : ∀ t ∈ rest, t.Structural := fun t ht => hTokens t (by simp [ht])
      cases token with
      | punct t =>
          have hHere : ∀ c ∈ t, c ∈ structural := hTokens (.punct t) (by simp)
          have hMore : ∀ c ∈ lead ++ t, c ∈ structural := by
            intro c hc
            rcases List.mem_append.mp hc with h | h
            · exact hLead c h
            · exact hHere c h
          have := ih hRest _ hMore
          simpa [Token.text] using this
      | str s =>
          have hText : lead ++ (Token.str s :: rest).flatMap Token.text =
              lead ++ '\x22' :: (escape s ++ '\x22' :: rest.flatMap Token.text) := by
            simp [Token.text]
          have hTail : w <:+: rest.flatMap Token.text ↔
              ∃ u, Token.str u ∈ rest ∧ w <:+: escape u := by
            simpa using ih hRest [] (by simp)
          rw [hText, infix_append_cons_iff hw.noQuote, infix_append_cons_iff hw.noQuote, hTail]
          have := hAbsent hLead
          constructor
          · rintro (h | h | ⟨u, hu, h⟩)
            · exact absurd h this
            · exact ⟨s, by simp, h⟩
            · exact ⟨u, by simp [hu], h⟩
          · rintro ⟨u, hu, h⟩
            rcases List.mem_cons.mp hu with hu | hu
            · cases hu
              exact Or.inr (Or.inl h)
            · exact Or.inr (Or.inr ⟨u, hu, h⟩)

/-- Such a pattern occurs in a document exactly when one of its strings,
escaped, carries it. -/
theorem infix_render_iff {w : Str} (hw : InString w) (v : Value) :
    w <:+: v.render ↔ ∃ s ∈ v.strings, w <:+: escape s := by
  have h := infix_tokens_iff hw (tokens_structural v) [] (by simp)
  simpa [Value.render, str_mem_tokens] using h

end Json
