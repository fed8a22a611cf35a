import Gateway.Wire.Common

/-! Searching the bytes of a stream for the text that marks its end. Such a
text lies within one frame, and there within the event's name, the sentinel, or
one string of the document. -/
namespace Gateway.Wire

open Json Text

/-- A text that no frame's punctuation can contain. -/
structure Marker (w : Str) : Prop where
  inString : InString w
  noBreak : '\n' ∉ w
  noBrace : '{' ∉ w
  notLead : ¬ w <:+: "data: ".toList

/-- Some string of a document has a property. -/
def Carries (p : Str → Prop) (v : Value) : Prop := ∃ s ∈ v.strings, p s

section Carries

variable (p : Str → Prop)

@[simp] theorem carries_string (s : Str) : Carries p (.string s) ↔ p s := by
  simp [Carries, Value.strings]

@[simp] theorem carries_null : ¬ Carries p .null := by simp [Carries, Value.strings]

@[simp] theorem carries_number (n : Number) : ¬ Carries p (.number n) := by
  simp [Carries, Value.strings]

@[simp] theorem carries_nat (n : Nat) : ¬ Carries p (.nat n) := carries_number p _

theorem carries_array (items : List Value) :
    Carries p (.array items) ↔ ∃ v ∈ items, Carries p v := by
  induction items with
  | nil => simp [Carries, Value.strings, itemStrings]
  | cons v vs ih =>
      simp only [Carries, Value.strings, itemStrings] at ih ⊢
      simp only [List.mem_append, or_and_right, exists_or, List.mem_cons, ih, exists_eq_left]

theorem carries_obj {fields : List (String × Value)} (distinct : (fields.map Prod.fst).Nodup) :
    Carries p (obj fields) ↔ ∃ f ∈ fields, p f.1.toList ∨ Carries p f.2 := by
  simp only [Carries, mem_strings_obj distinct]
  constructor
  · rintro ⟨s, ⟨f, hf, rfl | hs⟩, hp⟩
    · exact ⟨f, hf, Or.inl hp⟩
    · exact ⟨f, hf, Or.inr ⟨s, hs, hp⟩⟩
  · rintro ⟨f, hf, hp | ⟨s, hs, hp⟩⟩
    · exact ⟨_, ⟨f, hf, Or.inl rfl⟩, hp⟩
    · exact ⟨s, ⟨f, hf, Or.inr hs⟩, hp⟩

end Carries

/-- The text of an object after its opening brace. -/
theorem render_obj (fields : List (Str × Value)) :
    ∃ body, (Value.object fields).render = '{' :: body := by
  cases fields with
  | nil => exact ⟨['}'], rfl⟩
  | cons f rest => exact ⟨_, rfl⟩

/-- A document's frame has a marker in its event's name or in a string. -/
theorem infix_text_iff {w : Str} (hw : Marker w) (event : Option String)
    (fields : List (Str × Value)) :
    w <:+: (Frame.mk event (.json (.object fields))).text ↔
      (∃ name, event = some name ∧ w <:+: "event: ".toList ++ name.toList) ∨
        Carries (fun s => w <:+: escape s) (.object fields) := by
  obtain ⟨body, hBody⟩ := render_obj fields
  have hDocument : w <:+: body ↔ Carries (fun s => w <:+: escape s) (.object fields) := by
    rw [Carries, ← infix_render_iff hw.inString, hBody, infix_cons_iff_of_notMem hw.noBrace]
  have hEnd : ¬ w <:+: ['\n'] := by
    obtain ⟨c, hc, -⟩ := hw.inString.marked
    refine not_infix_of_notMem hc ?_
    rw [List.mem_singleton]
    rintro rfl
    exact hw.noBreak hc
  have hData : w <:+: "data: ".toList ++ ('{' :: body) ++ "\n\n".toList ↔
      Carries (fun s => w <:+: escape s) (.object fields) := by
    have hText : "data: ".toList ++ ('{' :: body) ++ "\n\n".toList =
        "data: ".toList ++ '{' :: (body ++ '\n' :: ['\n']) := by simp
    rw [hText, infix_append_cons_iff hw.noBrace, infix_append_cons_iff hw.noBreak, hDocument]
    exact ⟨fun h => h.elim (fun h => absurd h hw.notLead) (fun h => h.elim id (absurd · hEnd)),
      fun h => Or.inr (Or.inl h)⟩
  cases event with
  | none =>
      simp only [Frame.text, Payload.text_json, hBody, List.nil_append, hData]
      simp
  | some name =>
      have hText : (Frame.mk (some name) (.json (.object fields))).text =
          ("event: ".toList ++ name.toList) ++ '\n' ::
            ("data: ".toList ++ ('{' :: body) ++ "\n\n".toList) := by
        simp [Frame.text, Payload.text_json, hBody]
      rw [hText, infix_append_cons_iff hw.noBreak, hData]
      simp

/-- A named event has a marker in its name, or in a name or a string of its
members. -/
theorem infix_named_iff {w : Str} (hw : Marker w) (name : String)
    {fields : List (String × Value)} (distinct : (fields.map Prod.fst).Nodup) :
    w <:+: (Frame.named name (obj fields)).text ↔ w <:+: "event: ".toList ++ name.toList ∨
      ∃ f ∈ fields, w <:+: escape f.1.toList ∨ Carries (fun s => w <:+: escape s) f.2 := by
  have h := infix_text_iff hw (some name) (members fields)
  rw [show Frame.named name (obj fields) = ⟨some name, .json (.object (members fields))⟩ from rfl,
    h, show Value.object (members fields) = obj fields from rfl, carries_obj _ distinct]
  simp

/-- An unnamed event has a marker in a name or a string of its members. -/
theorem infix_data_iff {w : Str} (hw : Marker w) {fields : List (String × Value)}
    (distinct : (fields.map Prod.fst).Nodup) :
    w <:+: (Frame.data (obj fields)).text ↔
      ∃ f ∈ fields, w <:+: escape f.1.toList ∨ Carries (fun s => w <:+: escape s) f.2 := by
  have h := infix_text_iff hw none (members fields)
  rw [show Frame.data (obj fields) = ⟨none, .json (.object (members fields))⟩ from rfl,
    h, show Value.object (members fields) = obj fields from rfl, carries_obj _ distinct]
  simp

/-- Some frame of a batch has a text in it. -/
def Shows (w : Str) (frames : List Frame) : Prop := ∃ f ∈ frames, w <:+: f.text

@[simp] theorem shows_nil (w : Str) : ¬ Shows w [] := by simp [Shows]

@[simp] theorem shows_cons (w : Str) (f : Frame) (fs : List Frame) :
    Shows w (f :: fs) ↔ w <:+: f.text ∨ Shows w fs := by simp [Shows]

@[simp] theorem shows_append (w : Str) (fs gs : List Frame) :
    Shows w (fs ++ gs) ↔ Shows w fs ∨ Shows w gs := by
  simp [Shows, or_and_right, exists_or]

/-- A batch has a marker exactly when one of its frames has it. -/
theorem infix_framesText_iff {w : Str} (hw : Marker w) (frames : List Frame) :
    w <:+: framesText frames ↔ Shows w frames := by
  obtain ⟨c, hc, -⟩ := hw.inString.marked
  induction frames with
  | nil => simpa [framesText, Shows] using not_infix_of_notMem hc (List.not_mem_nil)
  | cons f rest ih =>
      obtain ⟨body, hBody⟩ : ∃ body, f.text = body ++ ['\n', '\n'] := ⟨_, rfl⟩
      have hSelf : w <:+: f.text ↔ w <:+: body := by
        rw [hBody, infix_append_cons_iff hw.noBreak]
        have : ¬ w <:+: ['\n'] := by
          refine not_infix_of_notMem hc ?_
          rw [List.mem_singleton]
          rintro rfl
          exact hw.noBreak hc
        simp [this]
      have hText : framesText (f :: rest) = body ++ '\n' :: ('\n' :: framesText rest) := by
        simp [framesText, hBody]
      rw [hText, infix_append_cons_iff hw.noBreak, infix_cons_iff_of_notMem hw.noBreak, ih, ← hSelf,
        shows_cons]

/-! ### Markers in escaped strings -/

/-- The characters that do not stand for themselves. -/
def escapedChars : List Char := (List.range 0x20).map Char.ofNat ++ ['\x22', '\\']

theorem mem_escapedChars_of_not_plain {c : Char} (h : ¬ Plain c) : c ∈ escapedChars := by
  by_cases hQuote : c = '\x22'
  · simp [escapedChars, hQuote]
  by_cases hSlash : c = '\\'
  · simp [escapedChars, hSlash]
  have hLow : c.toNat < 0x20 := by
    by_contra hHigh
    exact h ⟨hQuote, hSlash, Nat.not_lt.mp hHigh⟩
  refine List.mem_append_left _ (List.mem_map.mpr ⟨c.toNat, List.mem_range.mpr hLow, ?_⟩)
  exact Char.ofNat_toNat c

/-- The characters whose escapes end in a given one. -/
def endingIn (x : Char) : List Char := escapedChars.filter (fun c => escapeLast c = x)

/-- A marker is found in an escaped string where the string has it, or has it
with a first character whose escape ends in the marker's. -/
theorem infix_escape_iff_endingIn {x : Char} {w s : Str} (hx : Plain x) (hx' : x ∉ "\\u01".toList)
    (hw : ∀ c ∈ w, Plain c) :
    x :: w <:+: escape s ↔ x :: w <:+: s ∨ ∃ c ∈ endingIn x, c :: w <:+: s := by
  rw [infix_escape_iff hx' hw]
  constructor
  · rintro ⟨c, hc, h⟩
    rcases (escapeLast_eq_iff hx).mp hc with rfl | ⟨hPlain, hLast⟩
    · exact Or.inl h
    · exact Or.inr ⟨c, List.mem_filter.mpr ⟨mem_escapedChars_of_not_plain hPlain,
        by simpa using hLast⟩, h⟩
  · rintro (h | ⟨c, hc, h⟩)
    · exact ⟨x, (escapeLast_eq_iff hx).mpr (Or.inl rfl), h⟩
    · exact ⟨c, by simpa using (List.mem_filter.mp hc).2, h⟩

end Gateway.Wire
