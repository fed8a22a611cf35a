import Gateway.Otel.Payloads
import Gateway.Wire.Media

/-! The trace that a caller's headers name, and the span of the turn that joins it. -/
namespace Gateway.Server

open Json Otel

def isHex (s : Str) (len : Nat) : Bool := s.length == len && s.all asciiHexdigit

def notZero (s : Str) : Bool := s.any (· ≠ '0')

/-- The trace and the caller's span from a `traceparent`. -/
def parseTraceparent (value : Str) : Option (Str × Str) :=
  match (Wire.Media.trim value).splitOnP (· = '-') with
  | version :: trace :: span :: flags :: _ =>
      if isHex version 2 && version ≠ "ff".toList && isHex trace 32 && notZero trace && isHex span 16 &&
          notZero span && isHex flags 2 then
        some (Otel.toAsciiLowercase trace, Otel.toAsciiLowercase span)
      else none
  | _ => none

/-- The trace and the caller's span of a call. A `traceparent` comes first. -/
def traceContext (traceparent xTraceId : Option Str) : Option Str × Option Str :=
  match traceparent.bind parseTraceparent with
  | some (trace, parent) => (some trace, some parent)
  | none => (xTraceId, none)

/-! ### What a `traceparent` names -/

/-- Fields that are a trace context. -/
structure Fields (version trace span flags : Str) : Prop where
  version : isHex version 2 = true ∧ version ≠ "ff".toList
  trace : isHex trace 32 = true ∧ notZero trace = true
  span : isHex span 16 = true ∧ notZero span = true
  flags : isHex flags 2 = true

/-- A header that has the fields of a trace context, and maybe others behind them. -/
def Names (value trace parent : Str) : Prop :=
  ∃ version trace' span flags more, Fields version trace' span flags ∧
    Wire.Media.trim value =
      version ++ '-' :: (trace' ++ '-' :: (span ++ '-' :: (flags ++ more))) ∧
    (more = [] ∨ ∃ rest, more = '-' :: rest) ∧
    trace = Otel.toAsciiLowercase trace' ∧ parent = Otel.toAsciiLowercase span

theorem isHex_solid {s : Str} {len : Nat} (h : isHex s len = true) : ∀ c ∈ s, c ≠ '-' := by
  intro c hc hDash
  have hHex := List.all_eq_true.mp (Bool.and_eq_true_iff.mp h).2 c hc
  subst hDash
  cases hHex

/-- The first piece is the whole, or stands before a dash and the others. -/
theorem splitOnP_head {s piece : Str} {rest : List Str} (h : s.splitOnP (· = '-') = piece :: rest) :
    (rest = [] ∧ s = piece) ∨ ∃ s', s = piece ++ '-' :: s' ∧ s'.splitOnP (· = '-') = rest := by
  induction s generalizing piece with
  | nil =>
      obtain ⟨hPiece, hRest⟩ := List.cons.inj h
      exact .inl ⟨hRest.symm, hPiece⟩
  | cons c s ih =>
      rw [List.splitOnP_cons_eq_if_modifyHead] at h
      split_ifs at h with hDash
      · obtain ⟨hPiece, hRest⟩ := List.cons.inj h
        subst hPiece
        exact .inr ⟨s, by simpa using hDash, hRest⟩
      · cases hPieces : s.splitOnP (· = '-') with
        | nil => exact absurd hPieces (List.splitOnP_ne_nil _ _)
        | cons first others =>
            rw [hPieces, List.modifyHead_cons] at h
            obtain ⟨hPiece, hRest⟩ := List.cons.inj h
            subst hPiece hRest
            rcases ih hPieces with ⟨hNone, rfl⟩ | ⟨s', rfl, hRest⟩
            · exact .inl ⟨hNone, rfl⟩
            · exact .inr ⟨s', rfl, hRest⟩

/-- A piece that is not the last. -/
theorem splitOnP_cut {s piece next : Str} {rest : List Str}
    (h : s.splitOnP (· = '-') = piece :: next :: rest) :
    ∃ s', s = piece ++ '-' :: s' ∧ s'.splitOnP (· = '-') = next :: rest := by
  rcases splitOnP_head h with ⟨hNone, -⟩ | hCut
  · cases hNone
  · exact hCut

theorem splitOnP_solid {piece : Str} (h : ∀ c ∈ piece, c ≠ '-') (rest : Str) :
    (piece ++ '-' :: rest).splitOnP (· = '-') = piece :: rest.splitOnP (· = '-') :=
  List.splitOnP_append_cons_of_forall_mem (fun c hc => decide_eq_false (h c hc)) '-'
    (by decide) rest

theorem fields_iff {version trace span flags : Str} :
    (isHex version 2 && version ≠ "ff".toList && isHex trace 32 && notZero trace && isHex span 16 &&
        notZero span && isHex flags 2) = true ↔ Fields version trace span flags := by
  simp only [Bool.and_eq_true, decide_eq_true_eq]
  constructor
  · intro ⟨⟨⟨⟨⟨⟨hVersion, hNe⟩, hTrace⟩, hSome⟩, hSpan⟩, hSpanSome⟩, hFlags⟩
    exact ⟨⟨hVersion, hNe⟩, ⟨hTrace, hSome⟩, ⟨hSpan, hSpanSome⟩, hFlags⟩
  · intro h
    exact ⟨⟨⟨⟨⟨h.version, h.trace.1⟩, h.trace.2⟩, h.span.1⟩, h.span.2⟩, h.flags⟩

theorem parseTraceparent_eq_some {value trace parent : Str} :
    parseTraceparent value = some (trace, parent) ↔ Names value trace parent := by
  constructor
  · intro h
    unfold parseTraceparent at h
    split at h
    · next version trace' span flags rest hPieces =>
        split_ifs at h with hFields
        obtain ⟨s₁, hText, hFirst⟩ := splitOnP_cut hPieces
        obtain ⟨s₂, hNext, hSecond⟩ := splitOnP_cut hFirst
        obtain ⟨s₃, hLast, hThird⟩ := splitOnP_cut hSecond
        obtain ⟨hTrace, hParent⟩ := Prod.mk.inj (Option.some.inj h)
        rw [hNext, hLast] at hText
        rcases splitOnP_head hThird with ⟨-, rfl⟩ | ⟨s₄, rfl, -⟩
        · exact ⟨version, trace', span, s₃, [], fields_iff.mp hFields, by simpa using hText, .inl rfl,
            hTrace.symm, hParent.symm⟩
        · exact ⟨version, trace', span, flags, '-' :: s₄, fields_iff.mp hFields, hText, .inr ⟨s₄, rfl⟩,
            hTrace.symm, hParent.symm⟩
    · cases h
  · intro ⟨version, trace', span, flags, more, hFields, hText, hMore, hTrace, hParent⟩
    have hEnd : ∃ rest, (flags ++ more).splitOnP (· = '-') = flags :: rest := by
      rcases hMore with rfl | ⟨rest, rfl⟩
      · rw [List.append_nil]
        exact ⟨[], List.splitOnP_eq_singleton fun c hc =>
          decide_eq_false (isHex_solid hFields.flags c hc)⟩
      · exact ⟨_, splitOnP_solid (isHex_solid hFields.flags) rest⟩
    obtain ⟨rest, hEnd⟩ := hEnd
    have hPieces : (Wire.Media.trim value).splitOnP (· = '-') = version :: trace' :: span :: flags :: rest := by
      rw [hText, splitOnP_solid (isHex_solid hFields.version.1),
        splitOnP_solid (isHex_solid hFields.trace.1), splitOnP_solid (isHex_solid hFields.span.1), hEnd]
    unfold parseTraceparent
    simp only [hPieces]
    rw [if_pos (fields_iff.mpr hFields), hTrace, hParent]

/-! ### The span of the turn -/

/-- A turn as it is recorded for a call with these headers. -/
def traced (rec : TimedRecord) (traceparent xTraceId : Option Str) : TracedRecord where
  toTimedRecord := rec
  traceId := (traceContext traceparent xTraceId).1
  parentSpanId := (traceContext traceparent xTraceId).2

/-- The trace that a turn joins, and the span it is a child of. -/
inductive Joins (traceparent xTraceId : Option Str) (minted : Str) : Str → Option Str → Prop where
  | context {value trace parent : Str} (header : traceparent = some value)
      (names : Names value trace parent) : Joins traceparent xTraceId minted trace (some parent)
  | named {trace : Str} (noContext : ∀ value ∈ traceparent, ∀ t p, ¬ Names value t p)
      (header : xTraceId = some trace) (hex : isHex trace 32 = true) :
      Joins traceparent xTraceId minted (Otel.toAsciiLowercase trace) none
  | fresh (noContext : ∀ value ∈ traceparent, ∀ t p, ¬ Names value t p)
      (noTrace : ∀ trace ∈ xTraceId, isHex trace 32 = false) :
      Joins traceparent xTraceId minted minted none

theorem hexdigit_toLower {c : Char} (h : asciiHexdigit c = true) :
    asciiHexdigit c.toLower = true ∧ c.toLower.toLower = c.toLower := by
  have hAll : ∀ n < 128, asciiHexdigit (Char.ofNat n) = true →
      asciiHexdigit (Char.ofNat n).toLower = true ∧
        (Char.ofNat n).toLower.toLower = (Char.ofNat n).toLower := by decide
  have hSmall : c.toNat < 128 := by
    simp only [asciiHexdigit, Bool.or_eq_true, Bool.and_eq_true, decide_eq_true_eq, Char.le_def,
      UInt32.le_iff_toNat_le] at h
    have hA : 'f'.val.toNat = 102 := rfl
    have hF : 'F'.val.toNat = 70 := rfl
    have hNine : '9'.val.toNat = 57 := rfl
    show c.val.toNat < 128
    omega
  have hChar := hAll c.toNat hSmall
  rw [Char.ofNat_toNat] at hChar
  exact hChar h

/-- The name of a trace in lower case is the same trace. -/
theorem isHex_lowercase {s : Str} {len : Nat} (h : isHex s len = true) :
    isHex (Otel.toAsciiLowercase s) len = true ∧
      Otel.toAsciiLowercase (Otel.toAsciiLowercase s) = Otel.toAsciiLowercase s := by
  obtain ⟨hLength, hAll⟩ := Bool.and_eq_true_iff.mp h
  have hDigit := List.all_eq_true.mp hAll
  constructor
  · apply Bool.and_eq_true_iff.mpr
    refine ⟨by rwa [Otel.toAsciiLowercase, List.length_map], List.all_eq_true.mpr ?_⟩
    intro c hc
    obtain ⟨d, hd, rfl⟩ := List.mem_map.mp hc
    exact (hexdigit_toLower (hDigit d hd)).1
  · unfold Otel.toAsciiLowercase
    rw [List.map_map]
    apply List.map_congr_left
    intro c hc
    exact (hexdigit_toLower (hDigit c hc)).2

theorem joinedTrace_eq (rec : TracedRecord) (minted : Str) :
    joinedTrace rec minted =
      match rec.traceId with
      | some trace => if isHex trace 32 then Otel.toAsciiLowercase trace else minted
      | none => minted := by
  unfold joinedTrace
  cases rec.traceId with
  | none => rfl
  | some trace =>
      show (((if isHex trace 32 then some trace else none) : Option Str).map _).getD _ =
        if isHex trace 32 then _ else _
      split_ifs
      · rfl
      · rfl

theorem traced_joins (rec : TimedRecord) (traceparent xTraceId : Option Str) (minted : Str) :
    Joins traceparent xTraceId minted (joinedTrace (traced rec traceparent xTraceId) minted)
      (traced rec traceparent xTraceId).parentSpanId := by
  rw [joinedTrace_eq]
  unfold traced traceContext
  cases hContext : traceparent.bind parseTraceparent with
  | some context =>
      obtain ⟨trace, parent⟩ := context
      obtain ⟨value, hValue, hParse⟩ := Option.bind_eq_some_iff.mp hContext
      have hNames := parseTraceparent_eq_some.mp hParse
      obtain ⟨_, trace', _, _, _, hFields, -, -, hTrace, -⟩ := id hNames
      obtain ⟨hHex, hTwice⟩ := isHex_lowercase hFields.trace.1
      rw [← hTrace] at hHex hTwice
      dsimp only
      rw [if_pos hHex, hTwice]
      exact .context hValue hNames
  | none =>
      have hNone : ∀ value ∈ traceparent, ∀ t p, ¬ Names value t p := by
        intro value hValue t p hNames
        have hParse := parseTraceparent_eq_some.mpr hNames
        rw [hValue, Option.bind_some, hParse] at hContext
        cases hContext
      cases xTraceId with
      | none => exact .fresh hNone (by simp)
      | some trace =>
          dsimp only
          split_ifs with hHex
          · exact .named hNone rfl hHex
          · exact .fresh hNone (by simpa using hHex)

/-- The span of a turn joins the trace of its call. -/
theorem span_joins (float : ℚ → Number) (round : ℚ → ℚ) (rec : TimedRecord)
    (traceparent xTraceId : Option Str) (minted : Str × Str) :
    ∃ trace parent, Joins traceparent xTraceId minted.1 trace parent ∧
      (span float round (traced rec traceparent xTraceId) minted).get "traceId" = some (.string trace) ∧
      (span float round (traced rec traceparent xTraceId) minted).get "parentSpanId" =
        parent.map .string := by
  refine ⟨_, _, traced_joins rec traceparent xTraceId minted.1, ?_, ?_⟩
  · unfold span
    rw [get_obj_append]
    · simp
    · cases (traced rec traceparent xTraceId).parentSpanId <;> simp
  · unfold span
    cases (traced rec traceparent xTraceId).parentSpanId <;> simp

end Gateway.Server
