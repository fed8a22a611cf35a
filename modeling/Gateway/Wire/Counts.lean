import Gateway.Wire.Anthropic.Response
import Gateway.Wire.Gemini.Response
import Gateway.Wire.OpenaiChat.Response
import Gateway.Wire.OpenaiResponses.Response

/-! Token counts on their way from an upstream's usage object to a client's. A
count is any natural number in the one and 32 bits in between. -/
namespace Gateway.Wire

open Json

/-! ### Usage objects -/

inductive Count where
  | input
  | output
  | cacheRead
  | cacheWrite
  | reasoning
  | total
  deriving DecidableEq

def Count.all : List Count := [.input, .output, .cacheRead, .cacheWrite, .reasoning, .total]

theorem Count.mem_all (c : Count) : c ∈ all := by cases c <;> decide

/-- Where a format has a count in its usage object. -/
def Count.path : WireFormat → Count → List String
  | .anthropic, .input => ["input_tokens"]
  | .anthropic, .output => ["output_tokens"]
  | .anthropic, .cacheRead => ["cache_read_input_tokens"]
  | .anthropic, .cacheWrite => ["cache_creation_input_tokens"]
  | .openaiChat, .input => ["prompt_tokens"]
  | .openaiChat, .output => ["completion_tokens"]
  | .openaiChat, .cacheRead => ["prompt_tokens_details", "cached_tokens"]
  | .openaiChat, .cacheWrite => ["prompt_tokens_details", "cache_write_tokens"]
  | .openaiChat, .reasoning => ["completion_tokens_details", "reasoning_tokens"]
  | .openaiChat, .total => ["total_tokens"]
  | .openaiResponses, .input => ["input_tokens"]
  | .openaiResponses, .output => ["output_tokens"]
  | .openaiResponses, .cacheRead => ["input_tokens_details", "cached_tokens"]
  | .openaiResponses, .cacheWrite => ["input_tokens_details", "cache_write_tokens"]
  | .openaiResponses, .reasoning => ["output_tokens_details", "reasoning_tokens"]
  | .openaiResponses, .total => ["total_tokens"]
  | .gemini, .input => ["promptTokenCount"]
  | .gemini, .output => ["candidatesTokenCount"]
  | .gemini, .cacheRead => ["cachedContentTokenCount"]
  | .gemini, .total => ["totalTokenCount"]
  | .anthropic, .reasoning | .anthropic, .total | .gemini, .cacheWrite | .gemini, .reasoning => []

/-- The member at a path; there is none at no path. -/
def memberAt (v : Value) : List String → Option Value
  | [] => none
  | [key] => v.get key
  | key :: rest => (v.get key).bind fun w => memberAt w rest

/-- The natural number that an integer stands for. One of more than 64 bits is
kept as a fraction. -/
def natOf : Value → Option Nat
  | .number (.posInt n) => if n < 2 ^ 64 then some n else none
  | .number (.float false mantissa 0) => if 2 ^ 64 ≤ mantissa then some mantissa else none
  | _ => none

/-- The counts of a usage object are natural numbers. -/
def Integral (f : WireFormat) (v : Value) : Prop :=
  ∀ (c : Count) (x : Value), memberAt v (c.path f) = some x → (natOf x).isSome

instance (f : WireFormat) (v : Value) : Decidable (Integral f v) :=
  decidable_of_iff
    (∀ c ∈ Count.all, ((memberAt v (c.path f)).all fun x => (natOf x).isSome) = true)
    ⟨fun h c x hx => by simpa [hx] using h c (Count.mem_all c),
      fun h c _ => by
        cases hx : memberAt v (c.path f) with
        | none => rfl
        | some x => exact h c x hx⟩

/-- A count that an upstream reports; the total is the sum. -/
def reported (f : WireFormat) (v : Value) : Count → Nat
  | .total =>
      ((memberAt v (Count.input.path f)).bind natOf).getD 0 +
        ((memberAt v (Count.output.path f)).bind natOf).getD 0
  | c => ((memberAt v (c.path f)).bind natOf).getD 0

/-! ### Parsing -/

/-- The usage that a dialect's parser makes of a usage object. -/
def parseUsage (f : WireFormat) (v : Value) (timings : Option Value) : Usage :=
  match f with
  | .anthropic => Anthropic.parseUsage (some v)
  | .openaiChat => OpenaiChat.parseUsage (some v) timings
  | .openaiResponses => OpenaiResponses.parseUsage (some v)
  | .gemini => Gemini.parseUsage (some v)

/-- A parsed count; a usage has no total. -/
def Usage.count (u : Usage) : Count → Option Nat
  | .input => some u.inputTokens
  | .output => some u.outputTokens
  | .cacheRead => some u.cacheReadTokens
  | .cacheWrite => some u.cacheWriteTokens
  | .reasoning => some u.reasoningTokens
  | .total => none

/-- What the parsers read of a member. -/
def narrow (x : Option Value) : Nat := ((x.bind Value.asU64).map (· % 2 ^ 32)).getD 0

theorem narrow_eq_iff {x : Option Value} (h : ∀ v, x = some v → (natOf v).isSome) :
    narrow x = (x.bind natOf).getD 0 ↔ (x.bind natOf).getD 0 < 2 ^ 32 := by
  cases x with
  | none => simp [narrow]
  | some v =>
      obtain ⟨n, hn⟩ := Option.isSome_iff_exists.mp (h v rfl)
      unfold natOf at hn
      split at hn
      · split_ifs at hn with hWord
        simp only [narrow, Option.bind_some, Value.asU64, natOf, hWord, if_true,
          Option.map_some, Option.getD_some]
        omega
      · -- a count of more than 64 bits is not read at all
        split_ifs at hn with hWord
        simp only [narrow, Option.bind_some, Value.asU64, natOf, hWord, if_true,
          Option.map_none, Option.getD_none, Option.getD_some]
        omega
      · cases hn

theorem narrow_nested (details : Option Value) (key : String) :
    (details.bind (optU32 · key)).getD 0 = narrow (details.bind (·.get key)) := by
  cases details <;> rfl

theorem count_parseUsage (f : WireFormat) (v : Value) (timings : Option Value) (c : Count)
    (hPart : c ≠ .total) :
    (parseUsage f v timings).count c = some (narrow (memberAt v (c.path f))) := by
  cases f <;> cases c <;> first
    | exact absurd rfl hPart
    | rfl
    | exact congrArg some (narrow_nested _ _)

/-! ### Emission -/

/-- The usage object of a Gemini body. -/
def geminiUsage (u : Usage) : Value :=
  obj [("promptTokenCount", .nat u.inputTokens), ("candidatesTokenCount", .nat u.outputTokens),
    ("totalTokenCount", .nat ((u.inputTokens + u.outputTokens) % 2 ^ 32)),
    ("cachedContentTokenCount", .nat u.cacheReadTokens)]

/-- The usage objects that a surface writes for a usage: in a body, and at the
end of a stream. -/
def written (surface : WireFormat) (u : Usage) : List Value :=
  match surface with
  | .anthropic => [Anthropic.emitUsage u, obj [("output_tokens", .nat u.outputTokens)]]
  | .openaiChat => [OpenaiChat.emitUsage u]
  | .openaiResponses => [OpenaiResponses.usageValue u]
  | .gemini => [geminiUsage u,
      obj [("promptTokenCount", .nat u.inputTokens),
        ("candidatesTokenCount", .nat u.outputTokens),
        ("totalTokenCount", .nat ((u.inputTokens + u.outputTokens) % 2 ^ 32))]]

/-- A surface's whole body. -/
def body (surface : WireFormat) (resp : ChatResponse) : Value :=
  match surface with
  | .anthropic => Anthropic.emitResponse resp
  | .openaiChat => OpenaiChat.emitResponse resp
  | .openaiResponses => OpenaiResponses.emitResponse resp
  | .gemini => Gemini.emitResponse resp

def bodyUsage (surface : WireFormat) (v : Value) : Option Value :=
  match surface with
  | .gemini => v.get "usageMetadata"
  | _ => v.get "usage"

theorem bodyUsage_gemini (resp : ChatResponse) :
    bodyUsage .gemini (body .gemini resp) = some (geminiUsage resp.usage) := by
  simp only [bodyUsage, body, Gemini.emitResponse, geminiUsage, get_obj, List.foldl_cons,
    List.foldl_nil, String.reduceEq, if_false, if_true]

theorem bodyUsage_mem {surface : WireFormat} {resp : ChatResponse} {o : Value}
    (h : bodyUsage surface (body surface resp) = some o) : o ∈ written surface resp.usage := by
  cases surface
  case anthropic =>
    simp only [bodyUsage, body, Anthropic.emitResponse, get_obj, List.foldl_cons,
      List.foldl_nil, String.reduceEq, if_false, if_true, Option.some.injEq] at h
    exact h ▸ List.mem_cons_self
  case openaiChat =>
    simp only [bodyUsage, body, OpenaiChat.emitResponse, get_obj, List.foldl_cons,
      List.foldl_nil, String.reduceEq, if_false, if_true, Option.some.injEq] at h
    exact h ▸ List.mem_cons_self
  case openaiResponses =>
    have hKeys : "usage" ∉
        (OpenaiResponses.cacheFields resp.promptCacheKey resp.promptCacheRetention).map
          Prod.fst := by
      unfold OpenaiResponses.cacheFields
      cases resp.promptCacheKey <;> simp
    simp only [bodyUsage, body, OpenaiResponses.emitResponse, get_obj_append hKeys, get_obj,
      List.foldl_cons, List.foldl_nil, String.reduceEq, if_false, if_true,
      Option.some.injEq] at h
    exact h ▸ List.mem_cons_self
  case gemini =>
    rw [bodyUsage_gemini, Option.some.injEq] at h
    exact h ▸ List.mem_cons_self

/-- A usage's own count, the total in 32 bits. -/
def Usage.shown (u : Usage) : Count → Nat
  | .total => (u.inputTokens + u.outputTokens) % 2 ^ 32
  | c => (u.count c).getD 0

theorem total_geminiUsage (u : Usage) :
    memberAt (geminiUsage u) (Count.total.path .gemini) =
      some (.nat ((u.inputTokens + u.outputTokens) % 2 ^ 32)) := by
  simp only [memberAt, Count.path, geminiUsage, get_obj, List.foldl_cons, List.foldl_nil,
    String.reduceEq, if_false, if_true]

theorem natOf_total (n : Nat) : natOf (.nat (n % 2 ^ 32)) = some (n % 2 ^ 32) :=
  if_pos (lt_trans (Nat.mod_lt _ (by decide)) (by decide))

theorem memberAt_written {surface : WireFormat} {u : Usage} {o x : Value} {c : Count}
    (ho : o ∈ written surface u) (hx : memberAt o (c.path surface) = some x) :
    x = .nat (u.shown c) := by
  cases surface <;> simp only [written, List.mem_cons, List.not_mem_nil, or_false] at ho
  case anthropic =>
    rcases ho with rfl | rfl <;> cases c <;>
      simp only [Count.path, memberAt, Anthropic.emitUsage, get_obj, List.foldl_cons,
        List.foldl_nil, String.reduceEq, if_false, if_true, Option.some.injEq,
        reduceCtorEq] at hx <;>
      exact hx.symm
  case openaiChat =>
    subst ho
    unfold OpenaiChat.emitUsage at hx
    split_ifs at hx <;> cases c <;>
      simp only [Count.path, memberAt, get_obj, List.foldl_cons, List.foldl_nil,
        List.foldl_append, String.reduceEq, if_false, if_true, Option.some.injEq,
        Option.bind_some, Option.bind_none, reduceCtorEq] at hx <;>
      exact hx.symm
  case openaiResponses =>
    subst ho
    cases c <;>
      simp only [Count.path, memberAt, OpenaiResponses.usageValue, get_obj, List.foldl_cons,
        List.foldl_nil, String.reduceEq, if_false, if_true, Option.some.injEq,
        Option.bind_some] at hx <;>
      exact hx.symm
  case gemini =>
    rcases ho with rfl | rfl <;> cases c <;>
      simp only [Count.path, memberAt, geminiUsage, get_obj, List.foldl_cons, List.foldl_nil,
        String.reduceEq, if_false, if_true, Option.some.injEq, reduceCtorEq] at hx <;>
      exact hx.symm

/-! ### Streams -/

/-- The frames in which a surface's stream ends with a usage. -/
inductive Ends : WireFormat → Usage → List Frame → Prop where
  | anthropic (state : Anthropic.EmitState) (stop : StopReason) :
      Ends .anthropic state.usage (Anthropic.encodeEvent state (.done stop)).1
  | openaiChat (state : OpenaiChat.EmitState) (u : Usage) :
      Ends .openaiChat u [OpenaiChat.writeUsageChunk state u]
  | openaiResponses (state : OpenaiResponses.EmitState) (u : Usage) (hu : state.usage = some u) :
      Ends .openaiResponses u (OpenaiResponses.writeCompleted state).1
  | gemini (state : Gemini.EmitState) (u : Usage) (hu : state.usage = some u)
      (stop : StopReason) : Ends .gemini u (Gemini.encodeEvent state (.done stop)).1

/-- The usage object of a stream's document. -/
def streamUsage (surface : WireFormat) (v : Value) : Option Value :=
  match surface with
  | .gemini => v.get "usageMetadata"
  | .openaiResponses => (v.get "response").bind (·.get "usage")
  | _ => v.get "usage"

/-- Frames without a usage object. -/
def Silent (surface : WireFormat) (frames : List Frame) : Prop :=
  ∀ f ∈ frames, ∀ v, f.payload = .json v → streamUsage surface v = none

theorem silent_nil (surface : WireFormat) : Silent surface [] := nofun

theorem silent_ensureStarted (state : Anthropic.EmitState) :
    Silent .anthropic (Anthropic.ensureStarted state).1 := by
  unfold Anthropic.ensureStarted
  split_ifs
  · exact silent_nil _
  · intro f hf v hv
    rw [Anthropic.emitMessageStart, List.mem_singleton] at hf
    subst hf
    cases hv
    simp only [streamUsage, get_obj, List.foldl_cons, List.foldl_nil, String.reduceEq, if_false]

theorem silent_closeOpen (state : Anthropic.EmitState) :
    Silent .anthropic (Anthropic.closeOpen state).1 := by
  unfold Anthropic.closeOpen
  cases state.open with
  | none => exact silent_nil _
  | some kind =>
      intro f hf v hv
      rw [List.mem_singleton] at hf
      subst hf
      cases hv
      simp only [streamUsage, get_obj, List.foldl_cons, List.foldl_nil, String.reduceEq, if_false]

theorem silent_flushTool (state : Gemini.EmitState) : Silent .gemini state.flushTool.1 := by
  unfold Gemini.EmitState.flushTool
  cases state.pendingTool with
  | none => exact silent_nil _
  | some call =>
      intro f hf v hv
      rw [List.mem_singleton] at hf
      subst hf
      cases hv
      simp only [streamUsage, get_obj, List.foldl_cons, List.foldl_nil, String.reduceEq, if_false]

theorem streamUsage_mem {surface : WireFormat} {u : Usage} {frames : List Frame} {f : Frame}
    {v o : Value} (hEnds : Ends surface u frames) (hf : f ∈ frames) (hv : f.payload = .json v)
    (ho : streamUsage surface v = some o) : o ∈ written surface u := by
  cases hEnds with
  | anthropic state stop =>
      have hUsage : (Anthropic.closeOpen (Anthropic.ensureStarted state).2).2.usage =
          state.usage := by
        unfold Anthropic.closeOpen Anthropic.ensureStarted Anthropic.emitMessageStart
        split_ifs <;> split <;> rfl
      rw [Anthropic.encodeEvent] at hf
      dsimp only at hf
      rw [hUsage, List.mem_append, List.mem_append] at hf
      rcases hf with (hf | hf) | hf
      · rw [silent_ensureStarted state f hf v hv] at ho
        cases ho
      · rw [silent_closeOpen _ f hf v hv] at ho
        cases ho
      · rw [List.mem_pair] at hf
        rcases hf with rfl | rfl <;> cases hv <;>
          simp only [streamUsage, get_obj, List.foldl_cons, List.foldl_nil, String.reduceEq,
            if_false, if_true, Option.some.injEq, reduceCtorEq] at ho
        exact ho ▸ List.mem_cons_of_mem _ List.mem_cons_self
  | openaiChat state u =>
      rw [List.mem_singleton] at hf
      subst hf
      cases hv
      simp only [streamUsage, OpenaiChat.envelope, get_obj, List.foldl_append, List.foldl_cons,
        List.foldl_nil, String.reduceEq, if_false, if_true, Option.some.injEq] at ho
      exact ho ▸ List.mem_cons_self
  | openaiResponses state u hu =>
      have hKeys : "usage" ∉
          (OpenaiResponses.cacheFields state.promptCacheKey state.promptCacheRetention).map
            Prod.fst := by
        unfold OpenaiResponses.cacheFields
        cases state.promptCacheKey <;> simp
      rw [OpenaiResponses.writeCompleted, OpenaiResponses.writeEvent, List.mem_singleton] at hf
      subst hf
      cases hv
      simp only [streamUsage, OpenaiResponses.EmitState.responseObj, hu, get_obj,
        List.foldl_append, List.foldl_cons, List.foldl_nil, String.reduceEq, if_false, if_true,
        Option.bind_some, get_obj_append hKeys, Option.map_some, Option.getD_some,
        Option.some.injEq] at ho
      exact ho ▸ List.mem_cons_self
  | gemini state u hu stop =>
      have hUsage : state.flushTool.2.usage = state.usage := by
        unfold Gemini.EmitState.flushTool
        split <;> rfl
      rw [Gemini.encodeEvent] at hf
      dsimp only at hf
      rw [hUsage, hu, List.mem_append] at hf
      rcases hf with hf | hf
      · rw [silent_flushTool state f hf v hv] at ho
        cases ho
      · rw [List.mem_singleton] at hf
        subst hf
        cases hv
        simp only [streamUsage, get_obj, List.foldl_cons, List.foldl_nil, String.reduceEq,
          if_false, if_true, Option.some.injEq] at ho
        exact ho ▸ List.mem_cons_of_mem _ List.mem_cons_self

/-! ### Agreement -/

/-- Every count that a surface shows is the one that the upstream reported. -/
def CountsAgree (f surface : WireFormat) (v o : Value) : Prop :=
  ∀ (c : Count) (x : Value), memberAt o (c.path surface) = some x →
    natOf x = some (reported f v c)

theorem counts_agree_iff (f : WireFormat) (v : Value) (timings : Option Value)
    (hIntegral : Integral f v) :
    ((∀ c, c ≠ .total → (parseUsage f v timings).count c = some (reported f v c)) ∧
      (∀ surface resp o, resp.usage = parseUsage f v timings →
        bodyUsage surface (body surface resp) = some o → CountsAgree f surface v o) ∧
      ∀ surface frames fr w o, Ends surface (parseUsage f v timings) frames → fr ∈ frames →
        fr.payload = .json w → streamUsage surface w = some o → CountsAgree f surface v o) ↔
      ∀ c, reported f v c < 2 ^ 32 := by
  have hParsed : ∀ c, c ≠ .total →
      ((parseUsage f v timings).count c = some (reported f v c) ↔ reported f v c < 2 ^ 32) := by
    intro c hPart
    have hReported : reported f v c = ((memberAt v (c.path f)).bind natOf).getD 0 := by
      cases c <;> first | rfl | exact absurd rfl hPart
    rw [count_parseUsage f v timings c hPart, hReported, Option.some.injEq]
    exact narrow_eq_iff (hIntegral c)
  constructor
  · rintro ⟨hCounts, hBodies, -⟩ c
    by_cases hPart : c = .total
    · -- a Gemini body shows the total, which has 32 bits
      subst hPart
      have hTotal := hBodies .gemini
        ⟨[], [], [], .endTurn, parseUsage f v timings, none, none⟩ _
        rfl (bodyUsage_gemini _) .total _ (total_geminiUsage _)
      rw [natOf_total, Option.some.injEq] at hTotal
      exact hTotal ▸ Nat.mod_lt _ (by decide)
    · exact (hParsed c hPart).mp (hCounts c hPart)
  · intro hBound
    have hCounts : ∀ c, c ≠ .total →
        (parseUsage f v timings).count c = some (reported f v c) :=
      fun c hPart => (hParsed c hPart).mpr (hBound c)
    have hShown : ∀ c, (parseUsage f v timings).shown c = reported f v c := by
      intro c
      by_cases hPart : c = .total
      · subst hPart
        have hInput := Option.some.inj (hCounts .input (by decide))
        have hOutput := Option.some.inj (hCounts .output (by decide))
        have hSum : (parseUsage f v timings).inputTokens + (parseUsage f v timings).outputTokens =
            reported f v .total := congrArg₂ (· + ·) hInput hOutput
        rw [Usage.shown, hSum]
        exact Nat.mod_eq_of_lt (hBound .total)
      · have hCount := hCounts c hPart
        cases c <;> first | exact absurd rfl hPart | exact Option.some.inj hCount
    have hWritten : ∀ surface, ∀ o ∈ written surface (parseUsage f v timings),
        CountsAgree f surface v o := by
      intro surface o ho c x hx
      rw [memberAt_written ho hx, hShown c]
      exact if_pos (lt_trans (hBound c) (by decide))
    refine ⟨hCounts, ?_, ?_⟩
    · intro surface resp o hResp ho
      exact hWritten surface o (hResp ▸ bodyUsage_mem ho)
    · intro surface frames fr w o hEnds hfr hw ho
      exact hWritten surface o (streamUsage_mem hEnds hfr hw ho)

/-- An answer of seven tokens to three. -/
def smallUsage : Value := obj [("prompt_tokens", .nat 3), ("completion_tokens", .nat 7)]

theorem counts_agree_small :
    (∀ c, reported .openaiChat smallUsage c < 2 ^ 32) ∧
      CountsAgree .openaiChat .gemini smallUsage
        (geminiUsage (parseUsage .openaiChat smallUsage none)) :=
  have hBound : ∀ c, reported .openaiChat smallUsage c < 2 ^ 32 := by
    intro c
    cases c <;> decide +kernel
  ⟨hBound, ((counts_agree_iff .openaiChat smallUsage none (by decide +kernel)).mpr hBound).2.1
    .gemini ⟨[], [], [], .endTurn, parseUsage .openaiChat smallUsage none, none, none⟩ _ rfl
    (bodyUsage_gemini _)⟩

/-- One prompt token more than fits into 32 bits, and one answered token to as
many as fit. -/
def wideUsage : Value := obj [("prompt_tokens", .nat (2 ^ 32))]

def fullUsage : Value := obj [("prompt_tokens", .nat (2 ^ 32 - 1)), ("completion_tokens", .nat 1)]

theorem wide_counts_narrowed :
    Integral .openaiChat wideUsage ∧
      (parseUsage .openaiChat wideUsage none).count .input = some 0 ∧
      reported .openaiChat wideUsage .input = 4294967296 ∧
      Integral .openaiChat fullUsage ∧
      reported .openaiChat fullUsage .total = 4294967296 ∧
      memberAt (geminiUsage (parseUsage .openaiChat fullUsage none)) (Count.total.path .gemini) =
        some (.nat 0) := by
  decide +kernel

end Gateway.Wire
