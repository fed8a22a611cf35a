import Gateway.Core.Routing
import Gateway.Wire.Anthropic.Request
import Gateway.Wire.Embed.Requests
import Gateway.Wire.Gemini.Request
import Gateway.Wire.Media
import Gateway.Wire.OpenaiResponses.Emit
import Mathlib.Data.List.Nodup

/-! The headers of a request to an upstream: those that the emitter gives, the
upstream's credential, the edge's service token, and a deployment's own. -/
namespace Gateway.Service

open Json Wire

abbrev Header := Str × Str

def headerOf (h : String × String) : Header := (h.1.toList, h.2.toList)

/-- Names that differ in case only are the same. -/
def headerName (h : Header) : Str := Media.toAsciiLowercase h.1

/-- The edge's service token. -/
structure CloudflareAccess where
  clientId : Str
  clientSecret : Str

/-- What a deployment asks for beyond its credential. -/
structure Extra where
  cloudflareAccess : Bool := false
  headers : List Header := []

/-- What is stored about calling a deployment. -/
structure CallSettings where
  format : UpstreamFormat
  upstreamModel : Str
  apiKey : Option Str := none
  extra : Extra := {}

inductive HealthCheck where
  | none
  | httpOk
  | modelsList
  | probe

/-- Why there is no request to check a deployment with. -/
inductive CheckError where
  | emit (e : WireError)
  | noProbe (f : MediaFormat)

def anthropicVersion : Str := "2023-06-01".toList

def bearer (secret : Str) : Header := ("authorization".toList, "Bearer ".toList ++ secret)

section

variable (environment : Str → Option Str)

/-- A stored key names a variable of the environment, or is the secret itself. -/
def upstreamSecret (apiKey : Str) : Str :=
  match stripPrefix "env:".toList apiKey with
  | some name => (environment name).getD []
  | none => apiKey

def authHeaders (fmt : WireFormat) (apiKey : Str) : List Header :=
  let secret := upstreamSecret environment apiKey
  match fmt with
  | .anthropic => [("x-api-key".toList, secret), ("anthropic-version".toList, anthropicVersion)]
  | .openaiChat | .openaiResponses => [bearer secret]
  | .gemini => [("x-goog-api-key".toList, secret)]

def embedAuthHeaders (fmt : EmbedFormat) (apiKey : Str) : List Header :=
  let secret := upstreamSecret environment apiKey
  match fmt with
  | .geminiEmbed => [("x-goog-api-key".toList, secret)]
  | .ollamaEmbed => if secret.isEmpty then [] else [bearer secret]
  | .openaiEmbed | .cohereEmbed | .voyageEmbed => [bearer secret]

def mediaAuthHeaders (apiKey : Str) : List Header := [bearer (upstreamSecret environment apiKey)]

end

def cloudflareAccessHeaders (cf : CloudflareAccess) : List Header :=
  [("cf-access-client-id".toList, cf.clientId), ("cf-access-client-secret".toList, cf.clientSecret)]

/-- Add a header unless its name is already there. -/
def appendHeader (headers : List Header) (h : Header) : List Header :=
  if headers.any fun e => headerName e = headerName h then headers else headers ++ [h]

def appendHeaders (headers extra : List Header) : List Header := extra.foldl appendHeader headers

/-- The service token, where the deployment asks for it and there is one. -/
def edgeHeaders (cfAccess : Option CloudflareAccess) (extra : Extra) : List Header :=
  if extra.cloudflareAccess then (cfAccess.map cloudflareAccessHeaders).getD [] else []

def literalHeaders (extra : Extra) : List Header :=
  extra.headers.map fun h => (Media.toAsciiLowercase h.1, h.2)

def extraHeaders (cfAccess : Option CloudflareAccess) (extra : Extra) : List Header :=
  edgeHeaders cfAccess extra ++ literalHeaders extra

/-! ### Requests -/

/-- The body and the headers of a chat request, by its format. -/
def emitChat (fmt : WireFormat) (req : ChatRequest) (opts : EmitOptions) : Str × List Header :=
  let (body, headers) := match fmt with
    | .anthropic => Anthropic.emitRequest req opts
    | .openaiChat => OpenaiChat.emitRequest req opts
    | .openaiResponses => OpenaiResponses.emitRequest req opts
    | .gemini => Gemini.emitRequest req opts
  (body, headers.map headerOf)

def emitEmbed (fmt : EmbedFormat) (req : Embed.EmbedRequest) (opts : Embed.EmbedEmitOptions) :
    Except WireError (Str × List Header) :=
  (Embed.emitRequest fmt req opts).map fun (body, headers) => (body, headers.map headerOf)

section

variable (environment : Str → Option Str) (cfAccess : Option CloudflareAccess)

/-- The headers of a chat turn, as `handle` sends them. -/
def chatHeaders (fmt : WireFormat) (apiKey : Option Str) (extra : Extra) (req : ChatRequest)
    (opts : EmitOptions) : List Header :=
  appendHeaders ((emitChat fmt req opts).2 ++ authHeaders environment fmt (apiKey.getD []))
    (extraHeaders cfAccess extra)

def embedHeaders (fmt : EmbedFormat) (apiKey : Option Str) (extra : Extra) (req : Embed.EmbedRequest)
    (opts : Embed.EmbedEmitOptions) : Except WireError (List Header) :=
  (emitEmbed fmt req opts).map fun (_, headers) =>
    appendHeaders (headers ++ embedAuthHeaders environment fmt (apiKey.getD []))
      (extraHeaders cfAccess extra)

def mediaHeaders (contentType : Str) (apiKey : Option Str) (extra : Extra) : List Header :=
  appendHeaders (("content-type".toList, contentType) ::
    mediaAuthHeaders environment (apiKey.getD [])) (extraHeaders cfAccess extra)

/-- The headers of a request about a video, which has no body. -/
def videoHeaders (apiKey : Option Str) (extra : Extra) : List Header :=
  appendHeaders (mediaAuthHeaders environment (apiKey.getD [])) (extraHeaders cfAccess extra)

/-- A turn of one token. -/
def probeChatRequest (model : Str) : ChatRequest where
  model
  maxTokens := some 1
  messages := [{ role := .user, content := [.text "ping".toList] }]

def probeEmbedRequest (model : Str) : Embed.EmbedRequest where
  model
  inputs := [⟨[.text "ping".toList]⟩]

def credential : UpstreamFormat → Str → List Header
  | .chat f, apiKey => authHeaders environment f apiKey
  | .embed f, apiKey => embedAuthHeaders environment f apiKey
  | .media _, apiKey => mediaAuthHeaders environment apiKey

/-- What the emitter of a probe gives. A probe of an image or of speech costs too
much. -/
def probeEmitted (dep : CallSettings) : Except CheckError (List Header) :=
  match dep.format with
  | .chat f => .ok (emitChat f (probeChatRequest dep.upstreamModel) ⟨dep.upstreamModel, none, false⟩).2
  | .embed f =>
      match emitEmbed f (probeEmbedRequest dep.upstreamModel) ⟨dep.upstreamModel⟩ with
      | .ok (_, headers) => .ok headers
      | .error e => .error (.emit e)
  | .media f => .error (.noProbe f)

/-- The headers of a deployment's health check, where one is configured. -/
def checkHeaders (dep : CallSettings) (check : HealthCheck) :
    Except CheckError (Option (List Header)) :=
  let auth := appendHeaders (credential environment dep.format (dep.apiKey.getD []))
    (extraHeaders cfAccess dep.extra)
  match check with
  | .none => .ok none
  | .httpOk | .modelsList => .ok (some auth)
  | .probe => (probeEmitted dep).map fun headers => some (headers ++ auth)

end

/-! ### Names -/

def Distinct (headers : List Header) : Prop := (headers.map headerName).Nodup

theorem appendHeader_eq (headers : List Header) (h : Header) :
    ∃ added, appendHeader headers h = headers ++ added ∧ added.Sublist [h] ∧
      (∀ e ∈ added, headerName e ∉ headers.map headerName) ∧
      headerName h ∈ (headers ++ added).map headerName := by
  unfold appendHeader
  split_ifs with hThere
  · refine ⟨[], (List.append_nil _).symm, List.nil_sublist _, by simp, ?_⟩
    obtain ⟨e, he, hSame⟩ := List.any_eq_true.mp hThere
    rw [List.append_nil, ← of_decide_eq_true hSame]
    exact List.mem_map_of_mem he
  · refine ⟨[h], rfl, List.Sublist.refl _, ?_, by simp⟩
    intro e he hMem
    obtain rfl := List.mem_singleton.mp he
    obtain ⟨f, hf, hSame⟩ := List.mem_map.mp hMem
    exact hThere (List.any_eq_true.mpr ⟨f, hf, decide_eq_true hSame⟩)

/-- What is added goes behind, has new names, each once, and stands for all names
there are. -/
theorem appendHeaders_eq (headers extra : List Header) :
    ∃ added, appendHeaders headers extra = headers ++ added ∧ added.Sublist extra ∧
      Distinct added ∧ (∀ e ∈ added, headerName e ∉ headers.map headerName) ∧
      ∀ h ∈ extra, headerName h ∈ (headers ++ added).map headerName := by
  induction extra generalizing headers with
  | nil => exact ⟨[], (List.append_nil _).symm, List.Sublist.refl _, List.nodup_nil, by simp, by simp⟩
  | cons h extra ih =>
      obtain ⟨first, hFirst, hSub, hNew, hHere⟩ := appendHeader_eq headers h
      obtain ⟨more, hMore, hSubs, hDistinct, hFresh, hAll⟩ := ih (headers ++ first)
      have hApart : ∀ e ∈ more, headerName e ∉ (headers.map headerName) ∧
          headerName e ∉ first.map headerName := by
        intro e he
        have hNot := hFresh e he
        rw [List.map_append, List.mem_append, not_or] at hNot
        exact hNot
      refine ⟨first ++ more, ?_, hSub.append hSubs, ?_, ?_, ?_⟩
      · rw [appendHeaders, List.foldl_cons, hFirst]
        exact hMore.trans (List.append_assoc _ _ _)
      · rw [Distinct, List.map_append, List.nodup_append]
        refine ⟨?_, hDistinct, ?_⟩
        · exact List.Nodup.sublist (hSub.map _) (List.nodup_singleton _)
        · rintro a ha b hb rfl
          obtain ⟨e, he, rfl⟩ := List.mem_map.mp hb
          exact (hApart e he).2 ha
      · intro e he
        rcases List.mem_append.mp he with he | he
        · exact hNew e he
        · exact (hApart e he).1
      · rw [← List.append_assoc]
        refine List.forall_mem_cons.mpr ⟨?_, hAll⟩
        rw [List.map_append]
        exact List.mem_append_left _ hHere

/-! ### What is sent -/

/-- Each name once, those that the gateway chose with their values, and a
deployment's own under other names only. -/
structure HeadersSound (chosen own sent : List Header) : Prop where
  once : Distinct sent
  kept : ∀ h ∈ chosen, h ∈ sent
  others : ∀ h ∈ sent, h ∈ chosen ∨ h ∈ own ∧ headerName h ∉ chosen.map headerName

theorem distinct_append {front back : List Header} :
    Distinct (front ++ back) ↔
      Distinct front ∧ Distinct back ∧ ∀ h ∈ back, headerName h ∉ front.map headerName := by
  rw [Distinct, List.map_append, List.nodup_append]
  constructor
  · rintro ⟨hFront, hBack, hApart⟩
    exact ⟨hFront, hBack, fun h hh hMem => hApart _ hMem _ (List.mem_map_of_mem hh) rfl⟩
  · rintro ⟨hFront, hBack, hApart⟩
    refine ⟨hFront, hBack, ?_⟩
    rintro a ha b hb rfl
    obtain ⟨h, hh, rfl⟩ := List.mem_map.mp hb
    exact hApart h hh ha

/-- New names that go behind others are all added. -/
theorem appendHeaders_fresh {headers extra : List Header} (hDistinct : Distinct extra)
    (hFresh : ∀ h ∈ extra, headerName h ∉ headers.map headerName) :
    appendHeaders headers extra = headers ++ extra := by
  induction extra generalizing headers with
  | nil => exact (List.append_nil _).symm
  | cons h extra ih =>
      obtain ⟨hNew, hRest⟩ := List.nodup_cons.mp hDistinct
      have hNone : appendHeader headers h = headers ++ [h] := by
        refine if_neg fun hThere => hFresh h List.mem_cons_self ?_
        obtain ⟨e, he, hSame⟩ := List.any_eq_true.mp hThere
        rw [← of_decide_eq_true hSame]
        exact List.mem_map_of_mem he
      have hMore : ∀ e ∈ extra, headerName e ∉ (headers ++ [h]).map headerName := by
        intro e he hMem
        rw [List.map_append, List.mem_append] at hMem
        rcases hMem with hMem | hMem
        · exact hFresh e (List.mem_cons_of_mem _ he) hMem
        · rw [List.map_singleton, List.mem_singleton] at hMem
          exact hNew (hMem ▸ List.mem_map_of_mem he)
      rw [appendHeaders, List.foldl_cons, hNone]
      show appendHeaders (headers ++ [h]) extra = _
      rw [ih hRest hMore, List.append_assoc]
      rfl

theorem appendHeaders_append (headers front back : List Header) :
    appendHeaders headers (front ++ back) = appendHeaders (appendHeaders headers front) back :=
  List.foldl_append

section

variable {front base edge own : List Header} (hEdge : Distinct edge)
  (hApart : ∀ h ∈ edge, headerName h ∉ (front ++ base).map headerName)

include hEdge hApart

/-- In front of headers that were taken together, others stand apart from a
deployment's own only if none has a name of theirs. -/
theorem sound_append_iff :
    HeadersSound (front ++ base ++ edge) own (front ++ appendHeaders base (edge ++ own)) ↔
      Distinct (front ++ base) ∧ ∀ h ∈ own, headerName h ∉ front.map headerName := by
  have hBase : ∀ h ∈ edge, headerName h ∉ base.map headerName := by
    intro h hh hMem
    exact hApart h hh (by rw [List.map_append]; exact List.mem_append_right _ hMem)
  rw [appendHeaders_append, appendHeaders_fresh hEdge hBase]
  obtain ⟨added, hSent, hSub, hDistinct, hNew, hAll⟩ := appendHeaders_eq (base ++ edge) own
  rw [hSent]
  constructor
  · rintro ⟨hOnce, -, -⟩
    have hParts := distinct_append.mp hOnce
    constructor
    · rw [← List.append_assoc, ← List.append_assoc] at hOnce
      exact (distinct_append.mp (distinct_append.mp hOnce).1).1
    · intro h hh hMem
      obtain ⟨e, he, hSame⟩ := List.mem_map.mp (hAll h hh)
      exact hParts.2.2 e he (hSame ▸ hMem)
  · rintro ⟨hFront, hOwn⟩
    have hChosen : Distinct (front ++ base ++ edge) := distinct_append.mpr ⟨hFront, hEdge, hApart⟩
    have hAdded : ∀ h ∈ added, headerName h ∉ (front ++ base ++ edge).map headerName := by
      intro h hh hMem
      rw [List.append_assoc, List.map_append, List.mem_append] at hMem
      exact hMem.elim (hOwn h (hSub.subset hh)) (hNew h hh)
    rw [← List.append_assoc, ← List.append_assoc]
    refine ⟨distinct_append.mpr ⟨hChosen, hDistinct, hAdded⟩,
      fun h hh => List.mem_append_left _ hh, fun h hh => ?_⟩
    rcases List.mem_append.mp hh with hh | hh
    · exact .inl hh
    · exact .inr ⟨hSub.subset hh, hAdded h hh⟩

end

/-- Behind headers that the gateway chose, a deployment's own add no name twice. -/
theorem sound_appendHeaders_iff {base edge own : List Header} (hEdge : Distinct edge)
    (hApart : ∀ h ∈ edge, headerName h ∉ base.map headerName) :
    HeadersSound (base ++ edge) own (appendHeaders base (edge ++ own)) ↔ Distinct base := by
  have hNone : ∀ h ∈ own, headerName h ∉ ([] : List Header).map headerName :=
    fun _ _ => List.not_mem_nil
  exact (@sound_append_iff [] base edge own hEdge hApart).trans (and_iff_left hNone)

/-! ### The names that the gateway chooses -/

/-- The names of credentials and of what describes a body. -/
def payloadNames : List Str :=
  ["content-type".toList, "anthropic-version".toList, "x-api-key".toList, "x-goog-api-key".toList,
    "authorization".toList]

theorem mem_edgeHeaders {cfAccess : Option CloudflareAccess} {extra : Extra} {h : Header}
    (hh : h ∈ edgeHeaders cfAccess extra) : headerName h ∉ payloadNames := by
  unfold edgeHeaders at hh
  split_ifs at hh
  · cases cfAccess with
    | none => cases hh
    | some cf =>
        simp only [Option.map_some, Option.getD_some, cloudflareAccessHeaders, List.mem_cons,
          List.not_mem_nil, or_false] at hh
        rcases hh with rfl | rfl
        · show "cf-access-client-id".toList ∉ payloadNames
          decide
        · show "cf-access-client-secret".toList ∉ payloadNames
          decide
  · cases hh

theorem distinct_edgeHeaders (cfAccess : Option CloudflareAccess) (extra : Extra) :
    Distinct (edgeHeaders cfAccess extra) := by
  unfold edgeHeaders
  split_ifs
  · cases cfAccess with
    | none => exact List.nodup_nil
    | some cf =>
        show ["cf-access-client-id".toList, "cf-access-client-secret".toList].Nodup
        decide
  · exact List.nodup_nil

/-- The service token's names are apart from those of a payload. -/
theorem edge_apart (cfAccess : Option CloudflareAccess) (extra : Extra) {base : List Header}
    (hBase : ∀ n ∈ base.map headerName, n ∈ payloadNames) :
    ∀ h ∈ edgeHeaders cfAccess extra, headerName h ∉ base.map headerName :=
  fun _ hh hMem => mem_edgeHeaders hh (hBase _ hMem)

section

variable (environment : Str → Option Str) (cfAccess : Option CloudflareAccess)

theorem chat_names (fmt : WireFormat) (apiKey : Str) (req : ChatRequest) (opts : EmitOptions) :
    ((emitChat fmt req opts).2 ++ authHeaders environment fmt apiKey).map headerName =
      match fmt with
      | .anthropic => ["content-type".toList, "anthropic-version".toList, "x-api-key".toList,
          "anthropic-version".toList]
      | .openaiChat | .openaiResponses => ["content-type".toList, "authorization".toList]
      | .gemini => ["content-type".toList, "x-goog-api-key".toList] := by
  cases fmt <;> rfl

theorem chat_names_payload (fmt : WireFormat) (apiKey : Str) (req : ChatRequest)
    (opts : EmitOptions) :
    ∀ n ∈ ((emitChat fmt req opts).2 ++ authHeaders environment fmt apiKey).map headerName,
      n ∈ payloadNames := by
  rw [chat_names]
  cases fmt <;> decide

/-- Only Anthropic's version is given twice, by the emitter and as a credential. -/
theorem distinct_chat_iff (fmt : WireFormat) (apiKey : Str) (req : ChatRequest)
    (opts : EmitOptions) :
    Distinct ((emitChat fmt req opts).2 ++ authHeaders environment fmt apiKey) ↔
      fmt ≠ .anthropic := by
  rw [Distinct, chat_names]
  cases fmt <;> decide

theorem embedAuthHeaders_names (fmt : EmbedFormat) (apiKey : Str) :
    (embedAuthHeaders environment fmt apiKey).map headerName ∈
      [[], ["authorization".toList], ["x-goog-api-key".toList]] := by
  unfold embedAuthHeaders
  cases fmt with
  | ollamaEmbed =>
      dsimp only
      split_ifs
      · exact List.mem_cons_self
      · exact List.mem_cons_of_mem _ List.mem_cons_self
  | geminiEmbed => exact List.mem_cons_of_mem _ (List.mem_cons_of_mem _ List.mem_cons_self)
  | openaiEmbed => exact List.mem_cons_of_mem _ List.mem_cons_self
  | cohereEmbed => exact List.mem_cons_of_mem _ List.mem_cons_self
  | voyageEmbed => exact List.mem_cons_of_mem _ List.mem_cons_self

theorem emitEmbed_headers {fmt : EmbedFormat} {req : Embed.EmbedRequest}
    {opts : Embed.EmbedEmitOptions} {body : Str} {headers : List Header}
    (h : emitEmbed fmt req opts = .ok (body, headers)) :
    headers = [("content-type".toList, "application/json".toList)] := by
  unfold emitEmbed Embed.emitRequest Embed.emitted at h
  cases hBody : Embed.emitBody fmt req opts with
  | error e =>
      rw [hBody] at h
      cases h
  | ok v =>
      rw [hBody] at h
      cases h
      rfl

/-- Behind the type of the body, a credential is of another name. -/
theorem typed_credential {typed auth : List Header}
    (hTyped : typed.map headerName = ["content-type".toList])
    (hAuth : auth.map headerName ∈ [[], ["authorization".toList], ["x-goog-api-key".toList]]) :
    Distinct (typed ++ auth) ∧ ∀ n ∈ (typed ++ auth).map headerName, n ∈ payloadNames := by
  rw [Distinct, List.map_append, hTyped]
  simp only [List.mem_cons, List.not_mem_nil, or_false] at hAuth
  rcases hAuth with hAuth | hAuth | hAuth <;> rw [hAuth] <;> decide

end

/-! ### Which requests are sound -/

theorem toLower_toLower (c : Char) : c.toLower.toLower = c.toLower := by
  by_cases hUpper : c.val ≥ 'A'.val ∧ c.val ≤ 'Z'.val
  · have hVal : c.toLower.val = c.val + ('a'.val - 'A'.val) := congrArg Char.val (dif_pos hUpper)
    have hLow := UInt32.le_iff_toNat_le.mp hUpper.1
    have hHigh := UInt32.le_iff_toNat_le.mp hUpper.2
    have hSum : c.toLower.val.toNat = c.val.toNat + 32 := by
      have hStep : ('a'.val - 'A'.val).toNat = 32 := rfl
      change c.val.toNat ≤ 90 at hHigh
      rw [hVal, UInt32.toNat_add, hStep]
      exact Nat.mod_eq_of_lt (by omega)
    generalize c.toLower = d at hSum
    refine dif_neg ?_
    rintro ⟨-, hd⟩
    have hAbove := UInt32.le_iff_toNat_le.mp hd
    change d.val.toNat ≤ 90 at hAbove
    change 65 ≤ c.val.toNat at hLow
    omega
  · have hSame : c.toLower = c := dif_neg hUpper
    rw [hSame, hSame]

theorem toAsciiLowercase_twice (s : Str) :
    Media.toAsciiLowercase (Media.toAsciiLowercase s) = Media.toAsciiLowercase s := by
  unfold Media.toAsciiLowercase
  rw [List.map_map]
  exact List.map_congr_left fun c _ => toLower_toLower c

theorem forall_literalHeaders {extra : Extra} {p : Str → Prop} :
    (∀ h ∈ literalHeaders extra, p (headerName h)) ↔
      ∀ h ∈ extra.headers, p (Media.toAsciiLowercase h.1) := by
  unfold literalHeaders
  rw [List.forall_mem_map]
  simp only [headerName, toAsciiLowercase_twice]

/-- What is sent keeps what the emitter and the credential gave, and the service
token. -/
def SoundFor (cfAccess : Option CloudflareAccess) (extra : Extra) (payload sent : List Header) : Prop :=
  HeadersSound (payload ++ edgeHeaders cfAccess extra) (literalHeaders extra) sent

theorem soundFor_appendHeaders_iff {cfAccess : Option CloudflareAccess} {extra : Extra}
    {payload : List Header} (hNames : ∀ n ∈ payload.map headerName, n ∈ payloadNames) :
    SoundFor cfAccess extra payload (appendHeaders payload (extraHeaders cfAccess extra)) ↔
      Distinct payload :=
  sound_appendHeaders_iff (distinct_edgeHeaders cfAccess extra) (edge_apart cfAccess extra hNames)

/-- A probe's emitter is not asked about the deployment's own headers. -/
theorem soundFor_probe_iff {cfAccess : Option CloudflareAccess} {extra : Extra}
    {emitted auth : List Header}
    (hNames : ∀ n ∈ (emitted ++ auth).map headerName, n ∈ payloadNames) :
    SoundFor cfAccess extra (emitted ++ auth)
        (emitted ++ appendHeaders auth (extraHeaders cfAccess extra)) ↔
      Distinct (emitted ++ auth) ∧
        ∀ h ∈ extra.headers, Media.toAsciiLowercase h.1 ∉ emitted.map headerName := by
  rw [← forall_literalHeaders (p := (· ∉ emitted.map headerName))]
  exact sound_append_iff (distinct_edgeHeaders cfAccess extra) (edge_apart cfAccess extra hNames)

/-- Where the emitter only gives the type of the body. -/
theorem soundFor_typed_iff {cfAccess : Option CloudflareAccess} {extra : Extra}
    {emitted auth : List Header}
    (hNames : ∀ n ∈ (emitted ++ auth).map headerName, n ∈ payloadNames)
    (hDistinct : Distinct (emitted ++ auth))
    (hTyped : emitted.map headerName = ["content-type".toList]) :
    SoundFor cfAccess extra (emitted ++ auth)
        (emitted ++ appendHeaders auth (extraHeaders cfAccess extra)) ↔
      ∀ h ∈ extra.headers, Media.toAsciiLowercase h.1 ≠ "content-type".toList := by
  rw [soundFor_probe_iff hNames, and_iff_right hDistinct, hTyped]
  simp only [List.mem_singleton]

section

variable (environment : Str → Option Str) (cfAccess : Option CloudflareAccess)

theorem emitChat_names {fmt : WireFormat} (h : fmt ≠ .anthropic) (req : ChatRequest)
    (opts : EmitOptions) : (emitChat fmt req opts).2.map headerName = ["content-type".toList] := by
  cases fmt with
  | anthropic => exact absurd rfl h
  | openaiChat => rfl
  | openaiResponses => rfl
  | gemini => rfl

theorem probe_sound_iff (dep : CallSettings) {emitted : List Header}
    (h : probeEmitted dep = .ok emitted) :
    SoundFor cfAccess dep.extra (emitted ++ credential environment dep.format (dep.apiKey.getD []))
        (emitted ++ appendHeaders (credential environment dep.format (dep.apiKey.getD []))
          (extraHeaders cfAccess dep.extra)) ↔
      dep.format ≠ .chat .anthropic ∧
        ∀ h ∈ dep.extra.headers, Media.toAsciiLowercase h.1 ≠ "content-type".toList := by
  unfold probeEmitted at h
  cases hFormat : dep.format with
  | chat f =>
      rw [hFormat] at h
      cases h
      have hNames := chat_names_payload environment f (dep.apiKey.getD [])
        (probeChatRequest dep.upstreamModel) ⟨dep.upstreamModel, none, false⟩
      have hDistinct := distinct_chat_iff environment f (dep.apiKey.getD [])
        (probeChatRequest dep.upstreamModel) ⟨dep.upstreamModel, none, false⟩
      by_cases hAnthropic : f = .anthropic
      · subst hAnthropic
        have hTwice := (@soundFor_probe_iff cfAccess dep.extra _ _ hNames).not.mpr
          fun hBoth => hDistinct.mp hBoth.1 rfl
        exact iff_of_false hTwice fun hBoth => hBoth.1 rfl
      · have hOther : UpstreamFormat.chat f ≠ .chat .anthropic :=
          fun hSame => hAnthropic (UpstreamFormat.chat.inj hSame)
        rw [and_iff_right hOther]
        exact soundFor_typed_iff hNames (hDistinct.mpr hAnthropic) (emitChat_names hAnthropic _ _)
  | embed f =>
      rw [hFormat] at h
      dsimp only at h
      split at h
      next body given hEmit =>
        cases h
        have hTyped : emitted.map headerName = ["content-type".toList] := by
          rw [emitEmbed_headers hEmit]
          rfl
        have hCredential := typed_credential hTyped
          (embedAuthHeaders_names environment f (dep.apiKey.getD []))
        rw [and_iff_right (by simp)]
        exact soundFor_typed_iff hCredential.2 hCredential.1 hTyped
      · cases h
  | media f =>
      rw [hFormat] at h
      cases h

/-- A request to an upstream carries each name once, with the gateway's own values,
unless it is a chat turn for Anthropic; a probe does so unless it is one for
Anthropic, or the deployment names the type of the body. -/
theorem headers_sound_iff (dep : CallSettings) :
    (∀ fmt req opts,
      SoundFor cfAccess dep.extra
          ((emitChat fmt req opts).2 ++ authHeaders environment fmt (dep.apiKey.getD []))
          (chatHeaders environment cfAccess fmt dep.apiKey dep.extra req opts) ↔
        fmt ≠ .anthropic) ∧
    (∀ fmt req opts sent, embedHeaders environment cfAccess fmt dep.apiKey dep.extra req opts = .ok sent →
      SoundFor cfAccess dep.extra
        (("content-type".toList, "application/json".toList) ::
          embedAuthHeaders environment fmt (dep.apiKey.getD [])) sent) ∧
    (∀ contentType,
      SoundFor cfAccess dep.extra
        (("content-type".toList, contentType) :: mediaAuthHeaders environment (dep.apiKey.getD []))
        (mediaHeaders environment cfAccess contentType dep.apiKey dep.extra)) ∧
    SoundFor cfAccess dep.extra (mediaAuthHeaders environment (dep.apiKey.getD []))
      (videoHeaders environment cfAccess dep.apiKey dep.extra) ∧
    ∀ emitted, probeEmitted dep = .ok emitted →
      ∃ sent, checkHeaders environment cfAccess dep .probe = .ok (some sent) ∧
        (SoundFor cfAccess dep.extra
            (emitted ++ credential environment dep.format (dep.apiKey.getD [])) sent ↔
          dep.format ≠ .chat .anthropic ∧
            ∀ h ∈ dep.extra.headers, Media.toAsciiLowercase h.1 ≠ "content-type".toList) := by
  refine ⟨fun fmt req opts => ?_, fun fmt req opts sent h => ?_, fun contentType => ?_, ?_,
    fun emitted h => ?_⟩
  · exact (soundFor_appendHeaders_iff (chat_names_payload environment fmt _ req opts)).trans
      (distinct_chat_iff environment fmt _ req opts)
  · unfold embedHeaders at h
    cases hEmit : emitEmbed fmt req opts with
    | error e =>
        rw [hEmit] at h
        cases h
    | ok emitted =>
        obtain ⟨body, headers⟩ := emitted
        rw [hEmit] at h
        cases h
        rw [emitEmbed_headers hEmit]
        have hCredential := @typed_credential [("content-type".toList, "application/json".toList)] _
          rfl (embedAuthHeaders_names environment fmt (dep.apiKey.getD []))
        exact (soundFor_appendHeaders_iff hCredential.2).mpr hCredential.1
  · refine (soundFor_appendHeaders_iff ?_).mpr ?_
    · show ∀ n ∈ ["content-type".toList, "authorization".toList], n ∈ payloadNames
      decide
    · show ["content-type".toList, "authorization".toList].Nodup
      decide
  · refine (soundFor_appendHeaders_iff ?_).mpr ?_
    · show ∀ n ∈ ["authorization".toList], n ∈ payloadNames
      decide
    · exact List.nodup_singleton _
  · refine ⟨_, ?_, probe_sound_iff environment cfAccess dep h⟩
    show (probeEmitted dep).map _ = _
    rw [h]
    rfl

end

/-- A turn for Anthropic carries its version twice, and a probe the type of its body
where the deployment names that too. -/
theorem version_twice :
    ¬SoundFor none {}
        ((emitChat .anthropic {} ⟨[], none, true⟩).2 ++
          authHeaders (fun _ => none) .anthropic "key".toList)
        (chatHeaders (fun _ => none) none .anthropic (some "key".toList) {} {} ⟨[], none, true⟩) ∧
    ∃ sent, checkHeaders (fun _ => none) none ⟨.chat .openaiChat, [], some "key".toList,
        ⟨false, [("Content-Type".toList, "text/plain".toList)]⟩⟩ .probe = .ok (some sent) ∧
      ¬Distinct sent := by
  have hVersion : ¬["content-type".toList, "anthropic-version".toList, "x-api-key".toList,
      "anthropic-version".toList].Nodup := by decide
  have hType : ¬["content-type".toList, "authorization".toList, "content-type".toList].Nodup := by
    decide
  exact ⟨fun h => hVersion h.once, _, rfl, hType⟩

end Gateway.Service
