import Gateway.Service.Attempts
import Gateway.Service.RoutingTable

/-! What the discovery endpoints list for a policy, and what requests under the
policy are sent to. The one reads the stored deployments, the other goes through
the routing table. -/
namespace Gateway.Server

open Json Store Service

def modeOf : UpstreamFormat → Str
  | .chat _ => "chat".toList
  | .embed _ => "embedding".toList
  | .media .openaiImages => "image_generation".toList
  | .media .openaiSpeech => "audio_speech".toList
  | .media .openaiTranscription => "audio_transcription".toList
  | .media .openaiVideos => "video_generation".toList

/-- A model with what its reachable deployments say it does. -/
structure ListedModel where
  name : Str
  mode : Str
  vision : Bool

/-- A deployment is listed under its model's name, once for all of them. -/
def listDeployment (access : AccessPolicy) (models : List ListedModel) (d : Deployment) :
    List ListedModel :=
  if !access.permitsModel d.modelId || !access.permitsProvider d.providerId then models
  else if models.any (·.name == d.modelName) then
    models.map fun m => if m.name == d.modelName then { m with vision := m.vision || d.vision } else m
  else models ++ [{ name := d.modelName, mode := modeOf d.upstreamFormat, vision := d.vision }]

def listedModels (c : Catalog) (access : AccessPolicy) : List ListedModel :=
  c.listDeployments.foldl (listDeployment access) []

def modelNames (c : Catalog) (access : AccessPolicy) : List Str :=
  (listedModels c access).map ListedModel.name

/-- The context of a call, with the policy in force for its key. -/
def requestContext (apiKeyId userId : Id) (teamId : Option Id) (requestId : Str)
    (access : AccessPolicy) (tokenMeter : Bool) : RequestCtx where
  apiKeyId := some apiKeyId
  userId := some userId
  teamId := teamId
  requestId := requestId
  access := access
  excludedModelIds := []
  excludedProviderIds := []
  tokenMeter := tokenMeter

/-! ### Listing -/

theorem listDeployment_names (access : AccessPolicy) (models : List ListedModel) (d : Deployment)
    (name : Str) :
    name ∈ (listDeployment access models d).map ListedModel.name ↔
      name ∈ models.map ListedModel.name ∨
        (access.permitsPair d.modelId d.providerId = true ∧ d.modelName = name) := by
  unfold listDeployment AccessPolicy.permitsPair
  cases access.permitsModel d.modelId with
  | false => simp
  | true =>
      cases access.permitsProvider d.providerId with
      | false => simp
      | true =>
          by_cases hKnown : models.any (·.name == d.modelName) = true
          · have hNames : (models.map fun m => if m.name == d.modelName then
                { m with vision := m.vision || d.vision } else m).map ListedModel.name =
                models.map ListedModel.name := by
              rw [List.map_map]
              apply List.map_congr_left
              intro m _
              simp only [Function.comp_apply]
              split <;> rfl
            have hIn : d.modelName ∈ models.map ListedModel.name := by
              obtain ⟨m, hm, hName⟩ := List.any_eq_true.mp hKnown
              exact List.mem_map.mpr ⟨m, hm, beq_iff_eq.mp hName⟩
            simp only [Bool.not_true, Bool.or_self, Bool.false_eq_true, if_false, hKnown, if_true,
              Bool.and_self, true_and]
            rw [hNames]
            constructor
            · exact Or.inl
            · rintro (h | rfl)
              · exact h
              · exact hIn
          · simp [hKnown, eq_comm]

/-- A model is listed just if the policy permits one of its deployments. -/
theorem mem_modelNames (c : Catalog) (access : AccessPolicy) (name : Str) :
    name ∈ modelNames c access ↔ ∃ d ∈ c.listDeployments,
      access.permitsPair d.modelId d.providerId = true ∧ d.modelName = name := by
  have hFold : ∀ (ds : List Deployment) (models : List ListedModel),
      name ∈ (ds.foldl (listDeployment access) models).map ListedModel.name ↔
        name ∈ models.map ListedModel.name ∨ ∃ d ∈ ds,
          access.permitsPair d.modelId d.providerId = true ∧ d.modelName = name := by
    intro ds
    induction ds with
    | nil => simp
    | cons d rest ih =>
        intro models
        rw [List.foldl_cons, ih, listDeployment_names, or_assoc]
        simp only [List.mem_cons, exists_eq_or_imp]
  exact (hFold c.listDeployments []).trans (by simp)

/-! ### Routing under the policy -/

/-- A deployment that the policy permits is eligible for a request under it. -/
theorem eligible_of_permitted {ctx : RequestCtx} (hModels : ctx.excludedModelIds = [])
    (hProviders : ctx.excludedProviderIds = []) {d : Deployment}
    (hPermits : ctx.access.permitsPair d.modelId d.providerId = true) (name : Str) :
    (buildRouteRequest name ctx).eligible d = true := by
  simp only [AccessPolicy.permitsPair, Bool.and_eq_true, AccessPolicy.permitsModel,
    AccessPolicy.permitsProvider, permits_iff] at hPermits
  obtain ⟨⟨hModel, -⟩, hProvider, hAllowed⟩ := hPermits
  have hNotExcluded : d.modelId ∉ union ctx.excludedModelIds ctx.access.deniedModelIds := by
    rw [mem_union, hModels]
    exact fun h => h.elim List.not_mem_nil hModel
  have hNotDenied : d.providerId ∉ union ctx.excludedProviderIds ctx.access.deniedProviderIds := by
    rw [mem_union, hProviders]
    exact fun h => h.elim List.not_mem_nil hProvider
  unfold RouteRequest.eligible buildRouteRequest
  rcases hAllowed with hNone | hIn
  · simp [hNotExcluded, hNotDenied, hNone]
  · have hSome : ctx.access.allowedProviderIds ≠ [] := List.ne_nil_of_mem hIn
    simp [hNotExcluded, hNotDenied, hSome, hIn]

/-- Deployments of one target are permitted alike. -/
theorem permitsPair_of_identity {access : AccessPolicy} {d d' : Deployment}
    (hSame : identity d' = identity d)
    (hPermits : access.permitsPair d.modelId d.providerId = true) :
    access.permitsPair d'.modelId d'.providerId = true := by
  have hProvider : d'.providerId = d.providerId := congrArg Prod.fst hSame
  have hModel : d'.modelId = d.modelId := congrArg (fun k => k.2.2) hSame
  rwa [hProvider, hModel]

section

variable (powf : Rat → Rat → Rat) {c : Catalog} {fallbacks : Str → Option (List Str)}
  {strategy : Strategy} {r : DeploymentRouter}

/-- A permitted deployment's model resolves to a permitted candidate. -/
theorem resolves_of_permitted (hLoaded : (Snapshot.load c fallbacks strategy).Same r.snapshot)
    {ctx : RequestCtx} (hModels : ctx.excludedModelIds = [])
    (hProviders : ctx.excludedProviderIds = []) {d : Deployment} (hd : d ∈ c.listDeployments)
    (hPermits : ctx.access.permitsPair d.modelId d.providerId = true) :
    ∃ decision, (r.resolve powf (buildRouteRequest d.modelName ctx)).1 = .ok decision ∧
      ∃ d' ∈ filterAccess decision.candidates ctx, identity d' = identity d := by
  have hIn : d ∈ (Snapshot.load c fallbacks strategy).deployments d.modelName := by
    rw [Snapshot.load, deployments_build]
    exact List.mem_filter.mpr ⟨hd, beq_self_eq_true _⟩
  have hLive : ((Snapshot.load c fallbacks strategy).models d.modelName).isSome = true := by
    rw [Snapshot.load, models_build_isSome]
    exact List.any_eq_true.mpr ⟨d, hd, beq_self_eq_true _⟩
  have hName : (Snapshot.load c fallbacks strategy).canonical d.modelName = d.modelName := by
    rw [Snapshot.canonical, Snapshot.follow, if_pos hLive]
  have hReach : r.snapshot.Reaches (buildRouteRequest d.modelName ctx) (identity d) := by
    apply (hLoaded.reaches _ _).mpr
    refine ⟨d.modelName, ?_, d, ?_, rfl⟩
    · show d.modelName ∈ _ :: _
      rw [show (buildRouteRequest d.modelName ctx).requestedModel = d.modelName from rfl, hName]
      exact List.mem_cons_self
    · exact List.mem_filter.mpr ⟨hIn, eligible_of_permitted hModels hProviders hPermits _⟩
  have hResolve := resolve_reaches powf r (buildRouteRequest d.modelName ctx)
  cases hResult : (r.resolve powf (buildRouteRequest d.modelName ctx)).1 with
  | error e =>
      rw [hResult] at hResolve
      exact absurd hReach (hResolve _)
  | ok decision =>
      rw [hResult] at hResolve
      obtain ⟨d', hd', hSame⟩ := List.mem_map.mp ((hResolve.2 _).mpr hReach)
      refine ⟨decision, rfl, d', ?_, hSame⟩
      have hPair := permitsPair_of_identity hSame hPermits
      rw [AccessPolicy.permitsPair, Bool.and_eq_true] at hPair
      apply List.mem_filter.mpr
      simp [hd', hPair.1, hPair.2, hModels, hProviders]

/-- Every model that discovery lists for a policy resolves to a candidate that
the policy permits, and no candidate of any request under the policy is one that
it does not, fallbacks included; nobody else is sent a request. -/
theorem listed_resolves_permitted (hLoaded : (Snapshot.load c fallbacks strategy).Same r.snapshot)
    (apiKeyId userId : Id) (teamId : Option Id) (requestId : Str) (access : AccessPolicy)
    (tokenMeter : Bool) :
    let ctx := requestContext apiKeyId userId teamId requestId access tokenMeter
    (∀ name ∈ modelNames c access, ∃ decision,
        (r.resolve powf (buildRouteRequest name ctx)).1 = .ok decision ∧
          ∃ d ∈ filterAccess decision.candidates ctx,
            access.permitsPair d.modelId d.providerId = true) ∧
      (∀ name decision, (r.resolve powf (buildRouteRequest name ctx)).1 = .ok decision →
        ∀ d ∈ filterAccess decision.candidates ctx,
          access.permitsPair d.modelId d.providerId = true) ∧
      ∀ t : Inbound, t.ctx = ctx →
        t.resolved = (r.resolve powf (buildRouteRequest t.chat.model ctx)).1.map
          Decision.candidates →
        ∀ inputs, ∀ d ∈ sentTo (t.run inputs).1,
          access.permitsPair d.modelId d.providerId = true := by
  intro ctx
  refine ⟨?_, ?_, ?_⟩
  · intro name hName
    obtain ⟨d, hd, hPermits, rfl⟩ := (mem_modelNames c access name).mp hName
    have hModels : ctx.excludedModelIds = [] := rfl
    have hProviders : ctx.excludedProviderIds = [] := rfl
    obtain ⟨decision, hResolve, d', hIn, hSame⟩ :=
      resolves_of_permitted powf hLoaded hModels hProviders hd hPermits
    exact ⟨decision, hResolve, d', hIn, permitsPair_of_identity hSame hPermits⟩
  · intro name decision _ d hd
    exact permitsPair_of_mem_filterAccess hd
  · intro t hCtx hResolved inputs d hd
    have hIn := t.sent_subset inputs hd
    rw [Inbound.candidates] at hIn
    split at hIn
    · exact absurd hIn List.not_mem_nil
    · have hPermits := permitsPair_of_mem_filterAccess hIn
      rwa [hCtx] at hPermits

end

/-- One model with one deployment. -/
def oneModel : Catalog where
  models := [⟨"1".toList, "a".toList⟩]
  providers := [{ id := "p".toList, name := "p".toList }]
  deployments :=
    [{ id := "d".toList, modelId := "1".toList, providerId := "p".toList,
       upstreamModel := "u".toList }]

/-- Its name is listed for a policy that allows the provider, and is served. -/
theorem oneModel_served :
    let r : DeploymentRouter :=
      { snapshot := Snapshot.load oneModel (fun _ => none) .roundRobin, rng := 1 }
    let access : AccessPolicy := { allowedProviderIds := ["p".toList] }
    let ctx := requestContext [] [] none [] access false
    "a".toList ∈ modelNames oneModel access ∧
      ∃ decision, (r.resolve (fun u _ => u) (buildRouteRequest "a".toList ctx)).1 = .ok decision ∧
        ∃ d ∈ filterAccess decision.candidates ctx,
          access.permitsPair d.modelId d.providerId = true :=
  ⟨by decide, (listed_resolves_permitted (fun u _ => u) (.refl _) [] [] none [] _ false).1
    "a".toList (by decide)⟩

end Gateway.Server
