import Gateway.Server.ImportTwice

/-! Settings that a models file carries on its deployments. They are hoisted onto
the providers, after the file's own blocks of providers. -/
namespace Gateway.Server

open Json Store Program Handler

/-- What a deployment would set its provider to. -/
def DeploymentConfig.given (dc : DeploymentConfig) : Settings where
  vision := dc.extra.vision
  apiBase := dc.apiBase
  apiKey := dc.apiKey
  extra := dc.extra

/-- A base, a key or an option of any kind is there. -/
def DeploymentConfig.gives (dc : DeploymentConfig) : Bool := carries dc || dc.extra.vision

/-- The first deployment of a provider that gives any settings. -/
def firstDonor (n : Str) (ds : List DeploymentConfig) : Option DeploymentConfig :=
  ds.find? fun dc => decide (dc.provider = n) && dc.gives

/-- The options of the one are options of the other. -/
structure KeepsOptions (e e' : Extra) : Prop where
  cloudflareAccess : e.cloudflareAccess = true → e'.cloudflareAccess = true
  headers : ∀ h ∈ e.headers, h ∈ e'.headers
  vision : e.vision = true → e'.vision = true
  rest : ∀ f ∈ e.rest, f ∈ e'.rest

theorem KeepsOptions.refl (e : Extra) : KeepsOptions e e :=
  ⟨id, fun _ h => h, id, fun _ h => h⟩

structure KeepsSettings (s s' : Settings) : Prop where
  apiBase : ∀ base, s.apiBase = some base → s'.apiBase = some base
  apiKey : ∀ key, s.apiKey = some key → s'.apiKey = some key
  extra : KeepsOptions s.extra s'.extra

/-- A provider with a block keeps what it is set to. One without gets what the
first of its deployments gives. -/
def HoistsTo (file : ModelsFile) (n : Str) (before after : Settings) : Prop :=
  if n ∈ file.providers.map ProviderConfig.name then KeepsSettings before after
  else ∀ dc, firstDonor n (fileDeployments file) = some dc → after = dc.given

def Settings.reachable (s : Settings) : Prop := s.apiBase ≠ none ∨ s.apiKey ≠ none

instance (s : Settings) : Decidable s.reachable := inferInstanceAs (Decidable (_ ∨ _))

/-- A block sets a base or a key, or the deployment that the provider's settings
come from in the end has the block's options. Without a block, and with neither a
base nor a key before, that deployment gives what the first one does. -/
def SettledFor (file : ModelsFile) (n : Str) (before : Settings) : Prop :=
  let last := donor n (fileDeployments file)
  if n ∈ file.providers.map ProviderConfig.name then
    before.reachable ∨ ∀ d, last = some d → KeepsOptions before.extra d.extra
  else ∀ dc, firstDonor n (fileDeployments file) = some dc →
    if before.reachable then before = dc.given
    else (last.map DeploymentConfig.given).getD before = dc.given

/-- What the loop leaves of a provider's settings. -/
theorem donate_outcome (n : Str) (ds : List DeploymentConfig) (s : Settings) :
    ds.foldl (donate n) s =
      if s.reachable then s else ((donor n ds).map DeploymentConfig.given).getD s := by
  by_cases hFree : s.apiBase = none ∧ s.apiKey = none
  · have hNot : ¬ s.reachable := by simp [Settings.reachable, hFree]
    rw [if_neg hNot, donate_all hFree.1 hFree.2]
    cases donor n ds with
    | none => rfl
    | some d => simp [Settings.write, DeploymentConfig.given, hFree.2]
  · have hReachable : s.reachable := by
      rw [Settings.reachable, ← not_and_or]
      exact hFree
    rw [if_pos hReachable, donate_of_set hFree]

theorem hoistsTo_iff (file : ModelsFile) (n : Str) (before : Settings) :
    HoistsTo file n before ((fileDeployments file).foldl (donate n) before) ↔
      SettledFor file n before := by
  rw [donate_outcome]
  unfold HoistsTo SettledFor
  dsimp only
  by_cases hBlock : n ∈ file.providers.map ProviderConfig.name
  · rw [if_pos hBlock, if_pos hBlock]
    by_cases hReachable : before.reachable
    · rw [if_pos hReachable]
      exact iff_of_true ⟨fun _ h => h, fun _ h => h, .refl _⟩ (.inl hReachable)
    · obtain ⟨hBase, hKey⟩ : before.apiBase = none ∧ before.apiKey = none := by
        simpa [Settings.reachable] using hReachable
      rw [if_neg hReachable, or_iff_right hReachable]
      cases donor n (fileDeployments file) with
      | none => exact iff_of_true ⟨fun _ h => h, fun _ h => h, .refl _⟩ (by simp)
      | some d =>
          refine ⟨fun h d' hSome => ?_, fun h => ⟨by simp [hBase], by simp [hKey], h d rfl⟩⟩
          cases hSome
          exact h.extra
  · rw [if_neg hBlock, if_neg hBlock]
    refine forall_congr' fun dc => imp_congr_right fun _ => ?_
    split_ifs <;> rfl

/-- The settings that an import leaves a provider with, between its blocks and its
deployments, are the right ones exactly where the block or the first deployment
settles them. -/
theorem hoisted_settings_iff {file : ModelsFile} {db db₁ db₂ : Db} {hoisted : List Str}
    (h : Intact db) (blocks : Runs (AnswersIf false) (seedProviders file.providers) db (.ok ()) db₁)
    (hoists : Runs (AnswersIf false) (hoistAll [] (fileDeployments file)) db₁ (.ok hoisted) db₂)
    (n : Str) :
    HoistsTo file n (settings db₁ n) (settings db₂ n) ↔
      SettledFor file n (blocked n file.providers (settings db n)) := by
  obtain ⟨hBlocks, hBlocked, -⟩ :=
    blocks.of_wp (seedProviders_loads h file.providers (by rintro ⟨⟩) (by rintro ⟨⟩))
  obtain ⟨-, hDonated, -⟩ := hoists.of_wp (hoistAll_loads hBlocks.sound [] _ (by rintro ⟨⟩))
  rw [hDonated, hBlocked]
  exact hoistsTo_iff file n _

/-- A block with a base, and a deployment that carries another. -/
def settledFile : ModelsFile where
  providers := [{ name := ['p'], apiBase := some ['b'] }]
  models := [
    { modelName := ['m']
      deployments := [
        { provider := ['p'], upstreamModel := ['u'], apiBase := some ['c'],
          upstreamFormat := .chat .openaiChat }] }]

theorem settledFile_hoists :
    HoistsTo settledFile ['p']
      (settings ((seedProviders settledFile.providers).run calm.answer {}).2 ['p'])
      (settings ((hoistAll [] (fileDeployments settledFile)).run calm.answer
        ((seedProviders settledFile.providers).run calm.answer {}).2).2 ['p']) := by
  refine (hoisted_settings_iff intact_empty (run_calm false (seedProviders settledFile.providers) {})
    (run_calm false (hoistAll [] (fileDeployments settledFile)) _) ['p']).mpr ?_
  unfold SettledFor
  dsimp only
  rw [if_pos (by decide)]
  exact .inl (.inl (by decide))

/-- A block with a header only, and a deployment with a key. -/
def headerFile : ModelsFile where
  providers := [{ name := ['p'], extra := { headers := [(['h'], ['v'])] } }]
  models := [
    { modelName := ['m']
      deployments := [
        { provider := ['p'], upstreamModel := ['u'], apiKey := some ['k'],
          upstreamFormat := .chat .openaiChat }] }]

/-- The header of the block is gone. -/
theorem header_overwritten :
    (settings ((seedProviders headerFile.providers).run calm.answer {}).2 ['p']).extra.headers =
        [(['h'], ['v'])] ∧
      (settings ((hoistAll [] (fileDeployments headerFile)).run calm.answer
        ((seedProviders headerFile.providers).run calm.answer {}).2).2 ['p']).extra.headers = [] := by
  decide +kernel

end Gateway.Server
