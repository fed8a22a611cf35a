import Gateway.Server.Handler

/-! The command that loads a file of models into the database. -/
namespace Gateway.Server

open Json Store Program Handler

structure ProviderConfig where
  name : Str
  apiBase : Option Str := none
  apiKey : Option Str := none
  extra : Extra := {}

structure DeploymentConfig where
  provider : Str
  upstreamModel : Str
  apiBase : Option Str := none
  apiKey : Option Str := none
  upstreamFormat : UpstreamFormat
  weight : Nat := 1
  pricing : Option ModelPrice := none
  extra : Extra := {}

structure ModelConfig where
  modelName : Str
  deployments : List DeploymentConfig := []
  aliases : List Str := []

structure ModelsFile where
  providers : List ProviderConfig := []
  models : List ModelConfig := []
  /-- From an alias to the name of its model. -/
  aliases : List (Str × Str) := []

/-- Vision does not count. -/
def extraIsEmpty (e : Extra) : Bool := !e.cloudflareAccess && e.headers.isEmpty && e.rest.isEmpty

def seedProviders : List ProviderConfig → Handler Unit
  | [] => pure ()
  | pc :: rest => do
      require (KeyScope.trim pc.name ≠ [])
        (.badRequest "a [[provider]] block is missing its name".toList)
      let existing ← ensureProvider pc.name
      let _ ← updateProvider existing.id pc.name pc.apiBase pc.apiKey pc.extra
      seedProviders rest

/-- The first deployment that names a provider donates its settings. -/
def hoist (hoisted : List Str) (dc : DeploymentConfig) : Handler (List Str) :=
  if dc.apiBase.isNone && dc.apiKey.isNone && extraIsEmpty dc.extra then pure hoisted
  else do
    let provider ← ensureProvider dc.provider
    if provider.apiBase.isSome || provider.apiKey.isSome then pure hoisted
    else
      let _ ← updateProvider provider.id dc.provider dc.apiBase dc.apiKey dc.extra
      pure (if dc.provider ∈ hoisted then hoisted else hoisted ++ [dc.provider])

def hoistAll (hoisted : List Str) : List DeploymentConfig → Handler (List Str)
  | [] => pure hoisted
  | dc :: rest => do
      let hoisted ← hoist hoisted dc
      hoistAll hoisted rest

/-- How many of the deployments of a model are new. -/
def seedDeployments (modelName : Str) (inserted : Nat) : List DeploymentConfig → Handler Nat
  | [] => pure inserted
  | dc :: rest => do
      let new ← seedDeployment
        { modelName := modelName
          providerName := dc.provider
          upstreamModel := dc.upstreamModel
          upstreamFormat := dc.upstreamFormat
          weight := dc.weight
          pricing := dc.pricing }
      seedDeployments modelName (if new then inserted + 1 else inserted) rest

/-- A model with aliases only is made too. -/
def seedModels (inserted : Nat) : List ModelConfig → Handler Nat
  | [] => pure inserted
  | mc :: rest => do
      let _ ← ensureModel mc.modelName
      let inserted ← seedDeployments mc.modelName inserted mc.deployments
      seedModels inserted rest

def writeAliases (modelId : Id) : List Str → Handler Unit
  | [] => pure ()
  | name :: rest => do
      let _ ← upsertAlias name modelId
      writeAliases modelId rest

/-- How many aliases are written. -/
def seedAliases (count : Nat) : List ModelConfig → Handler Nat
  | [] => pure count
  | mc :: rest =>
      if mc.aliases.isEmpty then seedAliases count rest
      else do
        let model ← ensureModel mc.modelName
        writeAliases model.id mc.aliases
        seedAliases (count + mc.aliases.length) rest

structure ImportReport where
  inserted : Nat
  present : Nat
  providers : Nat
  hoisted : Nat
  aliases : Nat

/-- Nothing happens without a deployment in the file. -/
def runImport (file : ModelsFile) : Handler (Option ImportReport) :=
  let total := (file.models.map fun mc => mc.deployments.length).sum
  if total = 0 then pure none
  else do
    seedProviders file.providers
    let hoisted ← hoistAll [] (file.models.flatMap ModelConfig.deployments)
    let inserted ← seedModels 0 file.models
    let aliases ← seedAliases 0 file.models
    pure (some ⟨inserted, total - inserted, file.providers.length, hoisted.length, aliases⟩)

end Gateway.Server
