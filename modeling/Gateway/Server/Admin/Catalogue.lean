import Gateway.Server.Admin.Accounts
import Mathlib.Data.List.Infix

/-! The handlers of models, deployments, providers, aliases and completion. -/
namespace Gateway.Server

open Json Store Program Handler

/-- A public name of a model, a provider or an alias. -/
def validatePublicName (s : Str) : Except Error Str :=
  let t := KeyScope.trim s
  if t = [] then .error (.badRequest "name is required".toList)
  else if 200 < t.length then .error (.badRequest "name must be 200 characters or fewer".toList)
  else if t.any fun c => c.toNat < 32 || c.toNat = 127 then
    .error (.badRequest "name must not contain control characters".toList)
  else .ok t

def providerView (p : ProviderRecord) : ProviderView :=
  ⟨p.id, p.name, p.apiBase, p.apiKey.any (· ≠ []), p.extra⟩

/-! ### Providers -/

structure ProviderBody where
  name : Str
  apiBase : Option Str := none
  apiKey : Option Str := none
  extra : Extra := {}

def deploymentCount (deployments : List (Id × Deployment)) (providerId : Id) : Nat :=
  deployments.countP (·.2.providerId == providerId)

def listProviders (p : Principal) : Handler Reply := do
  authz p .readCatalog
  let providers ← store .listProviders
  let deployments ← store .listDeployments
  pure (.providers (List.map (fun q => (providerView q, deploymentCount deployments q.id)) providers))

def createProvider (p : Principal) (body : ProviderBody) : Handler Reply := do
  authz p .editConfig
  let name ← ofExcept (validatePublicName body.name)
  match ← tryStore (.getProviderByName name) with
  | .ok (some _) => fail (.conflict ("provider \"".toList ++ name ++ "\" already exists".toList))
  | _ => pure ()
  let created ← ensureProvider name
  let updated ← updateProvider created.id name body.apiBase body.apiKey body.extra
  reloadModels
  pure (.provider (providerView updated))

def editProvider (p : Principal) (id : Id) (body : ProviderBody) : Handler Reply := do
  authz p .editConfig
  let name ← ofExcept (validatePublicName body.name)
  match ← tryStore (.getProvider id) with
  | .ok none => fail (.notFound "provider".toList)
  | _ => pure ()
  let updated ← updateProvider id name body.apiBase (body.apiKey.filter (· ≠ [])) body.extra
  reloadModels
  pure (.provider (providerView updated))

/-- Whether a provider has a deployment of a model of its own. -/
def deployed (existing : List (Id × Deployment)) (providerId : Id) (format : UpstreamFormat)
    (upstreamModel : Str) : Bool :=
  existing.any fun d =>
    d.2.providerId == providerId && d.2.upstreamModel == upstreamModel &&
      d.2.upstreamFormat == format

def discoverProviderModels (p : Principal) (id : Id) (format : UpstreamFormat) :
    Handler Reply := do
  authz p .editConfig
  let provider ← found "provider".toList (← store (.getProvider id))
  let models ← ofExcept (← outside (.discoverModels provider format))
  let existing ← store .listDeployments
  pure (.discovered provider.name
    (List.map (fun m => (m, deployed existing provider.id format m)) models))

def removeProvider (p : Principal) (id : Id) : Handler Reply := do
  authz p .editConfig
  deleteProvider id
  reloadModels
  pure (.deleted id)

/-! ### Deployments -/

def listDeployments (p : Principal) : Handler Reply := do
  authz p .readCatalog
  let deployments ← store .listDeployments
  pure (.deployments deployments)

structure CreateModelBody where
  modelName : Str
  provider : Str
  upstreamModel : Str
  upstreamFormat : UpstreamFormat
  weight : Option Nat := none
  pricing : Option ModelPrice := none

def addDeployment (p : Principal) (body : CreateModelBody) : Handler Reply := do
  authz p .editConfig
  let modelName ← ofExcept (validatePublicName body.modelName)
  let providerName ← ofExcept (validatePublicName body.provider)
  let created ← createDeployment
    { modelName := modelName
      providerName := providerName
      upstreamModel := body.upstreamModel
      upstreamFormat := body.upstreamFormat
      weight := body.weight.getD 1
      pricing := body.pricing }
  reloadModels
  pure (.deployment created.1 created.2)

structure BulkDeploymentsBody where
  provider : Str
  upstreamFormat : UpstreamFormat
  /-- Models of the provider and the names they get. -/
  models : List (Str × Str)

/-- How an error reads. -/
def display : Error → Str
  | .notFound m => "not found: ".toList ++ m
  | .badRequest m => "bad request: ".toList ++ m
  | .unauthorized m => "unauthorized: ".toList ++ m
  | .forbidden m => "forbidden: ".toList ++ m
  | .conflict m => "conflict: ".toList ++ m
  | .budgetExceeded m => "budget exceeded: ".toList ++ m
  | .noEligibleProvider m => "no eligible provider for model ".toList ++ m
  | .upstream provider status m =>
      "upstream ".toList ++ provider ++ " returned ".toList ++ (Nat.repr status).toList ++
        ": ".toList ++ m
  | .connectionLost m => "upstream connection lost: ".toList ++ m
  | .storage m => "storage error: ".toList ++ m
  | .wire m => "wire translation error: ".toList ++ m
  | .internal m => "internal error: ".toList ++ m

/-- One after the other: how many are made, how many were there, and what went
wrong with the rest. -/
def bulkDeployments (provider : Str) (format : UpstreamFormat) :
    List (Str × Str) → Nat × Nat × List (Str × Str) → Handler (Nat × Nat × List (Str × Str))
  | [], acc => pure acc
  | (upstreamModel, name) :: rest, (created, skipped, errors) =>
      match validatePublicName name with
      | .error _ =>
          bulkDeployments provider format rest
            (created, skipped, errors ++ [(upstreamModel, "invalid model name".toList)])
      | .ok modelName => do
          match ← attempt (seedDeployment
            { modelName := modelName
              providerName := provider
              upstreamModel := upstreamModel
              upstreamFormat := format }) with
          | .ok true => bulkDeployments provider format rest (created + 1, skipped, errors)
          | .ok false => bulkDeployments provider format rest (created, skipped + 1, errors)
          | .error e =>
              bulkDeployments provider format rest
                (created, skipped, errors ++ [(upstreamModel, display e)])

def createDeploymentsBulk (p : Principal) (body : BulkDeploymentsBody) : Handler Reply := do
  authz p .editConfig
  let provider ← ofExcept (validatePublicName body.provider)
  let (created, skipped, errors) ←
    bulkDeployments provider body.upstreamFormat body.models (0, 0, [])
  reloadModels
  pure (.bulk created skipped errors)

def deleteDeployment (p : Principal) (id : Id) : Handler Reply := do
  authz p .editConfig
  store (.deleteDeployment id)
  reloadModels
  pure (.deleted id)

/-! ### Models and aliases -/

def modelView (deployments : List (Id × Deployment)) (aliases : List AliasRecord)
    (m : ModelRow) : ModelView where
  id := m.id
  name := m.name
  aliases := orderByName id ((aliases.filter (·.modelId == m.id)).map AliasRecord.name)
  deploymentCount := deployments.countP (·.2.modelId == m.id)

def listModels (p : Principal) : Handler Reply := do
  authz p .readCatalog
  let models ← store .listModels
  let deployments ← store .listDeployments
  let aliases ← store .listAliases
  pure (.models (List.map (modelView deployments aliases) models))

def editModelName (p : Principal) (id : Id) (name : Str) : Handler Reply := do
  authz p .editConfig
  let name ← ofExcept (validatePublicName name)
  let model ← renameModel id name
  reloadModels
  pure (.model model)

def createModel (p : Principal) (name : Str) : Handler Reply := do
  authz p .editConfig
  let name ← ofExcept (validatePublicName name)
  let model ← ensureModel name
  reloadModels
  pure (.model model)

def listAliases (p : Principal) : Handler Reply := do
  authz p .readCatalog
  let aliases ← store .listAliases
  pure (.aliases aliases)

def createAlias (p : Principal) (name target : Str) : Handler Reply := do
  authz p .editConfig
  require (name ≠ [] && target ≠ []) (.badRequest "alias and target are required".toList)
  require (name ≠ target) (.badRequest "an alias cannot point to itself".toList)
  let aliasName ← ofExcept (validatePublicName name)
  let model ← found ("model \"".toList ++ target ++ "\"".toList) (← store (.getModelByName target))
  let taken ← store (.getModelByName aliasName)
  require (Option.isNone taken)
    (.conflict ("\"".toList ++ aliasName ++ "\" is already a model name".toList))
  let record ← upsertAlias aliasName model.id
  reloadModels
  pure (.alias record)

def deleteAlias (p : Principal) (name : Str) : Handler Reply := do
  authz p .editConfig
  store (.deleteAlias name)
  reloadModels
  pure (.deleted name)

/-! ### Health -/

def healthAllModels (p : Principal) : Handler Reply := do
  authz p .readCatalog
  let deployments ← store .listDeployments
  let reports ← outside (.checkDeployments deployments)
  pure (.reports reports)

/-- A result that cannot be kept is lost, and nothing else. -/
def remember (r : HealthReport) : Handler Unit := do
  let now ← now
  discard (tryStore (.recordHealth
    { deploymentId := r.deploymentId
      healthy := r.healthy
      checkKind := r.check
      status := r.status
      latencyMs := r.latencyMs
      detail := r.detail
      checkedAt := now }))

def probe (d : Id × Deployment) : Handler HealthReport := do
  let report ← outside (.probeDeployment d.1 d.2)
  remember report
  pure report

def healthOneModel (p : Principal) (id : Id) : Handler Reply := do
  authz p .readCatalog
  let d ← found "deployment".toList (← store (.getDeployment id))
  let report ← probe d
  pure (.report report)

def probeAll : List (Id × Deployment) → Handler (List HealthReport)
  | [] => pure []
  | d :: rest => do
      let report ← probe d
      let reports ← probeAll rest
      pure (report :: reports)

def healthModel (p : Principal) (id : Id) : Handler Reply := do
  authz p .readCatalog
  let deployments ← store .listDeployments
  let mine := List.filter (·.2.modelId == id) deployments
  require (mine ≠ []) (.notFound "model has no deployments".toList)
  let reports ← probeAll mine
  pure (.reports reports)

def lastHealth (p : Principal) : Handler Reply := do
  authz p .readCatalog
  let rows ← store .listHealth
  pure (.health rows)

/-! ### Completion -/

section

variable (state : AppState)

/-- Exact, at the front, inside, or not at all. -/
def rank (hay needle : Str) : Option Nat :=
  let h := state.toLowercase hay
  if needle = [] then some 3
  else if h = needle then some 0
  else if needle.isPrefixOf h then some 1
  else if needle <:+: h then some 2
  else none

def commaSeparated (parts : List Str) : Str := ", ".toList.intercalate parts

def providerHint (n : Nat) (apiBase : Option Str) : Str :=
  (Nat.repr n).toList ++ " deployment".toList ++ (if n = 1 then [] else "s".toList) ++
    match apiBase with
    | some base => " · ".toList ++ base
    | none => []

def completeProviders (needle : Str) (deployments : List (Id × Deployment))
    (providers : List ProviderRecord) : List (Nat × Suggestion) :=
  providers.filterMap fun p =>
    (rank state p.name needle).map fun r =>
      (r, ⟨p.id, p.name, providerHint (deploymentCount deployments p.id) p.apiBase⟩)

/-- The providers of a model and up to three of its aliases. -/
def modelHint (providers aliases : List Str) : Str :=
  commaSeparated providers ++
    if aliases = [] then []
    else
      " · aka ".toList ++ commaSeparated (aliases.take 3) ++
        if 3 < aliases.length then
          " +".toList ++ (Nat.repr (aliases.length - 3)).toList ++ " more".toList
        else []

def completeModels (needle : Str) (deployments : List (Id × Deployment))
    (aliases : List AliasRecord) (models : List ModelRow) : List (Nat × Suggestion) :=
  (orderByName (·.id) models).filterMap fun m =>
    let providers := (deployments.filter (·.2.modelId == m.id)).map (·.2.provider)
    let names := (aliases.filter (·.modelId == m.id)).map AliasRecord.name
    ((rank state m.name needle).or (names.filterMap fun n => rank state n needle).min?).map fun r =>
      (r, ⟨m.id, m.name, modelHint (orderByName id providers.dedup) (orderByName id names)⟩)

def completeUsers (needle : Str) (users : List UserRow) : List (Nat × Suggestion) :=
  users.filterMap fun u =>
    (rank state u.username needle).map fun r => (r, ⟨u.id, u.username, u.role.asStr⟩)

/-- The best first, and by label where two are as good. -/
def suggest (limit : Option Nat) (hits : List (Nat × Suggestion)) : Reply :=
  let ordered := hits.insertionSort fun a b =>
    a.1 < b.1 ∨ (a.1 = b.1 ∧ ¬ b.2.label < a.2.label)
  .suggestions ((ordered.take (max 1 (min (limit.getD 20) 100))).map Prod.snd)

def complete (p : Principal) (kind q : Str) (limit : Option Nat) : Handler Reply := do
  let needle := state.toLowercase (KeyScope.trim q)
  if kind = "provider".toList then
    authz p .readCatalog
    let deployments ← store .listDeployments
    let providers ← store .listProviders
    pure (suggest limit (completeProviders state needle deployments providers))
  else if kind = "model".toList then
    authz p .readCatalog
    let deployments ← store .listDeployments
    let aliases := match ← tryStore .listAliases with
      | .ok aliases => aliases
      | .error _ => []
    let models ← store .listModels
    pure (suggest limit (completeModels state needle deployments aliases models))
  else if kind = "user".toList then
    authz p .manageMembers
    let users ← store .listUsers
    pure (suggest limit (completeUsers state needle users))
  else
    fail (.badRequest ("unknown completion kind ".toList ++ state.quoted kind ++
      " (expected model, provider, or user)".toList))

end

end Gateway.Server
