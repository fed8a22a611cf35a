import Gateway.Core.Routing
import Mathlib.Data.List.Sort

/-! The tables of models, providers, deployments and aliases. Everything refers
to a model by its id, so its name can change. -/
namespace Gateway.Store

open Json

structure ModelRow where
  id : Id
  name : Str
  deriving DecidableEq

structure ProviderRow where
  id : Id
  name : Str
  vision : Bool := false
  deriving DecidableEq

structure DeploymentRow where
  id : Id
  modelId : Id
  providerId : Id
  upstreamModel : Str
  upstreamFormat : UpstreamFormat := .chat .openaiChat
  weight : Nat := 1
  pricing : Option ModelPrice := none
  deletedAt : Option Timestamp := none
  deriving DecidableEq

structure AliasRow where
  name : Str
  modelId : Id
  deriving DecidableEq

structure Catalog where
  models : List ModelRow := []
  providers : List ProviderRow := []
  deployments : List DeploymentRow := []
  aliases : List AliasRow := []
  deriving DecidableEq

namespace Catalog

variable (c : Catalog)

def getModel (id : Id) : Option ModelRow := c.models.find? (·.id == id)

def getModelByName (name : Str) : Option ModelRow := c.models.find? (·.name == name)

def getProvider (id : Id) : Option ProviderRow := c.providers.find? (·.id == id)

/-- A live deployment with the names of its model and its provider. -/
def deployment (row : DeploymentRow) : Option Deployment :=
  match row.deletedAt, c.getModel row.modelId, c.getProvider row.providerId with
  | none, some model, some provider =>
      some
        { modelId := row.modelId
          modelName := model.name
          providerId := row.providerId
          provider := provider.name
          upstreamModel := row.upstreamModel
          upstreamFormat := row.upstreamFormat
          weight := row.weight
          pricing := row.pricing
          vision := provider.vision }
  | _, _, _ => none

/-- By model, provider and upstream model. -/
def before (a b : Deployment) : Bool :=
  if a.modelName != b.modelName then decide (a.modelName < b.modelName)
  else if a.provider != b.provider then decide (a.provider < b.provider)
  else !decide (b.upstreamModel < a.upstreamModel)

def listDeployments : List Deployment :=
  (c.deployments.filterMap c.deployment).insertionSort fun a b => before a b = true

/-- Each alias with the current name of its model. -/
def listAliases : List (Str × Str) :=
  c.aliases.filterMap fun a => (c.getModel a.modelId).map fun m => (a.name, m.name)

def upsertAlias (aliases : List AliasRow) (name : Str) (modelId : Id) : List AliasRow :=
  if aliases.any (·.name == name) then
    aliases.map fun a => if a.name == name then { a with modelId := modelId } else a
  else aliases ++ [{ name := name, modelId := modelId }]

/-- The model gets its new name, and the old one is left behind as an alias. -/
def renamed (current : ModelRow) (newName : Str) : Catalog :=
  { c with
    models := c.models.map fun m => if m.id == current.id then { m with name := newName } else m
    aliases := upsertAlias (c.aliases.filter (·.name != newName)) current.name current.id }

def renameModel (id : Id) (newName : Str) : Except Error Catalog :=
  match c.getModel id with
  | none => .error (.notFound "model".toList)
  | some current =>
      if current.name == newName then .ok c
      else if c.models.any fun m => m.name == newName && m.id != id then
        .error (.conflict ("model \"".toList ++ newName ++ "\" already exists".toList))
      else if c.aliases.any fun a => a.name == newName && a.modelId != id then
        .error (.conflict ("\"".toList ++ newName ++
          "\" is already an alias of another model".toList))
      else .ok (c.renamed current newName)

/-- What the tables keep to: the unique indexes, the references between them,
and that a name is a model's or an alias's, never both. -/
structure Valid : Prop where
  modelIds : (c.models.map ModelRow.id).Nodup
  modelNames : (c.models.map ModelRow.name).Nodup
  aliasNames : (c.aliases.map AliasRow.name).Nodup
  aliasModels : ∀ a ∈ c.aliases, a.modelId ∈ c.models.map ModelRow.id
  namesApart : ∀ a ∈ c.aliases, a.name ∉ c.models.map ModelRow.name

end Catalog

end Gateway.Store
