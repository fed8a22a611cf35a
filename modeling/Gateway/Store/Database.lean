import Gateway.Firsts
import Gateway.Store.Catalog
import Gateway.Store.Periods
import Gateway.Table

/-! The database, and what its statements read and write. -/
namespace Gateway.Store

open Json

structure Db where
  users : Table UserRow.id := .empty
  sessions : Table SessionRow.token := .empty
  apiKeys : Table ApiKeyRow.id := .empty
  teams : Table TeamRow.id := .empty
  memberships : Table MembershipRow.place := .empty
  budgets : Table BudgetRow.id := .empty
  spendRollup : List SpendRow := []
  telemetry : List TelemetryRecord := []
  capturePolicy : Option CapturePolicy := none
  logLevel : Option LogLevel := none
  catalog : Catalog := {}
  endpoints : Table EndpointRow.providerId := .empty
  health : Table HealthRow.deploymentId := .empty

/-- A provider as its two rows give it. -/
structure ProviderRecord where
  id : Id
  name : Str
  apiBase : Option Str
  apiKey : Option Str
  extra : Extra

/-- An alias with the current name of its model. -/
structure AliasRecord where
  name : Str
  modelId : Id
  target : Str
  deriving DecidableEq

/-- What an insert or an update that breaks a constraint ends with. -/
def constraintFailed : Error := .storage "UNIQUE constraint failed".toList

def foreignKeyFailed : Error := .storage "FOREIGN KEY constraint failed".toList

/-- The rows with the least column first. -/
def orderBy {α : Type} (column : α → Int) (rows : List α) : List α :=
  rows.insertionSort fun a b => column a ≤ column b

def orderByName {α : Type} (column : α → Str) (rows : List α) : List α :=
  rows.insertionSort fun a b => ¬ column b < column a

/-! ### The usage report -/

/-- An instant as its column holds it. -/
def ts (instant : Timestamp) : Str := Calendar.toRfc3339 instant

/-- The date that a time in a column begins with. -/
def dayText (instant : Timestamp) : Str := (ts instant).take 10

/-- What the rows of a report are apart by. -/
def usageGroup (t : TelemetryRecord) : Str × Option Id × Option Id × Str × Str :=
  (dayText t.createdAt, t.apiKeyId, t.userId, t.requestedModel, t.surface)

def usageRow (turns : List TelemetryRecord) (t : TelemetryRecord) : UsageRow :=
  let group := turns.filter (usageGroup · = usageGroup t)
  { day := dayText t.createdAt
    apiKeyId := t.apiKeyId
    userId := t.userId
    model := t.requestedModel
    surface := t.surface
    requests := group.length
    errors := group.countP (·.isError)
    inputTokens := (group.map (·.inputTokens)).sum
    outputTokens := (group.map (·.outputTokens)).sum
    costMicros := (group.map (·.costMicros)).sum
    cacheReadTokens := (group.map (·.cacheReadTokens)).sum }

/-- By day, key and model, where no key comes first. -/
def usageBefore (a b : UsageRow) : Bool :=
  if a.day ≠ b.day then decide (a.day < b.day)
  else if a.apiKeyId ≠ b.apiKeyId then
    match a.apiKeyId, b.apiKeyId with
    | none, _ => true
    | some _, none => false
    | some x, some y => decide (x < y)
  else !decide (b.model < a.model)

/-- Times are compared as their columns hold them. -/
def usageRows (telemetry : List TelemetryRecord) (start stop : Timestamp) : List UsageRow :=
  let turns := telemetry.filter fun t => ¬ ts t.createdAt < ts start ∧ ts t.createdAt < ts stop
  ((Firsts.fresh usageGroup [] turns).map (usageRow turns)).insertionSort fun a b =>
    usageBefore a b = true

namespace Db

variable (db : Db)

/-! ### Users and sessions -/

def getUser (id : Id) : Option UserRow := db.users.rows.find? fun u => u.id == id && u.live

def getUserByUsername (username : Str) : Option UserRow :=
  db.users.rows.find? fun u => u.username == username && u.live

/-- Live users have different names. -/
def createUser (user : UserRow) : Except Error Unit × Db :=
  if user.live && db.users.rows.any (fun u => u.username == user.username && u.live) then
    (.error constraintFailed, db)
  else
    match db.users.insert user with
    | some users => (.ok (), { db with users := users })
    | none => (.error constraintFailed, db)

def setUserPassword (id : Id) (passwordHash : Str) : Db :=
  { db with
    users := db.users.update (fun u => u.id == id && u.live)
      fun u => { u with passwordHash := passwordHash } }

def setUserRole (id : Id) (role : Role) : Db :=
  { db with
    users := db.users.update (fun u => u.id == id && u.live) fun u => { u with role := role } }

def markUserLogin (now : Timestamp) (id : Id) : Db :=
  { db with
    users := db.users.update (fun u => u.id == id) fun u => { u with lastLoginAt := some now } }

def deleteUser (now : Timestamp) (id : Id) : Db :=
  { db with
    users := db.users.update (fun u => u.id == id && u.live)
      fun u => { u with deletedAt := some now } }

def countAdmins : Nat := db.users.rows.countP UserRow.isAdmin

def createSession (session : SessionRow) : Except Error Unit × Db :=
  match db.sessions.insert session with
  | some sessions => (.ok (), { db with sessions := sessions })
  | none => (.error constraintFailed, db)

def getSession (now : Timestamp) (token : Str) : Option SessionRow :=
  db.sessions.rows.find? fun s => s.token == token && decide (now < s.expiresAt)

def deleteSession (token : Str) : Db :=
  { db with sessions := db.sessions.keep (·.token != token) }

/-! ### Keys -/

def createApiKey (key : ApiKeyRow) : Except Error Unit × Db :=
  if db.apiKeys.rows.any (·.hash == key.hash) then (.error constraintFailed, db)
  else
    match db.apiKeys.insert { key with scopes := KeyScope.stored key.scopes } with
    | some apiKeys => (.ok (), { db with apiKeys := apiKeys })
    | none => (.error constraintFailed, db)

def issues : List Issue := db.apiKeys.rows.map ApiKeyRow.issue

def findApiKey (hash : Str) : Option ApiKeyRow :=
  db.apiKeys.rows.find? fun k => k.hash == hash && k.live

def listApiKeys : List ApiKeyRow :=
  orderBy (·.createdAt) (db.apiKeys.rows.filter ApiKeyRow.live)

def listApiKeysForUser (userId : Id) : List ApiKeyRow :=
  orderBy (·.createdAt) (db.apiKeys.rows.filter fun k => k.ownerUserId == userId && k.live)

def markApiKeyUsed (now : Timestamp) (id : Id) : Db :=
  { db with
    apiKeys := db.apiKeys.update (·.id == id) fun k => { k with lastUsedAt := some now } }

def deleteApiKey (now : Timestamp) (id : Id) : Db :=
  { db with
    apiKeys := db.apiKeys.update (fun k => k.id == id && k.live)
      fun k => { k with deletedAt := some now } }

def updateApiKeyAccess (id : Id) (policy : AccessPolicy) : Db :=
  { db with apiKeys := db.apiKeys.update (·.id == id) fun k => { k with access := policy } }

def updateApiKeyLimits (id : Id) (rpm tpm maxConcurrent : Option Int) : Db :=
  { db with
    apiKeys := db.apiKeys.update (·.id == id)
      fun k => { k with rpmLimit := rpm, tpmLimit := tpm, maxConcurrent := maxConcurrent } }

def renameApiKey (id : Id) (name : Option Str) : Db :=
  { db with apiKeys := db.apiKeys.update (·.id == id) fun k => { k with name := name } }

/-! ### Teams -/

def createTeam (team : TeamRow) : Except Error Unit × Db :=
  match db.teams.insert team with
  | some teams => (.ok (), { db with teams := teams })
  | none => (.error constraintFailed, db)

def listTeams : List TeamRow := orderBy (·.createdAt) (db.teams.rows.filter (·.deletedAt.isNone))

def deleteTeam (now : Timestamp) (id : Id) : Db :=
  { db with
    teams := db.teams.update (fun t => t.id == id && t.deletedAt.isNone)
      fun t => { t with deletedAt := some now } }

def updateTeamAccess (now : Timestamp) (id : Id) (policy : AccessPolicy) : Db :=
  { db with
    teams := db.teams.update (·.id == id) fun t => { t with access := policy, updatedAt := now } }

/-- A user who is in the team already stays as they are. -/
def upsertMembership (m : MembershipRow) : Except Error Unit × Db :=
  match db.memberships.insert m with
  | none => (.ok (), db)
  | some memberships =>
      if db.memberships.rows.any (·.id == m.id) then (.error constraintFailed, db)
      else (.ok (), { db with memberships := memberships })

def listTeamMembers (teamId : Id) : List MembershipRow :=
  orderBy (·.createdAt) (db.memberships.rows.filter (·.teamId == teamId))

def deleteMembership (teamId userId : Id) : Db :=
  { db with
    memberships := db.memberships.keep fun m => !(m.teamId == teamId && m.userId == userId) }

/-! ### Budgets and settings -/

def listBudgets (subjectType : SubjectType) (subjectId : Id) : List BudgetRow :=
  orderBy (·.createdAt) (db.budgets.rows.filter fun b =>
    b.subjectType == subjectType && b.subjectId == subjectId && b.deletedAt.isNone)

/-- The time of its creation stays. -/
def upsertBudget (budget : BudgetRow) : Db :=
  match db.budgets.insert budget with
  | some budgets => { db with budgets := budgets }
  | none =>
      { db with
        budgets := db.budgets.update (·.id == budget.id)
          (fun b => { budget with id := b.id, createdAt := b.createdAt }) }

def deleteBudget (now : Timestamp) (id : Id) : Db :=
  { db with
    budgets := db.budgets.update (fun b => b.id == id && b.deletedAt.isNone)
      fun b => { b with deletedAt := some now } }

/-- The latest day first. -/
def spendRows : List SpendRow :=
  db.spendRollup.insertionSort fun a b =>
    b.periodStart < a.periodStart ∨ (a.periodStart = b.periodStart ∧
      (a.subjectType.asStr < b.subjectType.asStr ∨
        (a.subjectType = b.subjectType ∧ ¬ b.subjectId < a.subjectId)))

end Db

/-! ### The catalogue -/

namespace Catalog

variable (c : Catalog)

/-- The model of a name, which is made where there is none. -/
def upsertModel (id : Id) (name : Str) : Except Error ModelRow × Catalog :=
  match c.getModelByName name with
  | some model => (.ok model, c)
  | none =>
      if c.models.any (·.id == id) then (.error constraintFailed, c)
      else (.ok ⟨id, name⟩, { c with models := c.models ++ [⟨id, name⟩] })

def aliasOwner (name : Str) : Option Id := (c.aliases.find? (·.name == name)).map AliasRow.modelId

def aliasRecord (a : AliasRow) : Option AliasRecord :=
  (c.getModel a.modelId).map fun m => ⟨a.name, a.modelId, m.name⟩

/-- An alias stands for a model that there is. -/
def putAlias (name : Str) (modelId : Id) : Except Error Unit × Catalog :=
  if (c.getModel modelId).isNone then (.error foreignKeyFailed, c)
  else (.ok (), { c with aliases := upsertAlias c.aliases name modelId })

def deleteAlias (name : Str) : Catalog := { c with aliases := c.aliases.filter (·.name != name) }

def getProviderByName (name : Str) : Option ProviderRow := c.providers.find? (·.name == name)

def upsertProvider (id : Id) (name : Str) : Except Error ProviderRow × Catalog :=
  match c.getProviderByName name with
  | some provider => (.ok provider, c)
  | none =>
      if c.providers.any (·.id == id) then (.error constraintFailed, c)
      else
        (.ok { id := id, name := name },
          { c with providers := c.providers ++ [{ id := id, name := name }] })

def providerNameTaken (name : Str) (id : Id) : Bool :=
  c.providers.any fun p => p.name == name && p.id != id

def writeProvider (id : Id) (name : Str) (vision : Bool) : Except Error Unit × Catalog :=
  if c.providerNameTaken name id && c.providers.any (·.id == id) then (.error constraintFailed, c)
  else
    (.ok (),
      { c with
        providers := c.providers.map fun p =>
          if p.id == id then { p with name := name, vision := vision } else p })

def providerInUse (id : Id) : Bool :=
  c.deployments.any fun d => d.providerId == id && d.deletedAt.isNone

/-- The deployments of a provider go with it, live or not. -/
def dropProvider (id : Id) : Catalog :=
  { c with
    providers := c.providers.filter (·.id != id)
    deployments := c.deployments.filter (·.providerId != id) }

/-- A live deployment is told by its model, its provider and the model there. -/
def deploymentExists (modelId providerId : Id) (upstreamModel : Str) : Bool :=
  c.deployments.any fun d =>
    d.modelId == modelId && d.providerId == providerId && d.upstreamModel == upstreamModel &&
      d.deletedAt.isNone

def insertDeployment (row : DeploymentRow) : Except Error Unit × Catalog :=
  if (c.getModel row.modelId).isNone || (c.getProvider row.providerId).isNone then
    (.error foreignKeyFailed, c)
  else if c.deployments.any (·.id == row.id) ||
      c.deploymentExists row.modelId row.providerId row.upstreamModel then
    (.error constraintFailed, c)
  else (.ok (), { c with deployments := c.deployments ++ [row] })

def deleteDeployment (now : Timestamp) (id : Id) : Catalog :=
  { c with
    deployments := c.deployments.map fun d =>
      if d.id == id && d.deletedAt.isNone then { d with deletedAt := some now } else d }

/-- The live deployments under their ids, in the order of `listDeployments`. -/
def deploymentRecords : List (Id × Deployment) :=
  (c.deployments.filterMap fun row => (c.deployment row).map (Prod.mk row.id)).insertionSort
    fun a b => before a.2 b.2 = true

def getDeployment (id : Id) : Option (Id × Deployment) :=
  c.deploymentRecords.find? (·.1 == id)

end Catalog

namespace Db

variable (db : Db)

def renameModel (id : Id) (newName : Str) : Except Error Unit × Db :=
  match db.catalog.renameModel id newName with
  | .ok catalog => (.ok (), { db with catalog := catalog })
  | .error e => (.error e, db)

def providerRecord (p : ProviderRow) : ProviderRecord :=
  let endpoint := (db.endpoints.get p.id).getD { providerId := p.id }
  ⟨p.id, p.name, endpoint.apiBase, endpoint.apiKey, endpoint.extra⟩

def upsertProvider (id : Id) (name : Str) : Except Error ProviderRecord × Db :=
  match db.catalog.upsertProvider id name with
  | (.ok p, catalog) => (.ok (db.providerRecord p), { db with catalog := catalog })
  | (.error e, _) => (.error e, db)

def putEndpoint (row : EndpointRow) : Table EndpointRow.providerId :=
  match db.endpoints.insert row with
  | some endpoints => endpoints
  | none => db.endpoints.update (·.providerId == row.providerId)
      (fun e => { row with providerId := e.providerId })

/-- No key leaves the key that is there. -/
def writeProvider (id : Id) (name : Str) (apiBase apiKey : Option Str) (extra : Extra) :
    Except Error Unit × Db :=
  match db.catalog.writeProvider id name extra.vision with
  | (.error e, _) => (.error e, db)
  | (.ok (), catalog) =>
      if (db.catalog.getProvider id).isNone then (.ok (), db)
      else
        let kept := (db.endpoints.get id).bind EndpointRow.apiKey
        (.ok (),
          { db with
            catalog := catalog
            endpoints := db.putEndpoint ⟨id, apiBase, apiKey.or kept, extra⟩ })

/-- The health of a deployment goes with it. -/
def dropProvider (id : Id) : Db :=
  let catalog := db.catalog.dropProvider id
  { db with
    catalog := catalog
    endpoints := db.endpoints.keep (·.providerId != id)
    health := db.health.keep fun h => catalog.deployments.any (·.id == h.deploymentId) }

def recordHealth (row : HealthRow) : Except Error Unit × Db :=
  if !db.catalog.deployments.any (·.id == row.deploymentId) then (.error foreignKeyFailed, db)
  else
    match db.health.insert row with
    | some health => (.ok (), { db with health := health })
    | none =>
        (.ok (),
          { db with
            health := db.health.update (·.deploymentId == row.deploymentId)
              (fun h => { row with deploymentId := h.deploymentId }) })

end Db

end Gateway.Store
