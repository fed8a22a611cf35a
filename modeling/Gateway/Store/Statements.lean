import Gateway.Program
import Gateway.Store.Database

/-! The statements on the database. A statement is one step: nothing comes
between what it reads and what it writes. -/
namespace Gateway.Store

open Json

inductive Statement where
  | createUser (user : UserRow)
  | getUser (id : Id)
  | getUserByUsername (username : Str)
  | listUsers
  | setUserPassword (id : Id) (passwordHash : Str)
  | setUserRole (id : Id) (role : Role)
  | markUserLogin (id : Id)
  | deleteUser (id : Id)
  | countAdmins
  | createSession (session : SessionRow)
  | getSession (token : Str)
  | deleteSession (token : Str)
  | createApiKey (key : ApiKeyRow)
  /-- The first statement of `verify_api_key`. -/
  | findApiKey (hash : Str)
  | getApiKey (id : Id)
  | listApiKeys
  | listApiKeysForUser (userId : Id)
  | markApiKeyUsed (id : Id)
  | deleteApiKey (id : Id)
  | updateApiKeyAccess (id : Id) (policy : AccessPolicy)
  | updateApiKeyLimits (id : Id) (rpm tpm maxConcurrent : Option Int)
  | renameApiKey (id : Id) (name : Option Str)
  | createTeam (team : TeamRow)
  | listTeams
  | deleteTeam (id : Id)
  | updateTeamAccess (id : Id) (policy : AccessPolicy)
  | upsertMembership (m : MembershipRow)
  | listTeamMembers (teamId : Id)
  | deleteMembership (teamId userId : Id)
  | listBudgets (subjectType : SubjectType) (subjectId : Id)
  | upsertBudget (budget : BudgetRow)
  | deleteBudget (id : Id)
  | spendRows
  | usage (start stop : Timestamp)
  | logLevel
  | setLogLevel (level : LogLevel)
  | setCapturePolicy (policy : CapturePolicy)
  | listModels
  | getModel (id : Id)
  | getModelByName (name : Str)
  | aliasOwner (name : Str)
  | upsertModel (id : Id) (name : Str)
  /-- The transaction of `rename_model`. -/
  | renameModel (id : Id) (newName : Str)
  | listProviders
  | getProvider (id : Id)
  | getProviderByName (name : Str)
  | upsertProvider (id : Id) (name : Str)
  | providerNameTaken (name : Str) (id : Id)
  | writeProvider (id : Id) (name : Str) (apiBase apiKey : Option Str) (extra : Extra)
  | providerInUse (id : Id)
  | dropProvider (id : Id)
  | listDeployments
  | getDeployment (id : Id)
  | insertDeployment (row : DeploymentRow)
  | deploymentExists (modelId providerId : Id) (upstreamModel : Str)
  | deleteDeployment (id : Id)
  | listHealth
  | recordHealth (row : HealthRow)
  | listAliases
  | getAlias (name : Str)
  | upsertAlias (name : Str) (modelId : Id)
  | deleteAlias (name : Str)

/-- What a statement returns. -/
def Statement.Result : Statement → Type
  | getUser _ | getUserByUsername _ => Option UserRow
  | listUsers => List UserRow
  | countAdmins => Nat
  | getSession _ => Option SessionRow
  | findApiKey _ | getApiKey _ => Option ApiKeyRow
  | listApiKeys | listApiKeysForUser _ => List ApiKeyRow
  | listTeams => List TeamRow
  | listTeamMembers _ => List MembershipRow
  | listBudgets _ _ => List BudgetRow
  | spendRows => List SpendRow
  | usage _ _ => List UsageRow
  | logLevel => Option LogLevel
  | listModels => List ModelRow
  | getModel _ | getModelByName _ => Option ModelRow
  | aliasOwner _ => Option Id
  | upsertModel _ _ => ModelRow
  | listProviders => List ProviderRecord
  | getProvider _ | getProviderByName _ => Option ProviderRecord
  | upsertProvider _ _ => ProviderRecord
  | providerNameTaken _ _ | providerInUse _ | deploymentExists _ _ _ => Bool
  | listDeployments => List (Id × Deployment)
  | getDeployment _ => Option (Id × Deployment)
  | listHealth => List HealthRow
  | listAliases => List AliasRecord
  | getAlias _ => Option AliasRecord
  | _ => Unit

/-- What a statement returns and leaves, at a time. -/
def Statement.execute (now : Timestamp) (db : Db) :
    (s : Statement) → Except Error s.Result × Db
  | createUser user => db.createUser user
  | getUser id => (.ok (db.getUser id), db)
  | getUserByUsername username => (.ok (db.getUserByUsername username), db)
  | listUsers => (.ok (orderByName (·.username) (db.users.rows.filter UserRow.live)), db)
  | setUserPassword id passwordHash => (.ok (), db.setUserPassword id passwordHash)
  | setUserRole id role => (.ok (), db.setUserRole id role)
  | markUserLogin id => (.ok (), db.markUserLogin now id)
  | deleteUser id => (.ok (), db.deleteUser now id)
  | countAdmins => (.ok db.countAdmins, db)
  | createSession session => db.createSession session
  | getSession token => (.ok (db.getSession now token), db)
  | deleteSession token => (.ok (), db.deleteSession token)
  | createApiKey key => db.createApiKey key
  | findApiKey hash => (.ok (db.findApiKey hash), db)
  | getApiKey id => (.ok (db.apiKeys.get id), db)
  | listApiKeys => (.ok db.listApiKeys, db)
  | listApiKeysForUser userId => (.ok (db.listApiKeysForUser userId), db)
  | markApiKeyUsed id => (.ok (), db.markApiKeyUsed now id)
  | deleteApiKey id => (.ok (), db.deleteApiKey now id)
  | updateApiKeyAccess id policy => (.ok (), db.updateApiKeyAccess id policy)
  | updateApiKeyLimits id rpm tpm maxConcurrent =>
      (.ok (), db.updateApiKeyLimits id rpm tpm maxConcurrent)
  | renameApiKey id name => (.ok (), db.renameApiKey id name)
  | createTeam team => db.createTeam team
  | listTeams => (.ok db.listTeams, db)
  | deleteTeam id => (.ok (), db.deleteTeam now id)
  | updateTeamAccess id policy => (.ok (), db.updateTeamAccess now id policy)
  | upsertMembership m => db.upsertMembership m
  | listTeamMembers teamId => (.ok (db.listTeamMembers teamId), db)
  | deleteMembership teamId userId => (.ok (), db.deleteMembership teamId userId)
  | listBudgets subjectType subjectId => (.ok (db.listBudgets subjectType subjectId), db)
  | upsertBudget budget => (.ok (), db.upsertBudget budget)
  | deleteBudget id => (.ok (), db.deleteBudget now id)
  | spendRows => (.ok db.spendRows, db)
  | usage start stop => (.ok (usageRows db.telemetry start stop), db)
  | logLevel => (.ok db.logLevel, db)
  | setLogLevel level => (.ok (), { db with logLevel := some level })
  | setCapturePolicy policy => (.ok (), { db with capturePolicy := some policy })
  | listModels => (.ok (orderByName (·.name) db.catalog.models), db)
  | getModel id => (.ok (db.catalog.getModel id), db)
  | getModelByName name => (.ok (db.catalog.getModelByName name), db)
  | aliasOwner name => (.ok (db.catalog.aliasOwner name), db)
  | upsertModel id name =>
      ((db.catalog.upsertModel id name).1,
        { db with catalog := (db.catalog.upsertModel id name).2 })
  | renameModel id newName => db.renameModel id newName
  | listProviders =>
      (.ok (orderByName (·.name) (db.catalog.providers.map db.providerRecord)), db)
  | getProvider id => (.ok ((db.catalog.getProvider id).map db.providerRecord), db)
  | getProviderByName name =>
      (.ok ((db.catalog.getProviderByName name).map db.providerRecord), db)
  | upsertProvider id name => db.upsertProvider id name
  | providerNameTaken name id => (.ok (db.catalog.providerNameTaken name id), db)
  | writeProvider id name apiBase apiKey extra => db.writeProvider id name apiBase apiKey extra
  | providerInUse id => (.ok (db.catalog.providerInUse id), db)
  | dropProvider id => (.ok (), db.dropProvider id)
  | listDeployments => (.ok db.catalog.deploymentRecords, db)
  | getDeployment id => (.ok (db.catalog.getDeployment id), db)
  | insertDeployment row =>
      ((db.catalog.insertDeployment row).1,
        { db with catalog := (db.catalog.insertDeployment row).2 })
  | deploymentExists modelId providerId upstreamModel =>
      (.ok (db.catalog.deploymentExists modelId providerId upstreamModel), db)
  | deleteDeployment id => (.ok (), { db with catalog := db.catalog.deleteDeployment now id })
  | listHealth => (.ok db.health.rows, db)
  | recordHealth row => db.recordHealth row
  | listAliases =>
      (.ok (orderByName (·.name) (db.catalog.aliases.filterMap db.catalog.aliasRecord)), db)
  | getAlias name =>
      (.ok ((db.catalog.aliases.find? (·.name == name)).bind db.catalog.aliasRecord), db)
  | upsertAlias name modelId =>
      ((db.catalog.putAlias name modelId).1,
        { db with catalog := (db.catalog.putAlias name modelId).2 })
  | deleteAlias name => (.ok (), { db with catalog := db.catalog.deleteAlias name })

/-- The statements that write. -/
def Statement.writes : Statement → Bool
  | getUser _ | getUserByUsername _ | listUsers | countAdmins | getSession _ | findApiKey _
  | getApiKey _ | listApiKeys | listApiKeysForUser _ | listTeams | listTeamMembers _
  | listBudgets _ _ | spendRows | usage _ _ | logLevel | listModels | getModel _
  | getModelByName _ | aliasOwner _ | listProviders | getProvider _ | getProviderByName _
  | providerNameTaken _ _ | providerInUse _ | listDeployments | getDeployment _
  | deploymentExists _ _ _ | listHealth | listAliases | getAlias _ => false
  | _ => true

theorem Statement.execute_of_not_writes (now : Timestamp) (db : Db) {s : Statement}
    (h : s.writes = false) : (s.execute now db).2 = db := by
  cases s <;> first | rfl | cases h

/-- Only an issue adds a key, and no statement changes what a key was issued
with. -/
theorem Statement.issues_execute (now : Timestamp) (db : Db) {s : Statement}
    (h : ∀ key, s ≠ .createApiKey key) : (s.execute now db).2.issues = db.issues := by
  cases s with
  | createApiKey key => exact absurd rfl (h key)
  | markApiKeyUsed id => exact Table.map_update (by exact fun _ => rfl) fun _ => rfl
  | deleteApiKey id => exact Table.map_update (by exact fun _ => rfl) fun _ => rfl
  | updateApiKeyAccess id policy => exact Table.map_update (by exact fun _ => rfl) fun _ => rfl
  | updateApiKeyLimits id rpm tpm maxConcurrent =>
      exact Table.map_update (by exact fun _ => rfl) fun _ => rfl
  | renameApiKey id name => exact Table.map_update (by exact fun _ => rfl) fun _ => rfl
  | createUser user =>
      show (db.createUser user).2.issues = db.issues
      unfold Db.createUser
      split
      · rfl
      · split <;> rfl
  | createSession session =>
      show (db.createSession session).2.issues = db.issues
      unfold Db.createSession
      split <;> rfl
  | createTeam team =>
      show (db.createTeam team).2.issues = db.issues
      unfold Db.createTeam
      split <;> rfl
  | upsertMembership m =>
      show (db.upsertMembership m).2.issues = db.issues
      unfold Db.upsertMembership
      split
      · rfl
      · split <;> rfl
  | upsertBudget budget =>
      show (db.upsertBudget budget).issues = db.issues
      unfold Db.upsertBudget
      split <;> rfl
  | renameModel id newName =>
      show (db.renameModel id newName).2.issues = db.issues
      unfold Db.renameModel
      split <;> rfl
  | upsertProvider id name =>
      show (db.upsertProvider id name).2.issues = db.issues
      unfold Db.upsertProvider
      split <;> rfl
  | writeProvider id name apiBase apiKey extra =>
      show (db.writeProvider id name apiBase apiKey extra).2.issues = db.issues
      unfold Db.writeProvider
      split
      · rfl
      · split <;> rfl
  | recordHealth row =>
      show (db.recordHealth row).2.issues = db.issues
      unfold Db.recordHealth
      split
      · rfl
      · split <;> rfl
  | _ => rfl

end Gateway.Store
