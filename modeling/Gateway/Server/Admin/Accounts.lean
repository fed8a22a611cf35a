import Gateway.Server.Admin.Principal

/-! The handlers of users, keys, teams, budgets, spend and settings. -/
namespace Gateway.Server

open Json Store Program Handler

/-! ### Bodies of answers -/

structure UserSummary where
  id : Id
  username : Str
  role : Role
  createdAt : Timestamp
  lastLoginAt : Option Timestamp
  deriving DecidableEq

/-- A provider without its key. -/
structure ProviderView where
  id : Id
  name : Str
  apiBase : Option Str
  hasApiKey : Bool
  extra : Extra

structure ModelView where
  id : Id
  name : Str
  aliases : List Str
  deploymentCount : Nat

structure Suggestion where
  value : Str
  label : Str
  hint : Str

inductive Reply where
  | ok
  | config (providers : List Str) (turnstileSitekey : Option Str)
  | started (devCode devLink : Option Str)
  | signedIn (username : Str) (role : Role) (cookie : Str)
  | me (username : Str) (role : Role)
  | users (users : List UserSummary)
  | user (id username : Str) (role : Role)
  | invited (username : Str) (role : Role)
  | keys (keys : List ApiKeyRow)
  | key (key : Option ApiKeyRow)
  | issued (token : Str) (key : ApiKeyRow)
  | teams (teams : List TeamRow)
  | team (team : TeamRow)
  | members (members : List MembershipRow)
  | member (m : MembershipRow)
  | budgets (budgets : List BudgetRow)
  | spend (rows : List SpendRow)
  | usage (rows : List UsageRow)
  | capture (policy : CapturePolicy) (available : Bool)
  | policy (policy : CapturePolicy)
  | exported (body : Str)
  | forgotten (turns : Nat)
  | level (level : Option LogLevel)
  | models (models : List ModelView)
  | model (model : ModelRow)
  | deployments (deployments : List (Id × Deployment))
  | deployment (id : Id) (deployment : Deployment)
  | bulk (created skipped : Nat) (errors : List (Str × Str))
  | deleted (id : Str)
  | reports (reports : List HealthReport)
  | report (report : HealthReport)
  | health (rows : List HealthRow)
  | providers (providers : List (ProviderView × Nat))
  | provider (provider : ProviderView)
  | discovered (provider : Str) (models : List (Str × Bool))
  | aliases (aliases : List AliasRecord)
  | alias (record : AliasRecord)
  | suggestions (suggestions : List Suggestion)

/-- The hash of a key is not written out. -/
def shown (key : ApiKeyRow) : ApiKeyRow := { key with hash := [] }

def summary (u : UserRow) : UserSummary := ⟨u.id, u.username, u.role, u.createdAt, u.lastLoginAt⟩

section

variable (state : AppState)

/-! ### Signing in and out -/

def authConfig : Handler Reply :=
  pure (.config state.providers (state.turnstileSitekey.filter (· ≠ [])))

def mintSessionResponse (user : UserRow) : Handler Reply := do
  let _ ← tryStore (.markUserLogin user.id)
  let first ← fresh
  let second ← fresh
  let created ← now
  let expires ← now
  let token := first ++ second
  store (.createSession ⟨token, user.id, created, expires + sessionTtl⟩)
  pure (.signedIn user.username user.role token)

def invalidCredentials : Error := .unauthorized "invalid credentials".toList

/-- The user whose password a login gives. -/
def loginUser (username password : Str) : Handler UserRow := do
  require state.hasLocal (.forbidden "local password login is disabled on this server".toList)
  match ← store (.getUserByUsername username) with
  | none => fail invalidCredentials
  | some user =>
      require (state.verifyPassword password user.passwordHash) invalidCredentials
      pure user

def ssoDisabled : Error := .forbidden "sso login is not enabled".toList

def authSsoStart (email : Str) (turnstileToken : Option Str) : Handler Reply := do
  require state.ssoEnabled ssoDisabled
  let (code, link) ← ofExcept (← outside (.ssoStart email turnstileToken))
  pure (.started code link)

/-- The user of a code, or of a link, that was sent to an address. -/
def ssoCodeUser (email code : Str) : Handler UserRow := do
  require state.ssoEnabled ssoDisabled
  let sso ← ofExcept (← outside (.ssoCode email code))
  upsertSsoUser state sso

def ssoLinkUser (token : Str) : Handler UserRow := do
  require state.ssoEnabled ssoDisabled
  let sso ← ofExcept (← outside (.ssoVerify token))
  upsertSsoUser state sso

def endSession (c : Credentials) : Handler Unit :=
  match c.sessionCookie with
  | some token => discard (tryStore (.deleteSession token))
  | none => pure ()

/-- The session that is shared with other sites ends too. -/
def endSharedSession (c : Credentials) : Handler Unit :=
  match state.sharedCookieDomain.filter (· ≠ []), c.sharedCookie, state.sso with
  | some _, some token, true => discard (outside (.ssoLogout token))
  | _, _, _ => pure ()

def authLogout (c : Credentials) : Handler Reply := do
  endSession c
  endSharedSession state c
  pure .ok

def authMe (p : Principal) : Handler Reply := pure (.me p.username p.role)

def changeMyPassword (p : Principal) (currentPassword newPassword : Str) : Handler Reply := do
  match ← store (.getUser p.userId) with
  | none => fail signInRequired
  | some user =>
      require (state.verifyPassword currentPassword user.passwordHash)
        (.unauthorized "current password is incorrect".toList)
      require (newPassword ≠ []) (.badRequest "new password must not be empty".toList)
      let hash ← ofExcept (state.hashPassword newPassword)
      store (.setUserPassword user.id hash)
      pure .ok

/-! ### Users -/

def listUsers (p : Principal) : Handler Reply := do
  authz p .manageMembers
  let users ← store .listUsers
  pure (.users (List.map summary users))

def createUser (p : Principal) (username password : Str) (role : Option Str) : Handler Reply := do
  authz p .manageMembers
  require state.hasLocal (.badRequest
    "local password login is disabled; invite the user instead (POST /users/invite)".toList)
  let role ← ofExcept (Role.parse (role.getD "member".toList))
  let hash ← ofExcept (state.hashPassword password)
  let id ← fresh
  let now ← now
  store (.createUser (newUser id username hash role now))
  pure (.user id username role)

def inviteUser (p : Principal) (email : Str) (role : Option Str) : Handler Reply := do
  authz p .manageMembers
  require state.ssoEnabled (.badRequest "invite requires the sso provider to be enabled".toList)
  let role ← ofExcept (Role.parse (role.getD "member".toList))
  let email := state.toLowercase (KeyScope.trim email)
  require (email ≠ [] && '@' ∈ email) (.badRequest "a valid email is required".toList)
  ofExcept (← outside (.ssoInvite email))
  match ← store (.getUserByUsername email) with
  | some user => store (.setUserRole user.id role)
  | none =>
      let id ← fresh
      let now ← now
      store (.createUser (newUser id email "!sso".toList role now))
  pure (.invited email role)

/-- A count that cannot be read is none. -/
def guardLastAdmin (id : Id) (losingAdmin : Bool) : Handler Unit := do
  if losingAdmin then
    let target ← found "user".toList (← store (.getUser id))
    if target.role = .admin then
      let admins := match ← tryStore .countAdmins with
        | .ok n => n
        | .error _ => 0
      require (1 < admins) (.forbidden "cannot remove the last admin user".toList)
    else pure ()
  else pure ()

def setUserRole (p : Principal) (id : Id) (role : Str) : Handler Reply := do
  authz p .manageMembers
  let role ← ofExcept (Role.parse role)
  guardLastAdmin id (role ≠ .admin)
  store (.setUserRole id role)
  pure .ok

def setUserPassword (p : Principal) (id : Id) (password : Str) : Handler Reply := do
  authz p .manageMembers
  let hash ← ofExcept (state.hashPassword password)
  store (.setUserPassword id hash)
  pure .ok

def deleteUser (p : Principal) (id : Id) : Handler Reply := do
  authz p .manageMembers
  guardLastAdmin id true
  store (.deleteUser id)
  pure .ok

/-! ### Keys -/

structure CreateKeyBody where
  name : Option Str := none
  ownerUserId : Option Id := none
  teamId : Option Id := none
  scopes : Option (List Str) := none
  access : AccessPolicy := {}
  rpmLimit : Option Int := none
  tpmLimit : Option Int := none
  maxConcurrent : Option Int := none

def listKeys (p : Principal) : Handler Reply := do
  let keys ←
    if p.isAdmin then store .listApiKeys else store (.listApiKeysForUser p.userId)
  pure (.keys (List.map shown keys))

/-- A member's keys are their own, whatever owner they name. -/
def keyOwner (p : Principal) (body : CreateKeyBody) : Id :=
  if p.isAdmin then body.ownerUserId.getD p.userId else p.userId

def keyScopes (body : CreateKeyBody) : Except Error (List KeyScope) :=
  KeyScope.parseSet ((body.scopes.map fun names => [' '].intercalate names).getD "inference".toList)

def newKey (p : Principal) (body : CreateKeyBody) (scopes : List KeyScope)
    (id entropy : Str) (now : Timestamp) : ApiKeyRow where
  id := id
  ownerUserId := keyOwner p body
  teamId := body.teamId
  hash := state.hexSha256 ("yb_".toList ++ entropy)
  keyPrefix := "yb_".toList ++ entropy.take 8
  keySuffix := entropy.drop (entropy.length - 4)
  name := body.name
  scopes := scopes
  access := body.access
  rpmLimit := body.rpmLimit
  tpmLimit := body.tpmLimit
  maxConcurrent := body.maxConcurrent
  createdAt := now

def createKey (p : Principal) (body : CreateKeyBody) : Handler Reply := do
  let scopes ← ofExcept (keyScopes body)
  require (!(scopes.contains .admin && !p.isAdmin))
    (.forbidden "only admins may create admin-scope keys".toList)
  let first ← fresh
  let second ← fresh
  let id ← fresh
  let now ← now
  let key := newKey state p body scopes id (first ++ second) now
  store (.createApiKey key)
  pure (.issued ("yb_".toList ++ first ++ second) (shown key))

def ownKeyOrAdmin (p : Principal) (id : Id) : Handler ApiKeyRow := do
  let key ← found "key".toList (← store (.getApiKey id))
  require (p.isAdmin || key.ownerUserId == p.userId) (.forbidden "not your key".toList)
  pure key

def deleteKey (p : Principal) (id : Id) : Handler Reply := do
  let _ ← ownKeyOrAdmin p id
  store (.deleteApiKey id)
  pure .ok

def getKey (p : Principal) (id : Id) : Handler Reply := do
  let key ← ownKeyOrAdmin p id
  pure (.key (some (shown key)))

def asI64 : Value → Option Int
  | .number (.posInt n) => if n < 2 ^ 63 then some n else none
  | .number (.negInt n) => some (-(n : Int))
  | _ => none

/-- A field left out keeps its value, and null clears it. -/
def limitField (body : List (Str × Value)) (field : Str) (current : Option Int) :
    Except Error (Option Int) :=
  match lookupField field body with
  | none => .ok current
  | some .null => .ok none
  | some value =>
      match asI64 value with
      | some n =>
          if 0 ≤ n then .ok (some n)
          else .error (.badRequest (field ++ " must be a non-negative integer or null".toList))
      | none => .error (.badRequest (field ++ " must be a non-negative integer or null".toList))

/-- What a body sets the name to, if it names one. -/
def nameField (body : List (Str × Value)) : Except Error (Option (Option Str)) :=
  match lookupField "name".toList body with
  | none => .ok none
  | some .null => .ok (some none)
  | some (.string name) => .ok (some (some name))
  | some _ => .error (.badRequest "name must be a string or null".toList)

def updateKey (p : Principal) (id : Id) (body : List (Str × Value)) : Handler Reply := do
  let key ← ownKeyOrAdmin p id
  let rpm ← ofExcept (limitField body "rpm_limit".toList key.rpmLimit)
  let tpm ← ofExcept (limitField body "tpm_limit".toList key.tpmLimit)
  let maxConcurrent ← ofExcept (limitField body "max_concurrent".toList key.maxConcurrent)
  match ← ofExcept (nameField body) with
  | some name => store (.renameApiKey id name)
  | none => pure ()
  store (.updateApiKeyLimits id rpm tpm maxConcurrent)
  let updated ← store (.getApiKey id)
  pure (.key (Option.map shown updated))

def keyAccess (p : Principal) (id : Id) (access : AccessPolicy) : Handler Reply := do
  let _ ← ownKeyOrAdmin p id
  store (.updateApiKeyAccess id access)
  pure .ok

/-! ### Teams -/

def listTeams (p : Principal) : Handler Reply := do
  authz p .manageMembers
  let teams ← store .listTeams
  pure (.teams teams)

def createTeam (p : Principal) (name : Str) (access : AccessPolicy) : Handler Reply := do
  authz p .manageMembers
  let id ← fresh
  let created ← now
  let updated ← now
  let team : TeamRow :=
    { id := id
      name := name
      access := access
      createdAt := created
      updatedAt := updated
      createdBy := some p.username }
  store (.createTeam team)
  pure (.team team)

def deleteTeam (p : Principal) (id : Id) : Handler Reply := do
  authz p .manageMembers
  store (.deleteTeam id)
  pure .ok

def teamAccess (p : Principal) (id : Id) (access : AccessPolicy) : Handler Reply := do
  authz p .manageMembers
  store (.updateTeamAccess id access)
  pure .ok

def addMember (p : Principal) (teamId userId : Id) : Handler Reply := do
  authz p .manageMembers
  let id ← fresh
  let now ← now
  let membership : MembershipRow := ⟨id, teamId, userId, now⟩
  store (.upsertMembership membership)
  pure (.member membership)

def listMembers (p : Principal) (teamId : Id) : Handler Reply := do
  authz p .manageMembers
  let members ← store (.listTeamMembers teamId)
  pure (.members members)

def removeMember (p : Principal) (teamId userId : Id) : Handler Reply := do
  authz p .manageMembers
  store (.deleteMembership teamId userId)
  pure .ok

/-! ### Budgets and spend -/

def listBudgets (p : Principal) (subjectType subjectId : Str) : Handler Reply := do
  authz p .viewSpend
  let subjectType ← ofExcept (SubjectType.parse subjectType)
  let budgets ← store (.listBudgets subjectType subjectId)
  pure (.budgets budgets)

def putBudget (p : Principal) (budget : BudgetRow) : Handler Reply := do
  authz p .editConfig
  store (.upsertBudget budget)
  pure .ok

def deleteBudget (p : Principal) (id : Id) : Handler Reply := do
  authz p .editConfig
  store (.deleteBudget id)
  pure .ok

def spend (p : Principal) : Handler Reply := do
  authz p .viewSpend
  let rows ← store .spendRows
  pure (.spend rows)

/-- The days are given by their midnights, and both count. -/
def usage (p : Principal) (start stop : Timestamp) : Handler Reply := do
  require p.isAdmin (.forbidden "usage is for administrators".toList)
  require (start ≤ stop) (.badRequest "to is before from".toList)
  let rows ← store (.usage start (stop + 86400000000000))
  pure (.usage rows)

/-! ### Captures and the log level -/

def captureRefused : Error := .forbidden "request capture is for administrators".toList

def getPolicy (p : Principal) : Handler Reply := do
  require p.isAdmin captureRefused
  let policy ← outside .capturePolicy
  let available ← outside .captures
  pure (.capture policy available)

def putPolicy (p : Principal) (policy : CapturePolicy) : Handler Reply := do
  require p.isAdmin captureRefused
  if policy.enabled then
    let available ← outside .captures
    require available (.conflict "capture needs the request log: set [reqlog] enabled = true".toList)
  else pure ()
  store (.setCapturePolicy policy)
  outside (.applyPolicy policy)
  pure (.policy policy)

/-- The parts of a comma-separated list. -/
def listParts (s : Str) : List Str :=
  ((s.splitOnP (· = ',')).map KeyScope.trim).filter (· ≠ [])

def tagPairs : List Str → Except Error (List (Str × Str))
  | [] => .ok []
  | pair :: rest =>
      match Wire.splitOnce ':' pair with
      | none => .error (.badRequest ("a tag is name:value, not ".toList ++ pair))
      | some (name, value) =>
          match tagPairs rest with
          | .ok pairs => .ok ((name, value) :: pairs)
          | .error e => .error e

structure ExportQuery where
  start : Option Timestamp := none
  stop : Option Timestamp := none
  model : Str := []
  key : Str := []
  tag : Str := []
  redaction : Option Str := none

def exportTurns (p : Principal) (query : ExportQuery) : Handler Reply := do
  require p.isAdmin captureRefused
  let tags ← ofExcept (tagPairs (listParts query.tag))
  let body ← ofExcept (← outside (.exportTurns
    { start := query.start
      stop := query.stop.map (· + 86400000000000)
      models := listParts query.model
      apiKeyIds := listParts query.key
      tags := tags
      redaction := query.redaction }))
  pure (.exported body)

def forgetTurns (p : Principal) (keys : List Id) : Handler Reply := do
  require p.isAdmin captureRefused
  require (keys ≠ [] && decide (keys.length ≤ 1000) &&
      keys.all fun key => key ≠ [] && decide ((Text.toUtf8 key).length ≤ 200))
    (.badRequest "name 1 to 1000 keys".toList)
  let turns ← ofExcept (← outside (.forgetTurns keys))
  pure (.forgotten turns)

def levelRefused : Error := .forbidden "the log level is for administrators".toList

def getLevel (p : Principal) : Handler Reply := do
  require p.isAdmin levelRefused
  let level ← store .logLevel
  pure (.level level)

/-- A level that is not kept is not left in force. -/
def putLevel (p : Principal) (level : LogLevel) : Handler Reply := do
  require p.isAdmin levelRefused
  let before ← store .logLevel
  ofExcept (← outside (.applyLevel level))
  match ← tryStore (.setLogLevel level) with
  | .ok () => pure (.level (some level))
  | .error e =>
      match before with
      | some before => discard (outside (.applyLevel before))
      | none => discard (outside .resetLevel)
      fail e

end

end Gateway.Server
