import Gateway.Server.Admin.Catalogue

/-! The admin API: its requests, and what serves each. -/
namespace Gateway.Server

open Json Store Program Handler

/-- A request of somebody signed in. -/
inductive Request where
  /-- A body or a query that is not of the form its handler asks for. -/
  | malformed (message : Str)
  | me
  | changeMyPassword (currentPassword newPassword : Str)
  | listUsers
  | createUser (username password : Str) (role : Option Str)
  | inviteUser (email : Str) (role : Option Str)
  | deleteUser (id : Id)
  | setUserRole (id : Id) (role : Str)
  | setUserPassword (id : Id) (password : Str)
  | listModels
  | createModel (name : Str)
  | renameModel (id : Id) (name : Str)
  | listDeployments
  | createDeployment (body : CreateModelBody)
  | healthAllModels
  | deleteDeployment (id : Id)
  | healthOneModel (id : Id)
  | healthModel (id : Id)
  | lastHealth
  | listProviders
  | createProvider (body : ProviderBody)
  | updateProvider (id : Id) (body : ProviderBody)
  | deleteProvider (id : Id)
  | discoverProviderModels (id : Id) (format : UpstreamFormat)
  | createDeploymentsBulk (body : BulkDeploymentsBody)
  | listAliases
  | createAlias (name target : Str)
  | deleteAlias (name : Str)
  | listKeys
  | createKey (body : CreateKeyBody)
  | getKey (id : Id)
  | updateKey (id : Id) (body : List (Str × Value))
  | deleteKey (id : Id)
  | keyAccess (id : Id) (access : AccessPolicy)
  | listTeams
  | createTeam (name : Str) (access : AccessPolicy)
  | deleteTeam (id : Id)
  | teamAccess (id : Id) (access : AccessPolicy)
  | addMember (teamId userId : Id)
  | listMembers (teamId : Id)
  | removeMember (teamId userId : Id)
  | listBudgets (subjectType subjectId : Str)
  | putBudget (budget : BudgetRow)
  | deleteBudget (id : Id)
  | complete (kind q : Str) (limit : Option Nat)
  | spend
  | usage (start stop : Timestamp)
  | getPolicy
  | putPolicy (policy : CapturePolicy)
  | exportTurns (body : ExportQuery)
  | forgetTurns (keys : List Id)
  | getLevel
  | putLevel (level : LogLevel)

/-- A request that needs no sign-in. -/
inductive SignIn where
  | config
  | login (username password : Str)
  | ssoStart (email : Str) (turnstileToken : Option Str)
  | ssoCode (email code : Str)
  | ssoVerify (token : Str)
  | logout

section

variable (state : AppState)

def handle (p : Principal) : Request → Handler Reply
  | .malformed message => fail (.badRequest message)
  | .me => authMe p
  | .changeMyPassword currentPassword newPassword =>
      changeMyPassword state p currentPassword newPassword
  | .listUsers => listUsers p
  | .createUser username password role => createUser state p username password role
  | .inviteUser email role => inviteUser state p email role
  | .deleteUser id => deleteUser p id
  | .setUserRole id role => setUserRole p id role
  | .setUserPassword id password => setUserPassword state p id password
  | .listModels => listModels p
  | .createModel name => createModel p name
  | .renameModel id name => editModelName p id name
  | .listDeployments => listDeployments p
  | .createDeployment body => addDeployment p body
  | .healthAllModels => healthAllModels p
  | .deleteDeployment id => deleteDeployment p id
  | .healthOneModel id => healthOneModel p id
  | .healthModel id => healthModel p id
  | .lastHealth => lastHealth p
  | .listProviders => listProviders p
  | .createProvider body => createProvider p body
  | .updateProvider id body => editProvider p id body
  | .deleteProvider id => removeProvider p id
  | .discoverProviderModels id format => discoverProviderModels p id format
  | .createDeploymentsBulk body => createDeploymentsBulk p body
  | .listAliases => listAliases p
  | .createAlias name target => createAlias p name target
  | .deleteAlias name => deleteAlias p name
  | .listKeys => listKeys p
  | .createKey body => createKey state p body
  | .getKey id => getKey p id
  | .updateKey id body => updateKey p id body
  | .deleteKey id => deleteKey p id
  | .keyAccess id access => keyAccess p id access
  | .listTeams => listTeams p
  | .createTeam name access => createTeam p name access
  | .deleteTeam id => deleteTeam p id
  | .teamAccess id access => teamAccess p id access
  | .addMember teamId userId => addMember p teamId userId
  | .listMembers teamId => listMembers p teamId
  | .removeMember teamId userId => removeMember p teamId userId
  | .listBudgets subjectType subjectId => listBudgets p subjectType subjectId
  | .putBudget budget => putBudget p budget
  | .deleteBudget id => deleteBudget p id
  | .complete kind q limit => complete state p kind q limit
  | .spend => spend p
  | .usage start stop => usage p start stop
  | .getPolicy => getPolicy p
  | .putPolicy policy => putPolicy p policy
  | .exportTurns body => exportTurns p body
  | .forgetTurns keys => forgetTurns p keys
  | .getLevel => getLevel p
  | .putLevel level => putLevel p level

/-- The user a sign-in names, if it is one and proves it. -/
def signInUser : SignIn → Option (Handler UserRow)
  | .login username password => some (loginUser state username password)
  | .ssoCode email code => some (ssoCodeUser state email code)
  | .ssoVerify token => some (ssoLinkUser state token)
  | .config | .ssoStart _ _ | .logout => none

def signIn (c : Credentials) : SignIn → Handler Reply
  | .config => authConfig state
  | .login username password => do
      let user ← loginUser state username password
      mintSessionResponse user
  | .ssoStart email turnstileToken => authSsoStart state email turnstileToken
  | .ssoCode email code => do
      let user ← ssoCodeUser state email code
      mintSessionResponse user
  | .ssoVerify token => do
      let user ← ssoLinkUser state token
      mintSessionResponse user
  | .logout => authLogout state c

/-- A request with the headers it came with. -/
def serve (c : Credentials) (req : Request) : Handler Reply := do
  let p ← fromRequestParts state c
  handle state p req

end

/-! ### A server and its surroundings -/

/-- A server that signs people in with the identity provider. -/
def ssoServer : AppState where
  providers := ["sso".toList]
  sso := true
  hexSha256 := id
  hashPassword := .ok
  verifyPassword := (· == ·)
  toLowercase := asciiLower
  quoted := id

/-- Services that take whatever they are asked. -/
def obliging : (o : Outside) → o.Result
  | .ssoStart _ _ => .ok (none, none)
  | .ssoCode email _ => .ok ⟨email, none⟩
  | .ssoVerify token | .ssoIntrospect token => .ok ⟨token, none⟩
  | .ssoLogout _ | .ssoInvite _ | .applyLevel _ | .resetLevel => .ok ()
  | .checkDeployments _ => []
  | .probeDeployment id _ => { deploymentId := id, check := "probe".toList, healthy := true }
  | .discoverModels _ _ => .ok []
  | .capturePolicy => {}
  | .captures => false
  | .exportTurns _ => .ok []
  | .forgetTurns _ => .ok 0
  | .reloadRouter _ _ | .applyPolicy _ => ()

def calm : Env where
  id := "n".toList
  now := 0
  outage _ := none
  outside := obliging

end Gateway.Server
