import Gateway.Server.Handler

/-! Who makes a request of the admin API, and what their role lets them do. -/
namespace Gateway.Server

open Json Store Program Handler

inductive Action where
  | manageKeys
  | viewSpend
  | editConfig
  | manageMembers
  | readCatalog
  deriving DecidableEq

namespace Action

def minRole : Action → Role
  | manageKeys | editConfig | manageMembers => .admin
  -- members can view their own spend and read the catalog
  | viewSpend | readCatalog => .member

def name : Action → Str
  | manageKeys => "ManageKeys".toList
  | viewSpend => "ViewSpend".toList
  | editConfig => "EditConfig".toList
  | manageMembers => "ManageMembers".toList
  | readCatalog => "ReadCatalog".toList

end Action

def authorize (role : Role) (action : Action) : Except Error Unit :=
  if role.atLeast action.minRole then .ok ()
  else .error (.forbidden ("role ".toList ++ role.asStr ++ " cannot perform ".toList ++ action.name))

structure Principal where
  userId : Id
  username : Str
  role : Role
  expiresAt : Timestamp
  deriving DecidableEq

namespace Principal

def isAdmin (p : Principal) : Bool := p.role == .admin

end Principal

def authz (p : Principal) (action : Action) : Handler Unit := ofExcept (authorize p.role action)

theorem wary_authz {ok : Seen → Query → Prop} {seen : Seen} {α : Type} {p : Principal}
    {action : Action} {f : Unit → Handler α}
    (h : (f ()).Wary ok seen) : (authz p action >>= f).Wary ok seen :=
  wary_ofExcept fun _ _ => h

/-- A member is turned away before anything else. -/
theorem wary_refused {ok : Seen → Query → Prop} {seen : Seen} {α : Type} {p : Principal}
    {action : Action} {f : Unit → Handler α} (hMember : p.isAdmin = false)
    (hAdmin : action.minRole = .admin) : (authz p action >>= f).Wary ok seen := by
  refine wary_ofExcept fun _ hAuthorized => ?_
  have hRole : p.role ≠ .admin := by simpa [Principal.isAdmin] using hMember
  simp [authorize, Role.atLeast, hAdmin, hRole] at hAuthorized

/-- How the server is set up. The hashes, lower case and the quoting of a text
are functions of libraries. -/
structure AppState where
  providers : List Str := ["local".toList]
  turnstileSitekey : Option Str := none
  /-- Whether there is a client of the identity provider. -/
  sso : Bool := false
  sharedCookieDomain : Option Str := none
  hexSha256 : Str → Str
  hashPassword : Str → Except Error Str
  verifyPassword : Str → Str → Bool
  toLowercase : Str → Str
  quoted : Str → Str

namespace AppState

variable (state : AppState)

def hasLocal : Bool := state.providers.contains "local".toList

/-- Whether signing in with the identity provider is on. -/
def ssoEnabled : Bool := state.providers.contains "sso".toList && state.sso

end AppState

/-- What the headers of a request carry. -/
structure Credentials where
  bearer : Option Str := none
  sessionCookie : Option Str := none
  sharedCookie : Option Str := none

/-- Seven days, in nanoseconds. -/
def sessionTtl : Int := 7 * 24 * 60 * 60 * 1000000000

def signInRequired : Error := .unauthorized "sign in required".toList

section

variable (state : AppState)

def newUser (id username passwordHash : Str) (role : Role) (now : Timestamp) : UserRow where
  id := id
  username := username
  passwordHash := passwordHash
  role := role
  createdAt := now

/-- The user of an identity, who is made a member at first sight. Nothing
verifies against the password that is kept. -/
def upsertSsoUser (sso : SsoUser) : Handler UserRow := do
  let email := state.toLowercase (KeyScope.trim sso.email)
  require (email ≠ []) (.unauthorized "sso returned no email".toList)
  match ← store (.getUserByUsername email) with
  | some user => pure user
  | none =>
      let id ← fresh
      let now ← now
      let user := newUser id email "!sso".toList .member now
      store (.createUser user)
      pure user

/-- A key acts as its owner. -/
def bearerPrincipal (bearer : Str) : Handler Principal := do
  match ← verifyApiKey (state.hexSha256 bearer) with
  | none => fail signInRequired
  | some auth =>
      require (auth.apiKey.hasScope .admin) (.forbidden "this key is not admin-scoped".toList)
      let _ ← tryStore (.markApiKeyUsed auth.apiKey.id)
      let now ← now
      pure ⟨auth.user.id, auth.user.username, auth.user.role, now + sessionTtl⟩

def sessionPrincipal (token : Str) : Handler (Option Principal) := do
  match ← tryStore (.getSession token) with
  | .ok (some session) =>
      match ← tryStore (.getUser session.userId) with
      | .ok (some user) =>
          pure (some ⟨user.id, user.username, user.role, session.expiresAt⟩)
      | _ => pure none
  | _ => pure none

def sharedPrincipal (token : Str) : Handler (Option Principal) := do
  match ← outside (.ssoIntrospect token) with
  | .error _ => pure none
  | .ok sso =>
      let user ← upsertSsoUser state sso
      let now ← now
      pure (some ⟨user.id, user.username, user.role, now + sessionTtl⟩)

def fromSessionCookie (c : Credentials) : Handler (Option Principal) :=
  match c.sessionCookie with
  | some token => sessionPrincipal token
  | none => pure none

def fromSharedCookie (c : Credentials) : Handler (Option Principal) :=
  match state.sso, c.sharedCookie with
  | true, some token => sharedPrincipal state token
  | _, _ => pure none

/-- The first cookie that names a user decides. -/
def cookiePrincipal (c : Credentials) : Handler Principal := do
  match ← fromSessionCookie c with
  | some p => pure p
  | none =>
      match ← fromSharedCookie state c with
      | some p => pure p
      | none => fail signInRequired

def fromRequestParts (c : Credentials) : Handler Principal :=
  match c.bearer with
  | some bearer => bearerPrincipal state bearer
  | none => cookiePrincipal state c

end

end Gateway.Server
