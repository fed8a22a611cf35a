import Gateway.Core.Access
import Gateway.Wire.Common

/-! The rows of the tables of users, keys, teams, budgets and settings. -/
namespace Gateway

open Json

namespace SubjectType

def asStr : SubjectType → Str
  | .key => "key".toList
  | .user => "user".toList
  | .team => "team".toList

def parse (s : Str) : Except Error SubjectType :=
  if s = "key".toList then .ok .key
  else if s = "user".toList then .ok .user
  else if s = "team".toList then .ok .team
  else .error (.badRequest ("bad subject type: ".toList ++ s))

end SubjectType

namespace Store

inductive Role where
  | member
  | admin
  deriving DecidableEq

namespace Role

def atLeast (r other : Role) : Bool := r == .admin || other == .member

def asStr : Role → Str
  | .member => "member".toList
  | .admin => "admin".toList

def parse (s : Str) : Except Error Role :=
  if s = "admin".toList then .ok .admin
  else if s = "member".toList ∨ s = "user".toList then .ok .member
  else .error (.badRequest ("unknown role: ".toList ++ s))

end Role

/-- What a key may be used for. -/
inductive KeyScope where
  | inference
  | admin
  deriving DecidableEq

namespace KeyScope

def parse (s : Str) : Except Error KeyScope :=
  if s = "inference".toList then .ok .inference
  else if s = "admin".toList then .ok .admin
  else .error (.badRequest ("unknown key scope: ".toList ++ s))

def trim (s : Str) : Str := (Wire.trimEnd s).dropWhile Wire.isWhitespace

/-- The names of a set, apart by blanks, commas or tabs. -/
def names (s : Str) : List Str :=
  ((s.splitOnP fun c => c = ' ' ∨ c = ',' ∨ c = '\t').map trim).filter (· ≠ [])

def addScope (out : List KeyScope) (scope : KeyScope) : List KeyScope :=
  if scope ∈ out then out else out ++ [scope]

def parseNames (out : List KeyScope) : List Str → Except Error (List KeyScope)
  | [] => .ok out
  | name :: rest =>
      match parse name with
      | .ok scope => parseNames (addScope out scope) rest
      | .error e => .error e

def parseSet (s : Str) : Except Error (List KeyScope) :=
  match parseNames [] (names s) with
  | .ok [] => .ok [.inference]
  | r => r

/-- A set as it is read back from its column, where it stands in order. -/
def stored (scopes : List KeyScope) : List KeyScope :=
  if scopes = [] then [.inference] else [.admin, .inference].filter (· ∈ scopes)

end KeyScope

structure UserRow where
  id : Id
  username : Str
  passwordHash : Str
  role : Role
  rpmLimit : Option Int := none
  tpmLimit : Option Int := none
  maxConcurrent : Option Int := none
  createdAt : Timestamp
  lastLoginAt : Option Timestamp := none
  deletedAt : Option Timestamp := none
  deriving DecidableEq

def UserRow.live (u : UserRow) : Bool := u.deletedAt.isNone

def UserRow.isAdmin (u : UserRow) : Bool := u.role == .admin && u.live

structure SessionRow where
  token : Str
  userId : Id
  createdAt : Timestamp
  expiresAt : Timestamp
  deriving DecidableEq

structure ApiKeyRow where
  id : Id
  ownerUserId : Id
  teamId : Option Id := none
  hash : Str
  keyPrefix : Str
  keySuffix : Str
  name : Option Str := none
  scopes : List KeyScope
  access : AccessPolicy := {}
  rpmLimit : Option Int := none
  tpmLimit : Option Int := none
  maxConcurrent : Option Int := none
  createdAt : Timestamp
  lastUsedAt : Option Timestamp := none
  deletedAt : Option Timestamp := none
  deriving DecidableEq

namespace ApiKeyRow

def live (k : ApiKeyRow) : Bool := k.deletedAt.isNone

def hasScope (k : ApiKeyRow) (scope : KeyScope) : Bool := scope ∈ k.scopes

end ApiKeyRow

/-- What a key is issued with, and keeps. -/
structure Issue where
  id : Id
  ownerUserId : Id
  teamId : Option Id
  scopes : List KeyScope
  deriving DecidableEq

def ApiKeyRow.issue (k : ApiKeyRow) : Issue := ⟨k.id, k.ownerUserId, k.teamId, k.scopes⟩

structure TeamRow where
  id : Id
  name : Str
  access : AccessPolicy := {}
  createdAt : Timestamp
  updatedAt : Timestamp
  deletedAt : Option Timestamp := none
  createdBy : Option Str := none
  deriving DecidableEq

structure MembershipRow where
  id : Id
  teamId : Id
  userId : Id
  createdAt : Timestamp
  deriving DecidableEq

/-- A user is in a team once. -/
def MembershipRow.place (m : MembershipRow) : Id × Id := (m.teamId, m.userId)

inductive Period where
  | day
  | week
  | month
  | total
  deriving DecidableEq

inductive BudgetAction where
  | block
  | alert
  deriving DecidableEq

structure BudgetRow where
  id : Id
  subjectType : SubjectType
  subjectId : Id
  period : Period
  hardLimitMicros : Micros
  softLimitMicros : Option Micros := none
  action : BudgetAction := .block
  enabled : Bool := true
  createdAt : Timestamp
  updatedAt : Timestamp
  deletedAt : Option Timestamp := none
  deriving DecidableEq

/-- A subject's spend on a day. -/
structure SpendRow where
  subjectType : SubjectType
  subjectId : Id
  period : Period := .day
  periodStart : Timestamp
  spendMicros : Micros := 0
  requestCount : Int := 0
  inputTokens : Int := 0
  outputTokens : Int := 0
  deriving DecidableEq

/-- A day of traffic for one key, person, model and surface. -/
structure UsageRow where
  day : Str
  apiKeyId : Option Id
  userId : Option Id
  model : Str
  surface : Str
  requests : Int
  errors : Int
  inputTokens : Int
  outputTokens : Int
  costMicros : Micros
  cacheReadTokens : Int
  deriving DecidableEq

/-- The extras of a provider. -/
structure Extra where
  cloudflareAccess : Bool := false
  headers : List (Str × Str) := []
  vision : Bool := false
  rest : List (Str × Value) := []

/-- The columns of a provider that say how it is reached. -/
structure EndpointRow where
  providerId : Id
  apiBase : Option Str := none
  apiKey : Option Str := none
  extra : Extra := {}

structure HealthRow where
  deploymentId : Id
  healthy : Bool
  checkKind : Str
  status : Option Nat := none
  latencyMs : Nat := 0
  detail : Option Str := none
  checkedAt : Timestamp
  deriving DecidableEq

inductive Redaction where
  | patterns
  | metadataOnly
  | none
  deriving DecidableEq

structure CapturePolicy where
  enabled : Bool := false
  redaction : Redaction := .patterns
  retentionDays : Nat := 30
  deriving DecidableEq

inductive LogLevel where
  | error
  | warn
  | info
  | debug
  deriving DecidableEq

end Store

end Gateway
