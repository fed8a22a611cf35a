import Gateway.Server.Admin.Api

/-! What the handlers ask: each of them meets whatever its queries meet. -/
namespace Gateway.Server

open Json Store Program Handler

/-- All queries but the insert of a key and that of a model. -/
def plain : Query → Bool
  | .store (.createApiKey _) | .store (.upsertModel _ _) => false
  | _ => true

/-- A handler that asks nothing it may not, whatever was seen before. -/
def Asks (ok : Seen → Query → Prop) {α : Type} (h : Handler α) : Prop :=
  ∀ seen, h.Wary ok seen

/-- Plain queries are let through, and the making of a model is. -/
class Lenient (ok : Seen → Query → Prop) : Prop where
  plain : ∀ seen q, plain q = true → ok seen q
  ensureModel : ∀ name, Asks ok (ensureModel name)

section

variable {ok : Seen → Query → Prop} {α β : Type}

theorem Asks.bind {h : Handler α} {f : α → Handler β} (hFirst : Asks ok h)
    (hNext : ∀ a, Asks ok (f a)) : Asks ok (h >>= f) :=
  fun seen => (hFirst seen).bind fun a seen => hNext a seen

theorem asks_done (a : α) : Asks ok (done a) := fun _ => trivial

theorem asks_fail (e : Error) : Asks ok (fail e : Handler α) := fun _ => trivial

theorem asks_ask {q : Query} (h : ∀ seen, ok seen q) : Asks ok (ask q : Handler q.Answer) :=
  fun seen => wary_query.mpr ⟨h seen, fun _ => trivial⟩

theorem asks_ofExcept (r : Except Error α) : Asks ok (ofExcept r) := by
  cases r with
  | ok a => exact asks_done a
  | error e => exact asks_fail e

theorem asks_found (what : Str) (r : Option α) : Asks ok (found what r) := by
  cases r with
  | some a => exact asks_done a
  | none => exact asks_fail _

theorem asks_require (c : Bool) (e : Error) : Asks ok (require c e) := by
  cases c with
  | true => exact asks_done ()
  | false => exact asks_fail e

theorem asks_authz (p : Principal) (action : Action) : Asks ok (authz p action) :=
  asks_ofExcept _

theorem asks_attempt {h : Handler α} (hAsks : Asks ok h) : Asks ok (attempt h) := by
  intro seen
  have hWary := hAsks seen
  clear hAsks
  induction h generalizing seen with
  | done a => exact trivial
  | fail e => exact trivial
  | query q next ih =>
      obtain ⟨hQuery, hNext⟩ := wary_query.mp hWary
      exact wary_query.mpr ⟨hQuery, fun a => ih a _ (hNext a)⟩

theorem asks_discard {h : Handler α} (hAsks : Asks ok h) : Asks ok (discard h) :=
  .bind hAsks fun _ => asks_done ()

variable [Lenient ok]

theorem asks_plain {q : Query} (h : plain q = true) : Asks ok (ask q : Handler q.Answer) :=
  asks_ask fun seen => Lenient.plain seen q h

theorem asks_fresh : Asks ok fresh := asks_plain rfl

theorem asks_now : Asks ok now := asks_plain rfl

theorem asks_outside (o : Outside) : Asks ok (outside o) := asks_plain rfl

theorem asks_tryStore {s : Statement} (h : plain (.store s) = true) : Asks ok (tryStore s) :=
  asks_plain h

theorem asks_store {s : Statement} (h : plain (.store s) = true) : Asks ok (store s) :=
  (asks_tryStore h).bind asks_ofExcept

/-! ### Operations of the store -/

theorem asks_verifyApiKey (hash : Str) : Asks ok (verifyApiKey hash) := by
  apply Asks.bind (asks_store rfl)
  rintro (_ | key)
  · exact asks_done none
  · apply Asks.bind (asks_store rfl)
    rintro (_ | user) <;> exact asks_done _

theorem asks_ensureModel (name : Str) : Asks ok (ensureModel name) := Lenient.ensureModel name

theorem asks_renameModel (id : Id) (newName : Str) : Asks ok (renameModel id newName) :=
  .bind (asks_store rfl) fun _ => .bind (asks_store rfl) fun model => asks_found _ model

theorem asks_ensureProvider (name : Str) : Asks ok (ensureProvider name) :=
  .bind asks_fresh fun _ => asks_store rfl

theorem asks_updateProvider (id : Id) (name : Str) (apiBase apiKey : Option Str) (extra : Extra) :
    Asks ok (updateProvider id name apiBase apiKey extra) :=
  .bind (asks_store rfl) fun _ => .bind (asks_require _ _) fun _ => .bind (asks_store rfl) fun _ =>
    .bind (asks_store rfl) fun provider => asks_found _ provider

theorem asks_deleteProvider (id : Id) : Asks ok (deleteProvider id) :=
  .bind (asks_store rfl) fun _ => .bind (asks_require _ _) fun _ => asks_store rfl

theorem asks_createDeployment (dep : NewDeployment) : Asks ok (createDeployment dep) :=
  .bind (asks_ensureModel _) fun _ => .bind (asks_ensureProvider _) fun _ =>
    .bind asks_fresh fun _ => .bind (asks_store rfl) fun _ =>
      .bind (asks_store rfl) fun deployment => asks_found _ deployment

theorem asks_seedDeployment (dep : NewDeployment) : Asks ok (seedDeployment dep) := by
  apply Asks.bind (asks_ensureModel _)
  intro model
  apply Asks.bind (asks_ensureProvider _)
  intro provider
  apply Asks.bind (asks_store rfl)
  rintro (_ | _)
  · exact .bind (.bind (asks_createDeployment dep) fun _ => asks_done ()) fun _ => asks_done true
  · exact asks_done false

theorem asks_upsertAlias (name : Str) (modelId : Id) : Asks ok (upsertAlias name modelId) := by
  apply Asks.bind (asks_store rfl)
  intro _
  apply Asks.bind (asks_store rfl)
  rintro (_ | record)
  · exact asks_fail _
  · exact asks_done record

theorem asks_reloadModels : Asks ok reloadModels :=
  .bind (asks_store rfl) fun _ => .bind (asks_store rfl) fun _ => asks_outside _

/-- What a write to the catalogue ends with. -/
theorem asks_reload (reply : Reply) : Asks ok (reloadModels >>= fun _ => pure reply) :=
  .bind asks_reloadModels fun _ => asks_done reply

/-! ### Requests -/

theorem asks_upsertSsoUser (state : AppState) (sso : SsoUser) : Asks ok (upsertSsoUser state sso) := by
  apply Asks.bind (asks_require _ _)
  intro _
  apply Asks.bind (asks_store rfl)
  rintro (_ | user)
  · exact .bind asks_fresh fun id => .bind asks_now fun now => .bind (asks_store rfl) fun _ =>
      asks_done _
  · exact asks_done user

theorem asks_guardLastAdmin (id : Id) (losingAdmin : Bool) :
    Asks ok (guardLastAdmin id losingAdmin) := by
  cases losingAdmin with
  | false => exact asks_done ()
  | true =>
      apply Asks.bind (asks_store rfl)
      intro user
      apply Asks.bind (asks_found _ user)
      intro target
      split
      · exact .bind (asks_tryStore rfl) fun admins => asks_require _ _
      · exact asks_done ()

theorem asks_inviteUser (state : AppState) (p : Principal) (email : Str) (role : Option Str) :
    Asks ok (inviteUser state p email role) := by
  apply Asks.bind (asks_authz p _)
  intro _
  apply Asks.bind (asks_require _ _)
  intro _
  apply Asks.bind (asks_ofExcept _)
  intro role
  apply Asks.bind (asks_require _ _)
  intro _
  apply Asks.bind (asks_outside _)
  intro invited
  apply Asks.bind (asks_ofExcept invited)
  intro _
  apply Asks.bind (asks_store rfl)
  rintro (_ | user)
  · exact .bind asks_fresh fun id => .bind asks_now fun now => .bind (asks_store rfl) fun _ =>
      asks_done _
  · exact .bind (asks_store rfl) fun _ => asks_done _

theorem asks_changeMyPassword (state : AppState) (p : Principal)
    (currentPassword newPassword : Str) :
    Asks ok (changeMyPassword state p currentPassword newPassword) := by
  apply Asks.bind (asks_store rfl)
  rintro (_ | user)
  · exact asks_fail _
  · exact .bind (asks_require _ _) fun _ => .bind (asks_require _ _) fun _ =>
      .bind (asks_ofExcept _) fun hash => .bind (asks_store rfl) fun _ => asks_done _

theorem asks_ownKeyOrAdmin (p : Principal) (id : Id) : Asks ok (ownKeyOrAdmin p id) :=
  .bind (asks_store rfl) fun key => .bind (asks_found _ key) fun key =>
    .bind (asks_require _ _) fun _ => asks_done key

theorem asks_updateKey (p : Principal) (id : Id) (body : List (Str × Value)) :
    Asks ok (updateKey p id body) := by
  apply Asks.bind (asks_ownKeyOrAdmin p id)
  intro key
  apply Asks.bind (asks_ofExcept _)
  intro rpm
  apply Asks.bind (asks_ofExcept _)
  intro tpm
  apply Asks.bind (asks_ofExcept _)
  intro maxConcurrent
  apply Asks.bind (asks_ofExcept _)
  have hLimits : Asks ok (store (.updateApiKeyLimits id rpm tpm maxConcurrent) >>= fun _ =>
      store (.getApiKey id) >>= fun updated => pure (Reply.key (Option.map shown updated))) :=
    .bind (asks_store rfl) fun _ => .bind (asks_store rfl) fun updated => asks_done _
  rintro (_ | name)
  · exact hLimits
  · exact .bind (asks_store rfl) fun _ => hLimits

theorem asks_putPolicy (p : Principal) (policy : CapturePolicy) : Asks ok (putPolicy p policy) := by
  apply Asks.bind (asks_require _ _)
  intro _
  have hKeep : Asks ok (store (.setCapturePolicy policy) >>= fun _ =>
      outside (.applyPolicy policy) >>= fun _ => pure (Reply.policy policy)) :=
    .bind (asks_store rfl) fun _ => .bind (asks_outside _) fun _ => asks_done _
  split
  · exact .bind (asks_outside _) fun available => .bind (asks_require _ _) fun _ => hKeep
  · exact hKeep

theorem asks_putLevel (p : Principal) (level : LogLevel) : Asks ok (putLevel p level) := by
  apply Asks.bind (asks_require _ _)
  intro _
  apply Asks.bind (asks_store rfl)
  intro before
  apply Asks.bind (asks_outside _)
  intro applied
  apply Asks.bind (asks_ofExcept applied)
  intro _
  apply Asks.bind (asks_tryStore rfl)
  rintro (e | _)
  · cases before with
    | none => exact .bind (.bind (asks_outside _) fun _ => asks_done ()) fun _ => asks_fail e
    | some level =>
        exact .bind (.bind (asks_outside _) fun _ => asks_done ()) fun _ => asks_fail e
  · exact asks_done _

theorem asks_createProvider (p : Principal) (body : ProviderBody) :
    Asks ok (createProvider p body) := by
  apply Asks.bind (asks_authz p _)
  intro _
  apply Asks.bind (asks_ofExcept _)
  intro name
  have hMake : Asks ok (ensureProvider name >>= fun created =>
      updateProvider created.id name body.apiBase body.apiKey body.extra >>= fun updated =>
        reloadModels >>= fun _ => pure (Reply.provider (providerView updated))) :=
    .bind (asks_ensureProvider name) fun created =>
      .bind (asks_updateProvider _ _ _ _ _) fun updated => asks_reload _
  apply Asks.bind (asks_tryStore rfl)
  rintro (e | (_ | provider))
  · exact hMake
  · exact hMake
  · exact asks_fail _

theorem asks_editProvider (p : Principal) (id : Id) (body : ProviderBody) :
    Asks ok (editProvider p id body) := by
  apply Asks.bind (asks_authz p _)
  intro _
  apply Asks.bind (asks_ofExcept _)
  intro name
  have hEdit : Asks ok (
      updateProvider id name body.apiBase (body.apiKey.filter (· ≠ [])) body.extra >>=
        fun updated => reloadModels >>= fun _ => pure (Reply.provider (providerView updated))) :=
    .bind (asks_updateProvider _ _ _ _ _) fun updated => asks_reload _
  apply Asks.bind (asks_tryStore rfl)
  rintro (e | (_ | provider))
  · exact hEdit
  · exact asks_fail _
  · exact hEdit

theorem asks_bulkDeployments (provider : Str) (format : UpstreamFormat)
    (models : List (Str × Str)) (acc : Nat × Nat × List (Str × Str)) :
    Asks ok (bulkDeployments provider format models acc) := by
  induction models generalizing acc with
  | nil => exact asks_done acc
  | cons model rest ih =>
      unfold bulkDeployments
      split
      · exact ih _
      · apply Asks.bind (asks_attempt (asks_seedDeployment _))
        rintro (e | (_ | _)) <;> exact ih _

theorem asks_createAlias (p : Principal) (name target : Str) : Asks ok (createAlias p name target) :=
  .bind (asks_authz p _) fun _ => .bind (asks_require _ _) fun _ =>
    .bind (asks_require _ _) fun _ => .bind (asks_ofExcept _) fun _ =>
      .bind (asks_store rfl) fun model => .bind (asks_found _ model) fun _ =>
        .bind (asks_store rfl) fun _ => .bind (asks_require _ _) fun _ =>
          .bind (asks_upsertAlias _ _) fun _ => asks_reload _

theorem asks_probe (d : Id × Deployment) : Asks ok (probe d) :=
  .bind (asks_outside _) fun report =>
    .bind (.bind asks_now fun _ => .bind (asks_tryStore rfl) fun _ => asks_done ()) fun _ =>
      asks_done report

theorem asks_probeAll (ds : List (Id × Deployment)) : Asks ok (probeAll ds) := by
  induction ds with
  | nil => exact asks_done []
  | cons d rest ih => exact .bind (asks_probe d) fun report => .bind ih fun reports => asks_done _

theorem asks_complete (state : AppState) (p : Principal) (kind q : Str) (limit : Option Nat) :
    Asks ok (complete state p kind q limit) := by
  unfold complete
  split
  · exact .bind (asks_authz p _) fun _ => .bind (asks_store rfl) fun deployments =>
      .bind (asks_store rfl) fun providers => asks_done _
  · split
    · exact .bind (asks_authz p _) fun _ => .bind (asks_store rfl) fun deployments =>
        .bind (asks_tryStore rfl) fun aliases => .bind (asks_store rfl) fun models => asks_done _
    · split
      · exact .bind (asks_authz p _) fun _ => .bind (asks_store rfl) fun users => asks_done _
      · exact asks_fail _

/-- Only the request to create a key issues one. -/
theorem asks_handle (state : AppState) (p : Principal) {req : Request}
    (h : ∀ body, req ≠ .createKey body) : Asks ok (handle state p req) := by
  cases req with
  | createKey body => exact absurd rfl (h body)
  | malformed message => exact asks_fail _
  | me => exact asks_done _
  | changeMyPassword currentPassword newPassword => exact asks_changeMyPassword state p _ _
  | listUsers | listDeployments | listAliases | lastHealth | listTeams | listMembers | spend =>
      exact .bind (asks_authz p _) fun _ => .bind (asks_store rfl) fun _ => asks_done _
  | createUser username password role =>
      exact .bind (asks_authz p _) fun _ => .bind (asks_require _ _) fun _ =>
        .bind (asks_ofExcept _) fun _ => .bind (asks_ofExcept _) fun _ =>
          .bind asks_fresh fun _ => .bind asks_now fun _ => .bind (asks_store rfl) fun _ =>
            asks_done _
  | inviteUser email role => exact asks_inviteUser state p email role
  | deleteUser id =>
      exact .bind (asks_authz p _) fun _ => .bind (asks_guardLastAdmin _ _) fun _ =>
        .bind (asks_store rfl) fun _ => asks_done _
  | setUserRole id role =>
      exact .bind (asks_authz p _) fun _ => .bind (asks_ofExcept _) fun _ =>
        .bind (asks_guardLastAdmin _ _) fun _ => .bind (asks_store rfl) fun _ => asks_done _
  | setUserPassword id password =>
      exact .bind (asks_authz p _) fun _ => .bind (asks_ofExcept _) fun _ =>
        .bind (asks_store rfl) fun _ => asks_done _
  | listModels =>
      exact .bind (asks_authz p _) fun _ => .bind (asks_store rfl) fun _ =>
        .bind (asks_store rfl) fun _ => .bind (asks_store rfl) fun _ => asks_done _
  | createModel name =>
      exact .bind (asks_authz p _) fun _ => .bind (asks_ofExcept _) fun _ =>
        .bind (asks_ensureModel _) fun _ => asks_reload _
  | renameModel id name =>
      exact .bind (asks_authz p _) fun _ => .bind (asks_ofExcept _) fun _ =>
        .bind (asks_renameModel _ _) fun _ => asks_reload _
  | createDeployment body =>
      exact .bind (asks_authz p _) fun _ => .bind (asks_ofExcept _) fun _ =>
        .bind (asks_ofExcept _) fun _ => .bind (asks_createDeployment _) fun _ => asks_reload _
  | healthAllModels =>
      exact .bind (asks_authz p _) fun _ => .bind (asks_store rfl) fun _ =>
        .bind (asks_outside _) fun _ => asks_done _
  | deleteDeployment id | deleteAlias name =>
      exact .bind (asks_authz p _) fun _ => .bind (asks_store rfl) fun _ => asks_reload _
  | healthOneModel id =>
      exact .bind (asks_authz p _) fun _ => .bind (asks_store rfl) fun d =>
        .bind (asks_found _ d) fun d => .bind (asks_probe d) fun _ => asks_done _
  | healthModel id =>
      exact .bind (asks_authz p _) fun _ => .bind (asks_store rfl) fun _ =>
        .bind (asks_require _ _) fun _ => .bind (asks_probeAll _) fun _ => asks_done _
  | listProviders =>
      exact .bind (asks_authz p _) fun _ => .bind (asks_store rfl) fun _ =>
        .bind (asks_store rfl) fun _ => asks_done _
  | createProvider body => exact asks_createProvider p body
  | updateProvider id body => exact asks_editProvider p id body
  | deleteProvider id =>
      exact .bind (asks_authz p _) fun _ => .bind (asks_deleteProvider id) fun _ => asks_reload _
  | discoverProviderModels id format =>
      exact .bind (asks_authz p _) fun _ => .bind (asks_store rfl) fun provider =>
        .bind (asks_found _ provider) fun provider => .bind (asks_outside _) fun models =>
          .bind (asks_ofExcept models) fun _ => .bind (asks_store rfl) fun _ => asks_done _
  | createDeploymentsBulk body =>
      exact .bind (asks_authz p _) fun _ => .bind (asks_ofExcept _) fun _ =>
        .bind (asks_bulkDeployments _ _ _ _) fun _ => asks_reload _
  | createAlias name target => exact asks_createAlias p name target
  | listKeys =>
      show Asks ok (listKeys p)
      unfold listKeys
      split <;> exact .bind (asks_store rfl) fun _ => asks_done _
  | getKey id => exact .bind (asks_ownKeyOrAdmin p id) fun _ => asks_done _
  | updateKey id body => exact asks_updateKey p id body
  | deleteKey id | keyAccess id access =>
      exact .bind (asks_ownKeyOrAdmin p id) fun _ => .bind (asks_store rfl) fun _ => asks_done _
  | createTeam name access =>
      exact .bind (asks_authz p _) fun _ => .bind asks_fresh fun _ => .bind asks_now fun _ =>
        .bind asks_now fun _ => .bind (asks_store rfl) fun _ => asks_done _
  | deleteTeam id | teamAccess id access | removeMember teamId userId | putBudget budget
  | deleteBudget id =>
      exact .bind (asks_authz p _) fun _ => .bind (asks_store rfl) fun _ => asks_done _
  | addMember teamId userId =>
      exact .bind (asks_authz p _) fun _ => .bind asks_fresh fun _ => .bind asks_now fun _ =>
        .bind (asks_store rfl) fun _ => asks_done _
  | listBudgets subjectType subjectId =>
      exact .bind (asks_authz p _) fun _ => .bind (asks_ofExcept _) fun _ =>
        .bind (asks_store rfl) fun _ => asks_done _
  | complete kind q limit => exact asks_complete state p kind q limit
  | usage start stop =>
      exact .bind (asks_require _ _) fun _ => .bind (asks_require _ _) fun _ =>
        .bind (asks_store rfl) fun _ => asks_done _
  | getPolicy =>
      exact .bind (asks_require _ _) fun _ => .bind (asks_outside _) fun _ =>
        .bind (asks_outside _) fun _ => asks_done _
  | putPolicy policy => exact asks_putPolicy p policy
  | exportTurns body =>
      exact .bind (asks_require _ _) fun _ => .bind (asks_ofExcept _) fun _ =>
        .bind (asks_outside _) fun turns => .bind (asks_ofExcept turns) fun _ => asks_done _
  | forgetTurns keys =>
      exact .bind (asks_require _ _) fun _ => .bind (asks_require _ _) fun _ =>
        .bind (asks_outside _) fun turns => .bind (asks_ofExcept turns) fun _ => asks_done _
  | getLevel =>
      exact .bind (asks_require _ _) fun _ => .bind (asks_store rfl) fun _ => asks_done _
  | putLevel level => exact asks_putLevel p level

/-! ### Signing in -/

theorem asks_fromRequestParts (state : AppState) (c : Credentials) :
    Asks ok (fromRequestParts state c) := by
  have hSession : ∀ token, Asks ok (sessionPrincipal token) := by
    intro token
    apply Asks.bind (asks_tryStore rfl)
    rintro (e | (_ | session))
    · exact asks_done none
    · exact asks_done none
    · apply Asks.bind (asks_tryStore rfl)
      rintro (e | (_ | user)) <;> exact asks_done _
  have hShared : ∀ token, Asks ok (sharedPrincipal state token) := by
    intro token
    apply Asks.bind (asks_outside _)
    rintro (e | sso)
    · exact asks_done none
    · exact .bind (asks_upsertSsoUser state sso) fun _ => .bind asks_now fun _ => asks_done _
  have hSessionCookie : Asks ok (fromSessionCookie c) := by
    unfold fromSessionCookie
    split
    · exact hSession _
    · exact asks_done none
  have hSharedCookie : Asks ok (fromSharedCookie state c) := by
    unfold fromSharedCookie
    split
    · exact hShared _
    · exact asks_done none
  have hCookie : Asks ok (cookiePrincipal state c) := by
    apply Asks.bind hSessionCookie
    rintro (_ | p)
    · apply Asks.bind hSharedCookie
      rintro (_ | p)
      · exact asks_fail _
      · exact asks_done p
    · exact asks_done p
  unfold fromRequestParts
  split
  · apply Asks.bind (asks_verifyApiKey _)
    rintro (_ | auth)
    · exact asks_fail _
    · exact .bind (asks_require _ _) fun _ => .bind (asks_tryStore rfl) fun _ =>
        .bind asks_now fun _ => asks_done _
  · exact hCookie

theorem asks_signIn (state : AppState) (c : Credentials) (s : SignIn) :
    Asks ok (signIn state c s) := by
  have hMint : ∀ user, Asks ok (mintSessionResponse user) := fun user =>
    .bind (asks_tryStore rfl) fun _ => .bind asks_fresh fun _ => .bind asks_fresh fun _ =>
      .bind asks_now fun _ => .bind asks_now fun _ => .bind (asks_store rfl) fun _ => asks_done _
  cases s with
  | config => exact asks_done _
  | login username password =>
      have hUser : Asks ok (loginUser state username password) := by
        apply Asks.bind (asks_require _ _)
        intro _
        apply Asks.bind (asks_store rfl)
        rintro (_ | user)
        · exact asks_fail _
        · exact .bind (asks_require _ _) fun _ => asks_done user
      exact .bind hUser hMint
  | ssoStart email turnstileToken =>
      exact .bind (asks_require _ _) fun _ => .bind (asks_outside _) fun r =>
        .bind (asks_ofExcept r) fun _ => asks_done _
  | ssoCode email code =>
      exact .bind (.bind (asks_require _ _) fun _ => .bind (asks_outside _) fun r =>
        .bind (asks_ofExcept r) fun sso => asks_upsertSsoUser state sso) hMint
  | ssoVerify token =>
      exact .bind (.bind (asks_require _ _) fun _ => .bind (asks_outside _) fun r =>
        .bind (asks_ofExcept r) fun sso => asks_upsertSsoUser state sso) hMint
  | logout =>
      have hSession : Asks ok (endSession c) := by
        unfold endSession
        split
        · exact .bind (asks_tryStore rfl) fun _ => asks_done ()
        · exact asks_done ()
      have hShared : Asks ok (endSharedSession state c) := by
        unfold endSharedSession
        split
        · exact .bind (asks_outside _) fun _ => asks_done ()
        · exact asks_done ()
      exact .bind hSession fun _ => .bind hShared fun _ => asks_done _

end

end Gateway.Server
