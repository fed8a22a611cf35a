import Gateway.Server.Admin.Api

/-! What a request of a member writes: their own user and their own keys. -/
namespace Gateway.Server

open Json Store Program Handler

/-- The rows that are not a user's own. -/
structure Others where
  users : List UserRow
  apiKeys : List ApiKeyRow
  teams : List TeamRow
  memberships : List MembershipRow
  budgets : List BudgetRow
  capturePolicy : Option CapturePolicy
  logLevel : Option LogLevel
  catalog : Catalog
  endpoints : List EndpointRow

def others (db : Db) (userId : Id) : Others where
  users := db.users.rows.filter (·.id != userId)
  apiKeys := db.apiKeys.rows.filter (·.ownerUserId != userId)
  teams := db.teams.rows
  memberships := db.memberships.rows
  budgets := db.budgets.rows
  capturePolicy := db.capturePolicy
  logLevel := db.logLevel
  catalog := db.catalog
  endpoints := db.endpoints.rows

/-- The ids of the keys with the admin scope. -/
def adminKeys (db : Db) : List Id := (db.apiKeys.rows.filter (·.hasScope .admin)).map ApiKeyRow.id

/-- Nothing of anybody else's is changed, and no key with the admin scope comes
into being. -/
def OthersKept (userId : Id) (db db' : Db) : Prop :=
  others db' userId = others db userId ∧ adminKeys db' = adminKeys db

section

variable {userId : Id} {db db' db'' : Db}

theorem OthersKept.refl (userId : Id) (db : Db) : OthersKept userId db db := ⟨rfl, rfl⟩

theorem OthersKept.trans (first : OthersKept userId db db') (second : OthersKept userId db' db'') :
    OthersKept userId db db'' :=
  ⟨second.1.trans first.1, second.2.trans first.2⟩

/-- A change of the users that leaves those of other ids alone. -/
theorem othersKept_users {users : Table UserRow.id}
    (h : users.rows.filter (·.id != userId) = db.users.rows.filter (·.id != userId)) :
    OthersKept userId db { db with users := users } :=
  ⟨by simp only [others, h], rfl⟩

theorem adminKeys_congr (h : db.issues = db'.issues) : adminKeys db = adminKeys db' := by
  have hIssues : ∀ db : Db, adminKeys db =
      (db.issues.filter fun i => decide (KeyScope.admin ∈ i.scopes)).map Issue.id := by
    intro db
    unfold adminKeys Db.issues
    rw [List.filter_map, List.map_map]
    rfl
  rw [hIssues, hIssues, h]

/-- A change of a user's columns, other than the id. -/
theorem othersKept_updateUser {p : UserRow → Bool} {f : UserRow → UserRow}
    (hKey : ∀ u, (f u).id = u.id) (hOwn : ∀ u, p u = true → u.id = userId) :
    OthersKept userId db { db with users := db.users.update p f hKey } := by
  refine othersKept_users (Table.filter_update hKey fun u _ hChanged => ?_)
  have hId := hOwn u hChanged
  exact ⟨by simp [hId], by simp [hKey u, hId]⟩

/-- A change of the columns of a key, other than those it was issued with. -/
theorem othersKept_updateApiKey {p : ApiKeyRow → Bool} {f : ApiKeyRow → ApiKeyRow}
    (hKey : ∀ k, (f k).id = k.id) (hIssue : ∀ k, (f k).issue = k.issue)
    (hOwn : ∀ k ∈ db.apiKeys.rows, p k = true → k.ownerUserId = userId) :
    OthersKept userId db { db with apiKeys := db.apiKeys.update p f hKey } := by
  refine ⟨?_, adminKeys_congr (Table.map_update hKey hIssue)⟩
  have hOthers : (db.apiKeys.update p f hKey).rows.filter (·.ownerUserId != userId) =
      db.apiKeys.rows.filter (·.ownerUserId != userId) := by
    refine Table.filter_update hKey fun k hk hChanged => ?_
    have hMine := hOwn k hk hChanged
    have hSame : (f k).ownerUserId = k.ownerUserId := congrArg Issue.ownerUserId (hIssue k)
    exact ⟨by simp [hMine], by simp [hSame, hMine]⟩
  simp only [others, hOthers]

end

/-! ### Statements within a member's reach -/

/-- What anybody may ask, and what a user may write of their own. -/
def Within (userId : Id) : Query → Prop
  | .store (.createUser user) => user.id = userId
  | .store (.setUserPassword id _) => id = userId
  | .store (.markUserLogin id) => id = userId
  | .store (.createApiKey key) => key.ownerUserId = userId ∧ .admin ∉ key.scopes
  | .store (.createSession _) => True
  | .store (.deleteSession _) => True
  | .store (.recordHealth _) => True
  | .store s => s.writes = false
  | _ => True

/-- Writes to the key of an id. -/
def KeyWrite (id : Id) : Query → Prop
  | .store (.markApiKeyUsed i) => i = id
  | .store (.deleteApiKey i) => i = id
  | .store (.updateApiKeyAccess i _) => i = id
  | .store (.updateApiKeyLimits i _ _ _) => i = id
  | .store (.renameApiKey i _) => i = id
  | _ => False

/-- Whatever has the id is a key of the user. -/
def OwnsKey (db : Db) (userId id : Id) : Prop :=
  ∀ i ∈ db.issues, i.id = id → i.ownerUserId = userId

theorem OwnsKey.row {db : Db} {userId id : Id} (h : OwnsKey db userId id) {k : ApiKeyRow}
    (hk : k ∈ db.apiKeys.rows) (hId : k.id = id) : k.ownerUserId = userId :=
  h k.issue (List.mem_map_of_mem hk) hId

/-- The key of an id is the only one. -/
theorem ownsKey_of_mem {db : Db} {k : ApiKeyRow} (hk : k ∈ db.apiKeys.rows) :
    OwnsKey db k.ownerUserId k.id := by
  intro i hi hId
  obtain ⟨k', hk', rfl⟩ := List.mem_map.mp hi
  rw [Table.eq_of_key hk' hk hId]
  rfl

theorem stored_not_admin {scopes : List KeyScope} (h : .admin ∉ scopes) :
    .admin ∉ KeyScope.stored scopes := by
  unfold KeyScope.stored
  split
  · simp
  · simp [h]

theorem othersKept_createUser {db : Db} (user : UserRow) :
    OthersKept user.id db (db.createUser user).2 := by
  unfold Db.createUser
  split
  · exact OthersKept.refl user.id db
  · split
    · next users hInsert => exact othersKept_users (Table.filter_insert hInsert (by simp))
    · exact OthersKept.refl user.id db

theorem executed_within {userId : Id} {s : Statement} (now : Timestamp) (db : Db)
    (h : Within userId (.store s)) : OthersKept userId db (s.execute now db).2 := by
  by_cases hWrites : s.writes = false
  · rw [Statement.execute_of_not_writes now db hWrites]
    exact OthersKept.refl userId db
  · cases s with
    | createUser user =>
        cases (h : user.id = userId)
        exact othersKept_createUser user
    | setUserPassword id passwordHash =>
        have hId : id = userId := h
        exact othersKept_updateUser (by exact fun _ => rfl) (by simp +contextual [hId])
    | markUserLogin id =>
        have hId : id = userId := h
        exact othersKept_updateUser (by exact fun _ => rfl) (by simp +contextual [hId])
    | createSession session =>
        show OthersKept userId db (db.createSession session).2
        unfold Db.createSession
        split <;> exact OthersKept.refl userId db
    | deleteSession token => exact OthersKept.refl userId db
    | createApiKey key =>
        obtain ⟨hOwner, hScopes⟩ : key.ownerUserId = userId ∧ KeyScope.admin ∉ key.scopes := h
        show OthersKept userId db (db.createApiKey key).2
        unfold Db.createApiKey
        split
        · exact OthersKept.refl userId db
        · split
          · next apiKeys hInsert =>
              have hOthers : apiKeys.rows.filter (·.ownerUserId != userId) =
                  db.apiKeys.rows.filter (·.ownerUserId != userId) :=
                Table.filter_insert hInsert (by simp [hOwner])
              have hAdmin : apiKeys.rows.filter (·.hasScope .admin) =
                  db.apiKeys.rows.filter (·.hasScope .admin) :=
                Table.filter_insert hInsert
                  (by simpa [ApiKeyRow.hasScope] using stored_not_admin hScopes)
              exact ⟨by simp only [others, hOthers], by simp only [adminKeys, hAdmin]⟩
          · exact OthersKept.refl userId db
    | recordHealth row =>
        show OthersKept userId db (db.recordHealth row).2
        unfold Db.recordHealth
        split
        · exact OthersKept.refl userId db
        · split <;> exact OthersKept.refl userId db
    | _ => exact absurd h hWrites

theorem executed_keyWrite {userId id : Id} {s : Statement} (now : Timestamp) {db : Db}
    (h : KeyWrite id (.store s)) (hOwns : OwnsKey db userId id) :
    OthersKept userId db (s.execute now db).2 := by
  cases s with
  | markApiKeyUsed i =>
      cases (h : i = id)
      exact othersKept_updateApiKey (by exact fun _ => rfl) (fun _ => rfl)
        fun k hk hId => hOwns.row hk (by simpa using hId)
  | deleteApiKey i =>
      cases (h : i = id)
      exact othersKept_updateApiKey (by exact fun _ => rfl) (fun _ => rfl)
        fun k hk hId => hOwns.row hk (by simpa using hId : _ ∧ _).1
  | updateApiKeyAccess i policy =>
      cases (h : i = id)
      exact othersKept_updateApiKey (by exact fun _ => rfl) (fun _ => rfl)
        fun k hk hId => hOwns.row hk (by simpa using hId)
  | updateApiKeyLimits i rpm tpm maxConcurrent =>
      cases (h : i = id)
      exact othersKept_updateApiKey (by exact fun _ => rfl) (fun _ => rfl)
        fun k hk hId => hOwns.row hk (by simpa using hId)
  | renameApiKey i name =>
      cases (h : i = id)
      exact othersKept_updateApiKey (by exact fun _ => rfl) (fun _ => rfl)
        fun k hk hId => hOwns.row hk (by simpa using hId)
  | _ => exact False.elim h

theorem answers_within {userId : Id} (q : Query) (db : Db) (a : q.Answer) (db' : Db)
    (h : Within userId q) (answered : Answers q db a db') : OthersKept userId db db' := by
  cases q with
  | store s =>
      rcases answered.store with ⟨_, _, rfl⟩ | ⟨now, hExecute⟩
      · exact OthersKept.refl userId db'
      · have hKept := executed_within now db h
        rwa [hExecute] at hKept
  | _ =>
      obtain ⟨env, hAnswer⟩ := answered
      cases hAnswer
      exact OthersKept.refl userId db

/-- A handler that stays within a user's reach leaves the others alone. -/
theorem keeps_of_wary {userId : Id} {α : Type} {h : Handler α}
    (hWary : h.Wary (fun _ q => Within userId q) []) : h.Keeps Answers (OthersKept userId) :=
  hWary.keeps (OthersKept.refl userId) (fun _ _ _ => OthersKept.trans) answers_within

/-! ### Requests within a member's reach -/

section

variable {p : Principal} {userId : Id} {seen : Seen}

theorem wary_remember (r : HealthReport) :
    (remember r).Wary (fun _ q => Within userId q) seen := by
  unfold remember
  refine wary_now trivial fun now => ?_
  exact wary_query.mpr ⟨trivial, fun _ => trivial⟩

theorem wary_probe (d : Id × Deployment) : (probe d).Wary (fun _ q => Within userId q) seen := by
  unfold probe
  exact wary_outside trivial fun r => (wary_remember r).bind fun _ _ => trivial

theorem wary_probeAll (ds : List (Id × Deployment)) :
    (probeAll ds).Wary (fun _ q => Within userId q) seen := by
  induction ds generalizing seen with
  | nil => exact wary_done _
  | cons d rest ih =>
      exact (wary_probe d).bind fun _ _ => ih.bind fun _ _ => trivial

theorem wary_complete (state : AppState) (hMember : p.isAdmin = false) (kind q : Str)
    (limit : Option Nat) :
    (complete state p kind q limit).Wary (fun _ q => Within userId q) seen := by
  unfold complete
  split
  · exact wary_authz (wary_store.mpr ⟨rfl, fun _ => wary_store.mpr ⟨rfl, fun _ => trivial⟩⟩)
  · split
    · refine wary_authz (wary_store.mpr ⟨rfl, fun _ => ?_⟩)
      exact wary_query.mpr ⟨rfl, fun _ => wary_store.mpr ⟨rfl, fun _ => trivial⟩⟩
    · split
      · exact wary_refused hMember rfl
      · exact wary_fail _

/-- A member's key is their own, and has no admin scope. -/
theorem wary_createKey (state : AppState) (hMember : p.isAdmin = false) (body : CreateKeyBody) :
    (createKey state p body).Wary (fun _ q => Within p.userId q) seen := by
  unfold createKey
  refine wary_ofExcept fun scopes _ => wary_require fun hScopes => wary_fresh trivial fun first =>
    wary_fresh trivial fun second => wary_fresh trivial fun id => wary_now trivial fun now => ?_
  refine wary_store.mpr ⟨⟨?_, ?_⟩, fun _ => trivial⟩
  · simp [newKey, keyOwner, hMember]
  · simpa [hMember, newKey] using hScopes

/-! ### A user's own key -/

/-- What a handler asks once it knows a key to be the user's. -/
def AboutKey (userId id : Id) (q : Query) : Prop :=
  KeyWrite id q ∨ (Within userId q ∧ ∀ key, q ≠ .store (.createApiKey key))

theorem answers_aboutKey {id : Id} (q : Query) (db : Db) (a : q.Answer) (db' : Db)
    (h : AboutKey userId id q) (answered : Answers q db a db') (hOwns : OwnsKey db userId id) :
    OthersKept userId db db' ∧ OwnsKey db' userId id := by
  have hIssues : db'.issues = db.issues := by
    cases q with
    | store s =>
        rcases answered.store with ⟨_, _, rfl⟩ | ⟨now, hExecute⟩
        · rfl
        · have hSame := Statement.issues_execute now db (s := s) ?_
          · rwa [hExecute] at hSame
          · rintro key rfl
            rcases h with h | h
            · exact h
            · exact h.2 key rfl
    | _ =>
        obtain ⟨env, hAnswer⟩ := answered
        cases hAnswer
        rfl
  refine ⟨?_, fun i hi => hOwns i (hIssues ▸ hi)⟩
  rcases h with h | h
  · cases q with
    | store s =>
        rcases answered.store with ⟨_, _, rfl⟩ | ⟨now, hExecute⟩
        · exact OthersKept.refl userId db'
        · have hKept := executed_keyWrite now h hOwns
          rwa [hExecute] at hKept
    | _ => exact False.elim h
  · exact answers_within q db a db' h.1 answered

/-- A member gets past the check with a key of their own only, and what comes
then is about that key. -/
theorem keeps_ownKey {α : Type} {id : Id} {f : ApiKeyRow → Handler α} (hMember : p.isAdmin = false)
    (hWary : ∀ key, (f key).Wary (fun _ q => AboutKey p.userId id q) []) :
    (ownKeyOrAdmin p id >>= f).Keeps Answers (OthersKept p.userId) := by
  intro db
  unfold ownKeyOrAdmin
  rw [bind_assoc]
  refine post_read rfl (fun _ => .refl _ db) fun now v hRead => ?_
  cases hRead
  rw [bind_assoc]
  refine post_found (.refl _ db) fun key hKey => ?_
  rw [bind_assoc]
  refine post_require (.refl _ db) fun hOwner => ?_
  obtain ⟨hMem, rfl⟩ := Table.get_eq_some hKey
  have hMine : key.ownerUserId = p.userId := by simpa [hMember] using hOwner
  have hOwns : OwnsKey db p.userId key.id := hMine ▸ ownsKey_of_mem hMem
  have hKeeps : (f key).Keeps Answers fun db db' =>
      OwnsKey db p.userId key.id → OthersKept p.userId db db' ∧ OwnsKey db' p.userId key.id := by
    refine (hWary key).keeps (fun db h => ⟨.refl _ db, h⟩) ?_ answers_aboutKey
    intro db db' db'' hFirst hSecond h
    obtain ⟨hKept, h'⟩ := hFirst h
    obtain ⟨hKept', h''⟩ := hSecond h'
    exact ⟨hKept.trans hKept', h''⟩
  exact wp_mono (hKeeps db) fun _ _ h => (h hOwns).1

theorem aboutKey_read {id : Id} {s : Statement} (h : Within userId (.store s))
    (hNew : ∀ key, s ≠ .createApiKey key := by intro _ h; cases h) :
    AboutKey userId id (.store s) :=
  .inr ⟨h, fun key hSame => hNew key (Query.store.inj hSame)⟩

/-- A user may set their own password. -/
theorem keeps_changeMyPassword (state : AppState) (currentPassword newPassword : Str) :
    (changeMyPassword state p currentPassword newPassword).Keeps Answers
      (OthersKept p.userId) := by
  intro db
  unfold changeMyPassword
  refine post_read rfl (fun _ => .refl _ db) fun now v hRead => ?_
  cases hRead
  cases hUser : db.getUser p.userId with
  | none => exact .refl _ db
  | some user =>
      have hId : user.id = p.userId := by
        have hFound := List.find?_some hUser
        simp only [Bool.and_eq_true, beq_iff_eq] at hFound
        exact hFound.1
      refine keeps_of_wary ?_ db
      refine wary_require fun _ => wary_require fun _ => wary_ofExcept fun hash _ => ?_
      exact wary_store.mpr ⟨hId, fun _ => trivial⟩

theorem keeps_updateKey (hMember : p.isAdmin = false) (id : Id) (body : List (Str × Value)) :
    (updateKey p id body).Keeps Answers (OthersKept p.userId) := by
  unfold updateKey
  refine keeps_ownKey hMember fun key => wary_ofExcept fun rpm _ => wary_ofExcept fun tpm _ =>
    wary_ofExcept fun maxConcurrent _ => wary_ofExcept fun name _ => ?_
  have hLimits : ∀ seen, (store (.updateApiKeyLimits id rpm tpm maxConcurrent) >>= fun _ =>
      store (.getApiKey id) >>= fun updated =>
        pure (Reply.key (Option.map shown updated))).Wary
      (fun _ q => AboutKey p.userId id q) seen := fun seen =>
    wary_store.mpr ⟨.inl rfl, fun _ => wary_store.mpr ⟨aboutKey_read rfl, fun _ => trivial⟩⟩
  cases name with
  | some name => exact wary_store.mpr ⟨.inl rfl, fun _ => hLimits _⟩
  | none => exact hLimits _

/-- No request of a member writes more than their own rows. -/
theorem keeps_handle (state : AppState) (hMember : p.isAdmin = false) (req : Request) :
    (handle state p req).Keeps Answers (OthersKept p.userId) := by
  cases req with
  | malformed message => exact keeps_fail (.refl _) _
  | me => exact keeps_done (.refl _) _
  | changeMyPassword currentPassword newPassword => exact keeps_changeMyPassword state _ _
  | listModels | listAliases | lastHealth | listProviders | listDeployments | spend =>
      refine keeps_of_wary (wary_authz ?_)
      repeat refine wary_store.mpr ⟨rfl, fun _ => ?_⟩
      trivial
  | healthAllModels =>
      refine keeps_of_wary (wary_authz (wary_store.mpr ⟨rfl, fun _ => ?_⟩))
      exact wary_outside trivial fun _ => trivial
  | healthOneModel id =>
      refine keeps_of_wary (wary_authz (wary_store.mpr ⟨rfl, fun _ => ?_⟩))
      exact wary_found fun d _ => (wary_probe d).bind fun _ _ => trivial
  | healthModel id =>
      refine keeps_of_wary (wary_authz (wary_store.mpr ⟨rfl, fun _ => ?_⟩))
      exact wary_require fun _ => (wary_probeAll _).bind fun _ _ => trivial
  | complete kind q limit => exact keeps_of_wary (wary_complete state hMember kind q limit)
  | listKeys =>
      refine keeps_of_wary ?_
      show (listKeys p).Wary _ _
      unfold listKeys
      rw [hMember]
      exact wary_store.mpr ⟨rfl, fun _ => trivial⟩
  | createKey body => exact keeps_of_wary (wary_createKey state hMember body)
  | getKey id => exact keeps_ownKey hMember fun key => trivial
  | updateKey id body => exact keeps_updateKey hMember id body
  | deleteKey id =>
      exact keeps_ownKey hMember fun key => wary_store.mpr ⟨.inl rfl, fun _ => trivial⟩
  | keyAccess id access =>
      exact keeps_ownKey hMember fun key => wary_store.mpr ⟨.inl rfl, fun _ => trivial⟩
  | listBudgets subjectType subjectId =>
      refine keeps_of_wary (wary_authz (wary_ofExcept fun _ _ => ?_))
      exact wary_store.mpr ⟨rfl, fun _ => trivial⟩
  | usage | getPolicy | putPolicy | exportTurns | forgetTurns | getLevel | putLevel =>
      refine keeps_of_wary (wary_require fun hAdmin => ?_)
      rw [hMember] at hAdmin
      cases hAdmin
  | _ => exact keeps_of_wary (wary_refused hMember rfl)

end

/-! ### Signing in -/

/-- What finding out who somebody is leaves: their own rows may have changed,
and nothing has where they are nobody. -/
def Identified {α : Type} (userId : α → Id) (db : Db) : Except Error α → Db → Prop
  | .ok a, db' => OthersKept (userId a) db db'
  | .error _, db' => db' = db

section

variable {state : AppState} {db : Db}

theorem createUser_error {user : UserRow} {e : Error} {db' : Db}
    (h : db.createUser user = (.error e, db')) : db' = db := by
  unfold Db.createUser at h
  split at h
  · cases h
    rfl
  · split at h
    · cases h
    · cases h
      rfl

theorem post_upsertSsoUser (sso : SsoUser) :
    (upsertSsoUser state sso).Post (Identified UserRow.id db) db := by
  unfold upsertSsoUser
  refine post_require rfl fun _ => post_read rfl (fun _ => rfl) fun _ v _ => ?_
  cases v with
  | some user => exact OthersKept.refl _ db
  | none =>
      refine post_fresh fun id => post_now fun now => ?_
      refine post_store (fun _ => rfl) fun now r db' hExecute => ?_
      cases r with
      | ok _ =>
          have hAfter : (db.createUser _).2 = db' := congrArg Prod.snd hExecute
          exact hAfter ▸ othersKept_createUser _
      | error e => exact createUser_error hExecute

/-- A key acts as its owner, and is marked as used. -/
theorem post_bearerPrincipal (bearer : Str) :
    (bearerPrincipal state bearer).Post (Identified Principal.userId db) db := by
  unfold bearerPrincipal verifyApiKey
  rw [bind_assoc]
  refine post_read rfl (fun _ => rfl) fun _ v hKey => ?_
  cases hKey
  cases hFound : db.findApiKey (state.hexSha256 bearer) with
  | none => exact rfl
  | some key =>
      rw [bind_assoc]
      refine post_read rfl (fun _ => rfl) fun _ v hUser => ?_
      cases hUser
      cases hOwner : db.getUser key.ownerUserId with
      | none => exact rfl
      | some user =>
          refine post_require rfl fun _ => ⟨trivial, fun a db' answered => post_now fun now => ?_⟩
          have hId : user.id = key.ownerUserId := by
            have hSome := List.find?_some hOwner
            simp only [Bool.and_eq_true, beq_iff_eq] at hSome
            exact hSome.1
          have hOwns : OwnsKey db user.id key.id :=
            hId ▸ ownsKey_of_mem (List.mem_of_find?_eq_some hFound)
          exact (answers_aboutKey (.store (.markApiKeyUsed key.id)) db a db' (.inl rfl) answered hOwns).1

/-- Reading the session changes nothing. -/
theorem keeps_sessionPrincipal (token : Str) :
    (sessionPrincipal token).Keeps Answers fun db db' => db' = db := by
  have hWary : (sessionPrincipal token).Wary
      (fun _ q => ∃ s : Statement, s.writes = false ∧ q = .store s) [] := by
    unfold sessionPrincipal
    refine wary_query.mpr ⟨⟨_, rfl, rfl⟩, fun r => ?_⟩
    rcases r with e | (_ | session)
    · trivial
    · trivial
    · refine wary_query.mpr ⟨⟨_, rfl, rfl⟩, fun r => ?_⟩
      rcases r with e | (_ | user) <;> trivial
  have hKeeps : (sessionPrincipal token).Keeps Answers Eq := by
    refine hWary.keeps (fun _ => rfl) (fun _ _ _ => Eq.trans) ?_
    rintro _ db a db' ⟨s, hReads, rfl⟩ answered
    rcases answered.store with ⟨_, _, rfl⟩ | ⟨now, hExecute⟩
    · rfl
    · have hSame := Statement.execute_of_not_writes now db hReads
      rw [hExecute] at hSame
      exact hSame.symm
  exact fun db => wp_mono (hKeeps db) fun _ _ h => h.symm

theorem post_sharedPrincipal (token : Str) :
    (sharedPrincipal state token).Post (fun r db' =>
      match r with
      | .ok (some p) => OthersKept p.userId db db'
      | _ => db' = db) db := by
  unfold sharedPrincipal
  refine post_outside fun r => ?_
  cases r with
  | error e => exact rfl
  | ok sso =>
      refine wp_bind.mpr (wp_mono (post_upsertSsoUser sso) ?_)
      rintro (e | user) db' hUser
      · exact hUser
      · exact post_now fun now => hUser

theorem post_fromSessionCookie (c : Credentials) :
    (fromSessionCookie c).Post (fun _ db' => db' = db) db := by
  unfold fromSessionCookie
  split
  · exact keeps_sessionPrincipal _ db
  · exact rfl

theorem post_fromSharedCookie (c : Credentials) :
    (fromSharedCookie state c).Post (fun r db' =>
      match r with
      | .ok (some p) => OthersKept p.userId db db'
      | _ => db' = db) db := by
  unfold fromSharedCookie
  split
  · exact post_sharedPrincipal _
  · exact rfl

theorem post_fromRequestParts (c : Credentials) :
    (fromRequestParts state c).Post (Identified Principal.userId db) db := by
  unfold fromRequestParts
  cases c.bearer with
  | some bearer => exact post_bearerPrincipal bearer
  | none =>
      show (cookiePrincipal state c).Post _ db
      refine wp_bind.mpr (wp_mono (post_fromSessionCookie c) ?_)
      rintro (e | (_ | p)) db' rfl
      · exact rfl
      · refine wp_bind.mpr (wp_mono (post_fromSharedCookie c) ?_)
        rintro (e | (_ | p)) db' h <;> exact h
      · exact OthersKept.refl p.userId db'

/-- The user of a sign-in. -/
theorem post_signInUser {s : SignIn} {login : Handler UserRow}
    (hLogin : signInUser state s = some login) : login.Post (Identified UserRow.id db) db := by
  cases s with
  | login username password =>
      cases hLogin
      refine post_require rfl fun _ => post_read rfl (fun _ => rfl) fun _ v _ => ?_
      cases v with
      | none => exact rfl
      | some user => exact post_require rfl fun _ => OthersKept.refl user.id db
  | ssoCode email code =>
      cases hLogin
      exact post_require rfl fun _ => post_outside fun r => post_ofExcept (fun _ => rfl)
        fun sso _ => post_upsertSsoUser sso
  | ssoVerify token =>
      cases hLogin
      exact post_require rfl fun _ => post_outside fun r => post_ofExcept (fun _ => rfl)
        fun sso _ => post_upsertSsoUser sso
  | config | ssoStart | logout => cases hLogin

theorem keeps_mintSessionResponse (user : UserRow) :
    (mintSessionResponse user).Keeps Answers (OthersKept user.id) := by
  refine keeps_of_wary (wary_query.mpr ⟨rfl, fun _ => wary_fresh trivial fun _ =>
    wary_fresh trivial fun _ => wary_now trivial fun _ => wary_now trivial fun _ => ?_⟩)
  exact wary_store.mpr ⟨trivial, fun _ => trivial⟩

theorem keeps_authLogout (userId : Id) (c : Credentials) :
    (authLogout state c).Keeps Answers (OthersKept userId) := by
  have hSession : (endSession c).Wary (fun _ q => Within userId q) [] := by
    unfold endSession
    split
    · exact wary_query.mpr ⟨trivial, fun _ => trivial⟩
    · trivial
  have hShared : ∀ seen, (endSharedSession state c).Wary (fun _ q => Within userId q) seen := by
    intro seen
    unfold endSharedSession
    split
    · exact wary_query.mpr ⟨trivial, fun _ => trivial⟩
    · trivial
  exact keeps_of_wary (hSession.bind fun _ _ => (hShared _).bind fun _ _ => trivial)

end

/-! ### Every request -/

/-- A request of the admin API served to somebody: with what it carries to tell
who they are, or to sign them in or out. -/
inductive Served (state : AppState) : Principal → Db → Db → Prop where
  | request {c : Credentials} {req : Request} {p : Principal} {db db' db'' : Db}
      {r : Except Error Reply} (who : Runs Answers (fromRequestParts state c) db (.ok p) db')
      (served : Runs Answers (handle state p req) db' r db'') : Served state p db db''
  | signIn {s : SignIn} {login : Handler UserRow} {user : UserRow} {expiresAt : Timestamp}
      {db db' db'' : Db} {r : Except Error Reply} (hLogin : signInUser state s = some login)
      (who : Runs Answers login db (.ok user) db')
      (served : Runs Answers (mintSessionResponse user) db' r db'') :
      Served state ⟨user.id, user.username, user.role, expiresAt⟩ db db''
  | signOut {c : Credentials} {p : Principal} {db db' : Db} {r : Except Error Reply}
      (served : Runs Answers (authLogout state c) db r db') : Served state p db db'

/-- A member's request leaves what is not theirs as it was, and makes no key
with the admin scope. -/
theorem member_writes_own_rows (state : AppState) {p : Principal} {db db' : Db}
    (hMember : p.isAdmin = false) (served : Served state p db db') :
    others db' p.userId = others db p.userId ∧ adminKeys db' = adminKeys db := by
  show OthersKept p.userId db db'
  cases served with
  | request who served =>
      have hWho : OthersKept p.userId db _ := who.of_wp (post_fromRequestParts _)
      exact hWho.trans ((keeps_handle state hMember _).runs served)
  | signIn hLogin who served =>
      have hWho : OthersKept _ db _ := who.of_wp (post_signInUser hLogin)
      exact hWho.trans ((keeps_mintSessionResponse _).runs served)
  | signOut served => exact (keeps_authLogout p.userId _).runs served

/-! ### A member -/

def memberRow : UserRow := newUser "m".toList "m@b".toList "!sso".toList .member 0

def memberPrincipal : Principal := ⟨"m".toList, "m@b".toList, .member, 9⟩

def memberUsers : Table UserRow.id :=
  ⟨[memberRow, newUser "o".toList "o@b".toList "!sso".toList .member 0], by decide⟩

def memberSessions : Table SessionRow.token :=
  ⟨[⟨"t".toList, "m".toList, 0, 9⟩], List.nodup_singleton _⟩

/-- A member who is signed in, and another who has a key. -/
def memberDb : Db where
  users := memberUsers
  sessions := memberSessions

/-- A key in the name of somebody else is the member's own. -/
theorem member_names_another :
    let body : CreateKeyBody := { ownerUserId := some "o".toList }
    let db' := ((serve ssoServer { sessionCookie := some "t".toList } (.createKey body)).run
      calm.answer memberDb).2
    others db' "m".toList = others memberDb "m".toList ∧ adminKeys db' = adminKeys memberDb := by
  intro body db'
  have hCalm : ∀ q db, Answers q db (calm.answer q db).1 (calm.answer q db).2 :=
    fun _ _ => ⟨calm, rfl⟩
  have hWho : Runs Answers (fromRequestParts ssoServer { sessionCookie := some "t".toList })
      memberDb (.ok memberPrincipal) memberDb := run_runs hCalm _ memberDb
  have hServed := run_runs hCalm (handle ssoServer memberPrincipal (.createKey body)) memberDb
  exact member_writes_own_rows ssoServer rfl (.request hWho hServed)

end Gateway.Server
