import Gateway.Interference
import Gateway.Server.OwnRows

/-! No request of anybody but an admin, in any order with others, makes an admin, a
credential of an admin or a change of what admins manage. -/
namespace Gateway.Server

open Json Store Program Handler

/-! ### What only admins have and change -/

def admins (db : Db) : List UserRow := db.users.rows.filter UserRow.isAdmin

def adminIds (db : Db) : List Id := (admins db).map UserRow.id

/-- The keys that act as an admin, or would. -/
def adminsKeys (db : Db) : List ApiKeyRow :=
  db.apiKeys.rows.filter fun k => decide (k.ownerUserId ∈ adminIds db)

/-- The admins with their passwords, their keys, the keys of the admin scope, and what is
set up for all. -/
structure Privileges where
  admins : List UserRow
  keys : List ApiKeyRow
  adminScoped : List Id
  teams : List TeamRow
  memberships : List MembershipRow
  budgets : List BudgetRow
  capturePolicy : Option CapturePolicy
  logLevel : Option LogLevel
  catalog : Catalog
  endpoints : List EndpointRow

def privileges (db : Db) : Privileges where
  admins := admins db
  keys := adminsKeys db
  adminScoped := adminKeys db
  teams := db.teams.rows
  memberships := db.memberships.rows
  budgets := db.budgets.rows
  capturePolicy := db.capturePolicy
  logLevel := db.logLevel
  catalog := db.catalog
  endpoints := db.endpoints.rows

/-- Privileges are as they were, and no session of an admin has come into being. -/
structure Upheld (db db' : Db) : Prop where
  same : privileges db' = privileges db
  sessions : ∀ s ∈ db'.sessions.rows, s.userId ∈ adminIds db → s ∈ db.sessions.rows

section

variable {start db : Db}

theorem Upheld.refl (db : Db) : Upheld db db := ⟨rfl, fun _ hs _ => hs⟩

theorem Upheld.adminIds_eq (h : Upheld start db) : adminIds db = adminIds start :=
  congrArg (fun p : Privileges => p.admins.map UserRow.id) h.same

theorem Upheld.keys_eq (h : Upheld start db) : adminsKeys db = adminsKeys start :=
  congrArg Privileges.keys h.same

theorem adminsKeys_congr {db' : Db} (hUsers : admins db' = admins db)
    (hKeys : db'.apiKeys.rows.filter (fun k => decide (k.ownerUserId ∈ adminIds db)) =
      adminsKeys db) : adminsKeys db' = adminsKeys db := by
  have hIds : adminIds db' = adminIds db := congrArg (List.map UserRow.id) hUsers
  unfold adminsKeys at hKeys ⊢
  rw [hIds]
  exact hKeys

/-- A change of users that leaves the admins alone. -/
theorem Upheld.users (h : Upheld start db) {users : Table UserRow.id}
    (hAdmins : users.rows.filter UserRow.isAdmin = admins db) :
    Upheld start { db with users := users } := by
  have hKeys : adminsKeys { db with users := users } = adminsKeys db := adminsKeys_congr hAdmins rfl
  have hSame : privileges { db with users := users } = privileges db := by
    show Privileges.mk (users.rows.filter UserRow.isAdmin) (adminsKeys { db with users := users })
      (adminKeys db) _ _ _ _ _ _ _ = _
    rw [hAdmins, hKeys]
    rfl
  exact ⟨hSame.trans h.same, h.sessions⟩

/-- A change of keys that leaves those of the admins alone, and makes none with the admin
scope. -/
theorem Upheld.apiKeys (h : Upheld start db) {apiKeys : Table ApiKeyRow.id}
    (hKeys : apiKeys.rows.filter (fun k => decide (k.ownerUserId ∈ adminIds db)) =
      adminsKeys db)
    (hScoped : adminKeys { db with apiKeys := apiKeys } = adminKeys db) :
    Upheld start { db with apiKeys := apiKeys } := by
  have hSame : privileges { db with apiKeys := apiKeys } = privileges db := by
    show Privileges.mk (admins db)
      (apiKeys.rows.filter fun k => decide (k.ownerUserId ∈ adminIds db))
      (adminKeys { db with apiKeys := apiKeys }) _ _ _ _ _ _ _ = _
    rw [hKeys, hScoped]
    rfl
  exact ⟨hSame.trans h.same, h.sessions⟩

/-- A user's columns are changed who is no admin. -/
theorem Upheld.updateUser (h : Upheld start db) {id : Id} (hMember : id ∉ adminIds start)
    {p : UserRow → Bool} {f : UserRow → UserRow} (hKey : ∀ u, (f u).id = u.id)
    (hAdmin : ∀ u, (f u).isAdmin = u.isAdmin) (hOwn : ∀ u, p u = true → u.id = id) :
    Upheld start { db with users := db.users.update p f hKey } := by
  rw [← h.adminIds_eq] at hMember
  refine h.users (Table.filter_update hKey fun u hu hChanged => ?_)
  have hNot : u.isAdmin = false := by
    rw [Bool.eq_false_iff]
    intro hIs
    exact hMember (hOwn u hChanged ▸ List.mem_map_of_mem (List.mem_filter.mpr ⟨hu, hIs⟩))
  exact ⟨hNot, (hAdmin u).trans hNot⟩

/-- A key's columns are changed that is no admin's. -/
theorem Upheld.updateApiKey (h : Upheld start db) {id : Id}
    (hMember : id ∉ (adminsKeys start).map ApiKeyRow.id) {p : ApiKeyRow → Bool}
    {f : ApiKeyRow → ApiKeyRow} (hKey : ∀ k, (f k).id = k.id) (hIssue : ∀ k, (f k).issue = k.issue)
    (hOwn : ∀ k, p k = true → k.id = id) :
    Upheld start { db with apiKeys := db.apiKeys.update p f hKey } := by
  rw [← h.keys_eq] at hMember
  refine h.apiKeys (Table.filter_update hKey fun k hk hChanged => ?_)
    (adminKeys_congr (Table.map_update hKey hIssue))
  have hNot : k.ownerUserId ∉ adminIds db := by
    intro hIs
    exact hMember (hOwn k hChanged ▸
      List.mem_map_of_mem (List.mem_filter.mpr ⟨hk, decide_eq_true hIs⟩))
  have hSame : (f k).ownerUserId = k.ownerUserId := congrArg Issue.ownerUserId (hIssue k)
  rw [hSame]
  exact ⟨decide_eq_false hNot, decide_eq_false hNot⟩

end

/-! ### Whom a request is made by -/

/-- The user that an answer brings. -/
def userRow : (q : Query) × q.Answer → Option UserRow
  | ⟨.store (.getUser _), a⟩ => (a : Except Error (Option UserRow)).toOption.join
  | ⟨.store (.getUserByUsername _), a⟩ => (a : Except Error (Option UserRow)).toOption.join
  | _ => none

/-- A request first finds out who makes it. -/
def caller (seen : Seen) : Option UserRow := seen.findSome? userRow

def ByAdmin (seen : Seen) : Prop := ∃ u, caller seen = some u ∧ u.role = .admin

def sawKey (id : Id) (key : ApiKeyRow) : (q : Query) × q.Answer :=
  ⟨.store (.getApiKey id), Except.ok (some key)⟩

def foundKey (hash : Str) (key : ApiKeyRow) : (q : Query) × q.Answer :=
  ⟨.store (.findApiKey hash), Except.ok (some key)⟩

def created (user : UserRow) : (q : Query) × q.Answer :=
  ⟨.store (.createUser user), Except.ok ()⟩

/-- The ids a request knows its caller by. -/
inductive Acts (seen : Seen) : Id → Prop where
  | caller {u : UserRow} (h : caller seen = some u) : Acts seen u.id
  | created {user : UserRow} (h : created user ∈ seen) : Acts seen user.id
  | asked {id : Id} {u : UserRow} (h : ⟨.store (.getUser id), Except.ok (some u)⟩ ∈ seen)
      (acts : Acts seen id) : Acts seen u.id
  | named {id : Id} {u : UserRow} (h : ⟨.store (.getUser id), Except.ok (some u)⟩ ∈ seen)
      (acts : Acts seen u.id) : Acts seen id

/-- A key that was read, and is the caller's. -/
def OwnKey (seen : Seen) (id : Id) : Prop :=
  ∃ key, Acts seen key.ownerUserId ∧
    (sawKey id key ∈ seen ∨ ∃ hash, foundKey hash key ∈ seen ∧ key.id = id)

/-- What is asked for anybody: reads, and writes to the caller's own. -/
def Tame (seen : Seen) : Query → Prop
  | .store (.createUser user) => user.role = .member
  | .store (.setUserPassword id _) => Acts seen id
  | .store (.markUserLogin id) => Acts seen id
  | .store (.createSession session) => Acts seen session.userId
  | .store (.deleteSession _) => True
  | .store (.recordHealth _) => True
  | .store (.createApiKey key) => Acts seen key.ownerUserId ∧ .admin ∉ key.scopes
  | .store (.markApiKeyUsed id) => OwnKey seen id
  | .store (.deleteApiKey id) => OwnKey seen id
  | .store (.updateApiKeyAccess id _) => OwnKey seen id
  | .store (.updateApiKeyLimits id _ _ _) => OwnKey seen id
  | .store (.renameApiKey id _) => OwnKey seen id
  | .store s => s.writes = false
  | _ => True

def MayAsk (seen : Seen) (q : Query) : Prop := ByAdmin seen ∨ Tame seen q

/-- What is written is written for somebody who was found to be no admin, if they were
found at all. -/
def OfNoAdmin (seen : Seen) (_ : Db) : Query → Prop
  | .store s => s.writes = true → ¬ ByAdmin seen
  | _ => True

section

variable {seen more : Seen}

theorem caller_append {u : UserRow} (h : caller seen = some u) : caller (seen ++ more) = some u := by
  unfold caller at h ⊢
  rw [List.findSome?_append, h]
  rfl

theorem ByAdmin.append (h : ByAdmin seen) : ByAdmin (seen ++ more) := by
  obtain ⟨u, hCaller, hRole⟩ := h
  exact ⟨u, caller_append hCaller, hRole⟩

theorem Acts.append {id : Id} (h : Acts seen id) : Acts (seen ++ more) id := by
  induction h with
  | caller h => exact .caller (caller_append h)
  | created h => exact .created (List.mem_append_left more h)
  | asked h _ ih => exact .asked (List.mem_append_left more h) ih
  | named h _ ih => exact .named (List.mem_append_left more h) ih

theorem OwnKey.append {id : Id} (h : OwnKey seen id) : OwnKey (seen ++ more) id := by
  obtain ⟨key, acts, hKey⟩ := h
  refine ⟨key, acts.append, ?_⟩
  rcases hKey with hSaw | ⟨hash, hFound, hId⟩
  · exact .inl (List.mem_append_left more hSaw)
  · exact .inr ⟨hash, List.mem_append_left more hFound, hId⟩

/-- Nothing is ruled out for an admin. -/
theorem wary_byAdmin {α : Type} (h : ByAdmin seen) (p : Handler α) : p.Wary MayAsk seen := by
  induction p generalizing seen with
  | done a => exact wary_done a
  | fail e => exact wary_fail e
  | query q next ih => exact wary_query.mpr ⟨.inl h, fun a => ih a h.append⟩

end

/-! ### One answer -/

/-- An admin was one at the start, and anybody else has none of the ids of the admins. -/
def Ranked (start : Db) (u : UserRow) : Prop :=
  (u.role = .admin → u ∈ admins start) ∧ (u.role ≠ .admin → u.id ∉ adminIds start)

/-- What an answer tells of the users and keys there were. A key of somebody who is no
admin has none of the ids of the admins' keys. -/
def Told (start : Db) : (q : Query) × q.Answer → Prop
  | ⟨.store (.getUser id), a⟩ => ∀ u, a = Except.ok (some u) → u.id = id ∧ Ranked start u
  | ⟨.store (.getUserByUsername _), a⟩ => ∀ u, a = Except.ok (some u) → Ranked start u
  | ⟨.store (.createUser user), a⟩ => a = Except.ok () → user.id ∉ adminIds start
  | ⟨.store (.getApiKey id), a⟩ => ∀ key, a = Except.ok (some key) →
      key.ownerUserId ∉ adminIds start → id ∉ (adminsKeys start).map ApiKeyRow.id
  | ⟨.store (.findApiKey _), a⟩ => ∀ key, a = Except.ok (some key) →
      key.ownerUserId ∉ adminIds start → key.id ∉ (adminsKeys start).map ApiKeyRow.id
  | _ => True

section

variable {start db db' : Db} {seen : Seen}

theorem not_adminId {u : UserRow} (hu : u ∈ db.users.rows) (hMember : u.role ≠ .admin) :
    u.id ∉ adminIds db := by
  intro hIs
  obtain ⟨a, ha, hSame⟩ := List.mem_map.mp hIs
  obtain ⟨ha, hAdmin⟩ := List.mem_filter.mp ha
  cases Table.eq_of_key ha hu hSame
  apply hMember
  simpa using (Bool.and_eq_true_iff.mp hAdmin).1

theorem not_adminsKey {k : ApiKeyRow} (hk : k ∈ db.apiKeys.rows) (hOwner : k.ownerUserId ∉ adminIds db) :
    k.id ∉ (adminsKeys db).map ApiKeyRow.id := by
  intro hIs
  obtain ⟨a, ha, hSame⟩ := List.mem_map.mp hIs
  obtain ⟨ha, hAdmins⟩ := List.mem_filter.mp ha
  cases Table.eq_of_key ha hk hSame
  exact hOwner (of_decide_eq_true hAdmins)

theorem placed {u : UserRow} (hu : u ∈ db.users.rows) (hLive : u.live = true)
    (upheld : Upheld start db) : Ranked start u := by
  have hAdmins : admins db = admins start := congrArg Privileges.admins upheld.same
  constructor
  · intro hRole
    rw [← hAdmins]
    exact List.mem_filter.mpr ⟨hu, by simp [UserRow.isAdmin, hRole, hLive]⟩
  · intro hMember
    rw [← upheld.adminIds_eq]
    exact not_adminId hu hMember

theorem told_userRow {e : (q : Query) × q.Answer} {u : UserRow} (told : Told start e)
    (hRow : userRow e = some u) : Ranked start u := by
  obtain ⟨q, a⟩ := e
  cases q with
  | store s =>
      cases s with
      | getUser id =>
          rcases a with e | (_ | v) <;> cases hRow
          exact (told u rfl).2
      | getUserByUsername username =>
          rcases a with e | (_ | v) <;> cases hRow
          exact told u rfl
      | _ => cases hRow
  | _ => cases hRow

theorem placed_caller {u : UserRow} (told : ∀ e ∈ seen, Told start e) (h : caller seen = some u) :
    Ranked start u := by
  obtain ⟨e, he, hRow⟩ := List.exists_of_findSome?_eq_some h
  exact told_userRow (told e he) hRow

/-- Who is no admin is known by no admin's id. -/
theorem Acts.not_adminId {id : Id} (h : Acts seen id) (told : ∀ e ∈ seen, Told start e)
    (hNot : ¬ ByAdmin seen) : id ∉ adminIds start := by
  induction h with
  | @caller u h =>
      exact (placed_caller told h).2 fun hRole => hNot ⟨u, h, hRole⟩
  | created h => exact told _ h rfl
  | @asked id u h _ ih => exact ((told _ h : ∀ u, _) u rfl).1 ▸ ih
  | @named id u h _ ih => exact ((told _ h : ∀ u, _) u rfl).1 ▸ ih

theorem OwnKey.not_adminsKey {id : Id} (h : OwnKey seen id) (told : ∀ e ∈ seen, Told start e)
    (hNot : ¬ ByAdmin seen) : id ∉ (adminsKeys start).map ApiKeyRow.id := by
  obtain ⟨key, acts, hKey⟩ := h
  have hOwner := acts.not_adminId told hNot
  rcases hKey with hSaw | ⟨hash, hFound, rfl⟩
  · exact (told _ hSaw : ∀ key, _) key rfl hOwner
  · exact (told _ hFound : ∀ key, _) key rfl hOwner

/-- A read tells what there is. -/
theorem told_read {s : Statement} (hReads : s.writes = false) (upheld : Upheld start db)
    {a : Except Error s.Result} (answered : Answers (.store s) db a db') :
    Told start ⟨.store s, a⟩ := by
  rcases answered.store with ⟨e, rfl, _⟩ | ⟨now, hExecute⟩
  · cases s <;> first | trivial | exact fun _ h => by cases h
  · cases s with
    | getUser id =>
        cases hExecute
        intro u hFound
        have hSome : db.getUser id = some u := Except.ok.inj hFound
        have hId := List.find?_some hSome
        simp only [Bool.and_eq_true, beq_iff_eq] at hId
        exact ⟨hId.1, placed (List.mem_of_find?_eq_some hSome) hId.2 upheld⟩
    | getUserByUsername username =>
        cases hExecute
        intro u hFound
        have hSome : db.getUserByUsername username = some u := Except.ok.inj hFound
        have hName := List.find?_some hSome
        simp only [Bool.and_eq_true, beq_iff_eq] at hName
        exact placed (List.mem_of_find?_eq_some hSome) hName.2 upheld
    | getApiKey id =>
        cases hExecute
        intro key hFound hOwner
        obtain ⟨hMem, rfl⟩ := Table.get_eq_some (Except.ok.inj hFound : db.apiKeys.get id = some key)
        rw [← upheld.adminIds_eq] at hOwner
        exact upheld.keys_eq ▸ Server.not_adminsKey hMem hOwner
    | findApiKey hash =>
        cases hExecute
        intro key hFound hOwner
        have hSome : db.findApiKey hash = some key := Except.ok.inj hFound
        rw [← upheld.adminIds_eq] at hOwner
        exact upheld.keys_eq ▸ Server.not_adminsKey (List.mem_of_find?_eq_some hSome) hOwner
    | createUser user => cases hReads
    | _ => trivial

theorem upheld_createUser (upheld : Upheld start db) {user : UserRow} (hMember : user.role = .member)
    (now : Timestamp) :
    Upheld start ((Statement.createUser user).execute now db).2 ∧
      (((Statement.createUser user).execute now db).1 = Except.ok () → user.id ∉ adminIds start) := by
  have hNot : user.isAdmin = false := by simp [UserRow.isAdmin, hMember]
  show Upheld start (db.createUser user).2 ∧ ((db.createUser user).1 = Except.ok () → _)
  unfold Db.createUser
  split
  · exact ⟨upheld, fun h => by cases h⟩
  · cases hInsert : db.users.insert user with
    | none => exact ⟨upheld, fun h => by cases h⟩
    | some users =>
        refine ⟨upheld.users (Table.filter_insert hInsert hNot), fun _ hIs => ?_⟩
        rw [← upheld.adminIds_eq] at hIs
        obtain ⟨a, ha, hSame⟩ := List.mem_map.mp hIs
        unfold Table.insert at hInsert
        split at hInsert
        · cases hInsert
        · next hNew => exact hNew (List.mem_map.mpr ⟨a, (List.mem_filter.mp ha).1, hSame⟩)

theorem upheld_createApiKey (upheld : Upheld start db) {key : ApiKeyRow}
    (hOwner : key.ownerUserId ∉ adminIds start) (hScopes : .admin ∉ key.scopes) :
    Upheld start (db.createApiKey key).2 := by
  rw [← upheld.adminIds_eq] at hOwner
  unfold Db.createApiKey
  split
  · exact upheld
  · cases hInsert : db.apiKeys.insert { key with scopes := KeyScope.stored key.scopes } with
    | none => exact upheld
    | some apiKeys =>
        refine upheld.apiKeys (Table.filter_insert hInsert (decide_eq_false hOwner)) ?_
        have hScoped : apiKeys.rows.filter (·.hasScope .admin) =
            db.apiKeys.rows.filter (·.hasScope .admin) :=
          Table.filter_insert hInsert (by simpa [ApiKeyRow.hasScope] using stored_not_admin hScopes)
        exact congrArg (List.map ApiKeyRow.id) hScoped

theorem upheld_createSession (upheld : Upheld start db) {session : SessionRow}
    (hMember : session.userId ∉ adminIds start) : Upheld start (db.createSession session).2 := by
  unfold Db.createSession
  cases hInsert : db.sessions.insert session with
  | none => exact upheld
  | some sessions =>
      refine ⟨upheld.same, fun s hs hAdmin => ?_⟩
      have hRows : sessions.rows = db.sessions.rows ++ [session] := by
        simpa using Table.map_insert hInsert id
      rcases List.mem_append.mp ((congrArg (s ∈ ·) hRows).mp hs) with hs | hs
      · exact upheld.sessions s hs hAdmin
      · exact absurd (List.mem_singleton.mp hs ▸ hAdmin) hMember

/-- A write to what is the caller's own. -/
theorem upheld_write {s : Statement} (hWrites : s.writes = true) (tame : Tame seen (.store s))
    (told : ∀ e ∈ seen, Told start e) (hNot : ¬ ByAdmin seen) (upheld : Upheld start db)
    (now : Timestamp) : Upheld start (s.execute now db).2 := by
  cases s with
  | createUser user => exact (upheld_createUser upheld tame now).1
  | setUserPassword id passwordHash =>
      exact upheld.updateUser (Acts.not_adminId tame told hNot) (by exact fun _ => rfl)
        (fun _ => rfl) (by simp +contextual)
  | markUserLogin id =>
      exact upheld.updateUser (Acts.not_adminId tame told hNot) (by exact fun _ => rfl)
        (fun _ => rfl) (by simp +contextual)
  | createSession session => exact upheld_createSession upheld (Acts.not_adminId tame told hNot)
  | deleteSession token =>
      exact ⟨upheld.same, fun s hs hAdmin => upheld.sessions s (List.mem_filter.mp hs).1 hAdmin⟩
  | recordHealth row =>
      show Upheld start (db.recordHealth row).2
      unfold Db.recordHealth
      split
      · exact upheld
      · split <;> exact ⟨upheld.same, upheld.sessions⟩
  | createApiKey key => exact upheld_createApiKey upheld (tame.1.not_adminId told hNot) tame.2
  | markApiKeyUsed id =>
      exact upheld.updateApiKey (OwnKey.not_adminsKey tame told hNot) (by exact fun _ => rfl)
        (fun _ => rfl) (by simp)
  | deleteApiKey id =>
      exact upheld.updateApiKey (OwnKey.not_adminsKey tame told hNot) (by exact fun _ => rfl)
        (fun _ => rfl) (by simp +contextual)
  | updateApiKeyAccess id policy =>
      exact upheld.updateApiKey (OwnKey.not_adminsKey tame told hNot) (by exact fun _ => rfl)
        (fun _ => rfl) (by simp)
  | updateApiKeyLimits id rpm tpm maxConcurrent =>
      exact upheld.updateApiKey (OwnKey.not_adminsKey tame told hNot) (by exact fun _ => rfl)
        (fun _ => rfl) (by simp)
  | renameApiKey id name =>
      exact upheld.updateApiKey (OwnKey.not_adminsKey tame told hNot) (by exact fun _ => rfl)
        (fun _ => rfl) (by simp)
  | _ => exact absurd ((tame : _ = false).symm.trans hWrites) (by simp)

/-- One answer upholds the privileges, and tells what stands. -/
theorem upheld_answered {q : Query} {a : q.Answer} (asks : MayAsk seen q) (may : OfNoAdmin seen db q)
    (told : ∀ e ∈ seen, Told start e) (upheld : Upheld start db) (answered : Answers q db a db') :
    Upheld start db' ∧ Told start ⟨q, a⟩ := by
  cases q with
  | store s =>
      cases hWrites : s.writes with
      | false =>
          refine ⟨?_, told_read hWrites upheld answered⟩
          rcases answered.store with ⟨_, _, rfl⟩ | ⟨now, hExecute⟩
          · exact upheld
          · have hSame := Statement.execute_of_not_writes now db hWrites
            rw [hExecute] at hSame
            obtain rfl : db' = db := hSame
            exact upheld
      | true =>
          have hNot : ¬ ByAdmin seen := may hWrites
          have tame : Tame seen (.store s) := asks.resolve_left hNot
          rcases answered.store with ⟨e, rfl, rfl⟩ | ⟨now, hExecute⟩
          · refine ⟨upheld, ?_⟩
            cases s <;> first | trivial | exact fun h => by cases h
          · have hAfter := upheld_write hWrites tame told hNot upheld now
            rw [hExecute] at hAfter
            refine ⟨hAfter, ?_⟩
            cases s with
            | createUser user =>
                have hNew := (upheld_createUser upheld tame now).2
                rwa [hExecute] at hNew
            | getUser id => cases hWrites
            | getUserByUsername username => cases hWrites
            | getApiKey id => cases hWrites
            | findApiKey hash => cases hWrites
            | _ => trivial
  | _ =>
      obtain ⟨env, hAnswer⟩ := answered
      cases hAnswer
      exact ⟨upheld, trivial⟩

end

/-! ### Every request -/

/-- Somebody with a role who was found to be an admin, or to be none and known by an id. -/
def Known (seen : Seen) (id : Id) (role : Role) : Prop :=
  ByAdmin seen ∨ (role ≠ .admin ∧ Acts seen id)

/-- What a member may have asked at any time. -/
def Own (id : Id) : Query → Prop
  | .store (.createApiKey key) => key.ownerUserId = id ∧ .admin ∉ key.scopes
  | .store (.recordHealth _) => True
  | .store s => s.writes = false
  | _ => True

section

variable {state : AppState} {p : Principal} {seen : Seen} {α : Type}

theorem caller_concat (hNone : caller seen = none) (e : (q : Query) × q.Answer) :
    caller (seen ++ [e]) = userRow e := by
  unfold caller at hNone ⊢
  rw [List.findSome?_append, hNone]
  cases h : userRow e <;> simp [h]

theorem known_caller {u : UserRow} (h : caller seen = some u) : Known seen u.id u.role := by
  by_cases hRole : u.role = .admin
  · exact .inl ⟨u, h, hRole⟩
  · exact .inr ⟨hRole, .caller h⟩

theorem Known.append {id : Id} {role : Role} {more : Seen} (h : Known seen id role) :
    Known (seen ++ more) id role := by
  rcases h with hAdmin | ⟨hRole, acts⟩
  · exact .inl hAdmin.append
  · exact .inr ⟨hRole, acts.append⟩

theorem tame_reads {s : Statement} (hReads : s.writes = false) : Tame seen (.store s) := by
  cases s <;> first | exact hReads | cases hReads

theorem Own.tame {id : Id} {q : Query} (h : Own id q) (acts : Acts seen id) : Tame seen q := by
  cases q with
  | store s =>
      cases hWrites : s.writes with
      | false => exact tame_reads hWrites
      | true =>
          cases s with
          | createApiKey key =>
              obtain ⟨rfl, hScopes⟩ := (h : key.ownerUserId = id ∧ _)
              exact ⟨acts, hScopes⟩
          | recordHealth row => trivial
          | _ => exact absurd ((h : _ = false).symm.trans hWrites) (by simp)
  | _ => trivial

theorem wary_own {id : Id} {h : Handler α} (acts : Acts seen id)
    (hOwn : h.Wary (fun _ q => Own id q) []) : h.Wary MayAsk seen :=
  hOwn.after fun _ _ hQuery => .inr (hQuery.tame acts.append)

/-! ### A member's requests -/

theorem own_probe {id : Id} {seen : Seen} (d : Id × Deployment) :
    (probe d).Wary (fun _ q => Own id q) seen := by
  unfold probe
  refine wary_outside trivial fun r => ?_
  have hRemember : ∀ seen, (remember r).Wary (fun _ q => Own id q) seen := by
    intro seen
    unfold remember
    exact wary_now trivial fun now => wary_query.mpr ⟨trivial, fun _ => trivial⟩
  exact (hRemember _).bind fun _ _ => trivial

theorem own_probeAll {id : Id} {seen : Seen} (ds : List (Id × Deployment)) :
    (probeAll ds).Wary (fun _ q => Own id q) seen := by
  induction ds generalizing seen with
  | nil => exact wary_done _
  | cons d rest ih => exact (own_probe d).bind fun _ _ => ih.bind fun _ _ => trivial

theorem own_complete {id : Id} (hMember : p.isAdmin = false) (kind q : Str) (limit : Option Nat) :
    (complete state p kind q limit).Wary (fun _ q => Own id q) seen := by
  unfold complete
  split
  · exact wary_authz (wary_store.mpr ⟨rfl, fun _ => wary_store.mpr ⟨rfl, fun _ => trivial⟩⟩)
  · split
    · refine wary_authz (wary_store.mpr ⟨rfl, fun _ => ?_⟩)
      exact wary_query.mpr ⟨rfl, fun _ => wary_store.mpr ⟨rfl, fun _ => trivial⟩⟩
    · split
      · exact wary_refused hMember rfl
      · exact wary_fail _

theorem own_createKey (hMember : p.isAdmin = false) (body : CreateKeyBody) :
    (createKey state p body).Wary (fun _ q => Own p.userId q) seen := by
  unfold createKey
  refine wary_ofExcept fun scopes _ => wary_require fun hScopes => wary_fresh trivial fun first =>
    wary_fresh trivial fun second => wary_fresh trivial fun id => wary_now trivial fun now => ?_
  refine wary_store.mpr ⟨⟨?_, ?_⟩, fun _ => trivial⟩
  · simp [newKey, keyOwner, hMember]
  · simpa [hMember, newKey] using hScopes

/-- What comes after the check of a key is about a key of the caller's. -/
theorem wary_ownKey {id : Id} {f : ApiKeyRow → Handler α} (hMember : p.isAdmin = false)
    (acts : Acts seen p.userId)
    (hNext : ∀ key seen, OwnKey seen id → (f key).Wary MayAsk seen) :
    (ownKeyOrAdmin p id >>= f).Wary MayAsk seen := by
  unfold ownKeyOrAdmin
  rw [bind_assoc]
  refine wary_store.mpr ⟨.inr (tame_reads rfl), fun found => ?_⟩
  rw [bind_assoc]
  refine wary_found fun key hFound => ?_
  rw [bind_assoc]
  refine wary_require fun hOwner => hNext key _ ⟨key, ?_, .inl ?_⟩
  · have hMine : key.ownerUserId = p.userId := by simpa [hMember] using hOwner
    exact hMine ▸ acts.append
  · rw [hFound]
    exact List.mem_append_right seen (List.mem_singleton_self _)

theorem wary_changeMyPassword (acts : Acts seen p.userId) (currentPassword newPassword : Str) :
    (changeMyPassword state p currentPassword newPassword).Wary MayAsk seen := by
  unfold changeMyPassword
  refine wary_store.mpr ⟨.inr (tame_reads rfl), fun found => ?_⟩
  cases found with
  | none => exact wary_fail _
  | some user =>
      refine wary_require fun _ => wary_require fun _ => wary_ofExcept fun hash _ => ?_
      refine wary_store.mpr ⟨.inr ?_, fun _ => trivial⟩
      exact Acts.asked (List.mem_append_right seen (List.mem_singleton_self _)) acts.append

theorem wary_updateKey (hMember : p.isAdmin = false) (acts : Acts seen p.userId) (id : Id)
    (body : List (Str × Value)) : (updateKey p id body).Wary MayAsk seen := by
  unfold updateKey
  refine wary_ownKey hMember acts fun key seen hOwn => wary_ofExcept fun rpm _ =>
    wary_ofExcept fun tpm _ => wary_ofExcept fun maxConcurrent _ => wary_ofExcept fun name _ => ?_
  have hLimits : ∀ seen, OwnKey seen id →
      (store (.updateApiKeyLimits id rpm tpm maxConcurrent) >>= fun _ =>
        store (.getApiKey id) >>= fun updated =>
          pure (Reply.key (Option.map shown updated))).Wary MayAsk seen := fun seen hOwn =>
    wary_store.mpr ⟨.inr hOwn, fun _ => wary_store.mpr ⟨.inr (tame_reads rfl), fun _ => trivial⟩⟩
  cases name with
  | some name => exact wary_store.mpr ⟨.inr hOwn, fun _ => hLimits _ hOwn.append⟩
  | none => exact hLimits _ hOwn

theorem wary_handle (known : Known seen p.userId p.role) (req : Request) :
    (handle state p req).Wary MayAsk seen := by
  rcases known with hAdmin | ⟨hRole, acts⟩
  · exact wary_byAdmin hAdmin _
  · have hMember : p.isAdmin = false := by simpa [Principal.isAdmin] using hRole
    cases req with
    | malformed message => exact wary_fail _
    | me => exact wary_done _
    | changeMyPassword currentPassword newPassword => exact wary_changeMyPassword acts _ _
    | listModels | listAliases | lastHealth | listProviders | listDeployments | spend =>
        refine wary_own acts (wary_authz ?_)
        repeat refine wary_store.mpr ⟨rfl, fun _ => ?_⟩
        trivial
    | healthAllModels =>
        refine wary_own acts (wary_authz (wary_store.mpr ⟨rfl, fun _ => ?_⟩))
        exact wary_outside trivial fun _ => trivial
    | healthOneModel id =>
        refine wary_own acts (wary_authz (wary_store.mpr ⟨rfl, fun _ => ?_⟩))
        exact wary_found fun d _ => (own_probe d).bind fun _ _ => trivial
    | healthModel id =>
        refine wary_own acts (wary_authz (wary_store.mpr ⟨rfl, fun _ => ?_⟩))
        exact wary_require fun _ => (own_probeAll _).bind fun _ _ => trivial
    | complete kind q limit => exact wary_own acts (own_complete hMember kind q limit)
    | listKeys =>
        refine wary_own acts ?_
        show (listKeys p).Wary _ _
        unfold listKeys
        rw [hMember]
        exact wary_store.mpr ⟨rfl, fun _ => trivial⟩
    | createKey body => exact wary_own acts (own_createKey hMember body)
    | getKey id => exact wary_ownKey hMember acts fun key seen hOwn => wary_done _
    | updateKey id body => exact wary_updateKey hMember acts id body
    | deleteKey id =>
        exact wary_ownKey hMember acts fun key seen hOwn =>
          wary_store.mpr ⟨.inr hOwn, fun _ => trivial⟩
    | keyAccess id access =>
        exact wary_ownKey hMember acts fun key seen hOwn =>
          wary_store.mpr ⟨.inr hOwn, fun _ => trivial⟩
    | listBudgets subjectType subjectId =>
        refine wary_own acts (wary_authz (wary_ofExcept fun _ _ => ?_))
        exact wary_store.mpr ⟨rfl, fun _ => trivial⟩
    | usage | getPolicy | putPolicy | exportTurns | forgetTurns | getLevel | putLevel =>
        refine wary_require fun hAdmin => ?_
        rw [hMember] at hAdmin
        cases hAdmin
    | _ => exact wary_refused hMember rfl

/-! ### Finding out who asks -/

theorem wary_upsertSsoUser (hNone : caller seen = none) (sso : SsoUser) {f : UserRow → Handler α}
    (hf : ∀ u seen, Known seen u.id u.role → (f u).Wary MayAsk seen) :
    (upsertSsoUser state sso >>= f).Wary MayAsk seen := by
  unfold upsertSsoUser
  rw [bind_assoc]
  refine wary_require fun _ => ?_
  rw [bind_assoc]
  refine wary_store.mpr ⟨.inr (tame_reads rfl), fun found => ?_⟩
  cases found with
  | some user => exact hf user _ (known_caller (caller_concat hNone _))
  | none =>
      refine wary_fresh (.inr trivial) fun id => wary_now (.inr trivial) fun now => ?_
      let user : UserRow := newUser id (state.toLowercase (KeyScope.trim sso.email)) "!sso".toList
        .member now
      refine wary_query.mpr ⟨.inr (rfl : user.role = .member), fun r => ?_⟩
      cases r with
      | error e => exact wary_fail e
      | ok _ =>
          refine hf user _ (.inr ⟨(fun hRole => by cases hRole), .created ?_⟩)
          exact List.mem_append_right _ (List.mem_singleton_self _)

theorem wary_bearerPrincipal (hNone : caller seen = none) (bearer : Str) {f : Principal → Handler α}
    (hf : ∀ p seen, Known seen p.userId p.role → (f p).Wary MayAsk seen) :
    (bearerPrincipal state bearer >>= f).Wary MayAsk seen := by
  unfold bearerPrincipal verifyApiKey
  simp only [bind_assoc]
  refine wary_store.mpr ⟨.inr (tame_reads rfl), fun found => ?_⟩
  cases found with
  | none => exact wary_fail _
  | some key =>
      have hNone' : caller (seen ++ [foundKey (state.hexSha256 bearer) key]) = none :=
        caller_concat hNone _
      simp only [bind_assoc]
      refine wary_store.mpr ⟨.inr (tame_reads rfl), fun owner => ?_⟩
      cases owner with
      | none => exact wary_fail _
      | some user =>
          have hCaller := caller_concat hNone' ⟨.store (.getUser key.ownerUserId), Except.ok (some user)⟩
          simp only [pure_bind, bind_assoc]
          refine wary_require fun _ => ?_
          refine wary_query.mpr ⟨?_, fun _ => wary_now ?_ fun now => ?_⟩
          · rcases known_caller hCaller with hAdmin | ⟨_, acts⟩
            · exact .inl hAdmin
            · refine .inr ⟨key, .named ?_ acts, .inr ⟨state.hexSha256 bearer, ?_, rfl⟩⟩
              · exact List.mem_append_right _ (List.mem_singleton_self _)
              · exact List.mem_append_left _ (List.mem_append_right _ (List.mem_singleton_self _))
          · exact .inr trivial
          · exact hf _ _ (known_caller hCaller).append.append

theorem wary_fromSessionCookie (hNone : caller seen = none) (c : Credentials)
    {f : Option Principal → Handler α}
    (hSome : ∀ p seen, Known seen p.userId p.role → (f (some p)).Wary MayAsk seen)
    (hNobody : ∀ seen, caller seen = none → (f none).Wary MayAsk seen) :
    (fromSessionCookie c >>= f).Wary MayAsk seen := by
  unfold fromSessionCookie
  cases c.sessionCookie with
  | none => exact hNobody seen hNone
  | some token =>
      show (sessionPrincipal token >>= f).Wary MayAsk seen
      unfold sessionPrincipal
      refine wary_query.mpr ⟨.inr (tame_reads rfl), fun r => ?_⟩
      have hNone' := caller_concat hNone ⟨.store (.getSession token), r⟩
      rcases r with e | (_ | session)
      · exact hNobody _ hNone'
      · exact hNobody _ hNone'
      · refine wary_query.mpr ⟨.inr (tame_reads rfl), fun r => ?_⟩
        have hCaller := caller_concat hNone' ⟨.store (.getUser session.userId), r⟩
        rcases r with e | (_ | user)
        · exact hNobody _ hCaller
        · exact hNobody _ hCaller
        · exact hSome _ _ (known_caller hCaller)

theorem wary_fromSharedCookie (hNone : caller seen = none) (c : Credentials)
    {f : Option Principal → Handler α}
    (hSome : ∀ p seen, Known seen p.userId p.role → (f (some p)).Wary MayAsk seen)
    (hNobody : ∀ seen, (f none).Wary MayAsk seen) :
    (fromSharedCookie state c >>= f).Wary MayAsk seen := by
  unfold fromSharedCookie
  split
  · next token _ _ =>
      unfold sharedPrincipal
      rw [bind_assoc]
      refine wary_outside (.inr trivial) fun r => ?_
      have hNone' := caller_concat hNone ⟨.outside (.ssoIntrospect token), r⟩
      cases r with
      | error e => exact hNobody _
      | ok sso =>
          rw [bind_assoc]
          refine wary_upsertSsoUser hNone' sso fun user seen known => ?_
          exact wary_now (.inr trivial) fun now => hSome _ _ known.append
  · exact hNobody seen

/-- Whoever a request is found to come from is known. -/
theorem wary_fromRequestParts (c : Credentials) {f : Principal → Handler α}
    (hf : ∀ p seen, Known seen p.userId p.role → (f p).Wary MayAsk seen) :
    (fromRequestParts state c >>= f).Wary MayAsk [] := by
  unfold fromRequestParts
  cases c.bearer with
  | some bearer => exact wary_bearerPrincipal rfl bearer hf
  | none =>
      show (cookiePrincipal state c >>= f).Wary MayAsk []
      unfold cookiePrincipal
      rw [bind_assoc]
      refine wary_fromSessionCookie rfl c hf fun seen hNone => ?_
      rw [bind_assoc]
      exact wary_fromSharedCookie hNone c hf fun seen => wary_fail _

/-! ### Signing in and out -/

theorem wary_mintSessionResponse {user : UserRow} (known : Known seen user.id user.role) :
    (mintSessionResponse user).Wary MayAsk seen := by
  rcases known with hAdmin | ⟨_, acts⟩
  · exact wary_byAdmin hAdmin _
  · refine wary_query.mpr ⟨.inr acts, fun _ => wary_fresh (.inr trivial) fun first =>
      wary_fresh (.inr trivial) fun second => wary_now (.inr trivial) fun created =>
        wary_now (.inr trivial) fun expires => ?_⟩
    exact wary_store.mpr ⟨.inr acts.append.append.append.append.append, fun _ => trivial⟩

theorem wary_signIn (c : Credentials) (s : SignIn) : (signIn state c s).Wary MayAsk [] := by
  have hMint : ∀ (user : UserRow) seen, Known seen user.id user.role →
      (mintSessionResponse user).Wary MayAsk seen := fun _ _ => wary_mintSessionResponse
  cases s with
  | config => exact wary_done _
  | login username password =>
      show (loginUser state username password >>= mintSessionResponse).Wary MayAsk []
      unfold loginUser
      rw [bind_assoc]
      refine wary_require fun _ => ?_
      rw [bind_assoc]
      refine wary_store.mpr ⟨.inr (tame_reads rfl), fun found => ?_⟩
      cases found with
      | none => exact wary_fail _
      | some user =>
          rw [bind_assoc]
          exact wary_require fun _ => hMint user _ (known_caller (caller_concat rfl _))
  | ssoStart email turnstileToken =>
      show (authSsoStart state email turnstileToken).Wary MayAsk []
      unfold authSsoStart
      exact wary_require fun _ => wary_outside (.inr trivial) fun r => wary_ofExcept fun _ _ => trivial
  | ssoCode email code =>
      show (ssoCodeUser state email code >>= mintSessionResponse).Wary MayAsk []
      unfold ssoCodeUser
      rw [bind_assoc]
      refine wary_require fun _ => ?_
      rw [bind_assoc]
      refine wary_outside (.inr trivial) fun r => ?_
      rw [bind_assoc]
      exact wary_ofExcept fun sso _ => wary_upsertSsoUser (caller_concat rfl _) sso hMint
  | ssoVerify token =>
      show (ssoLinkUser state token >>= mintSessionResponse).Wary MayAsk []
      unfold ssoLinkUser
      rw [bind_assoc]
      refine wary_require fun _ => ?_
      rw [bind_assoc]
      refine wary_outside (.inr trivial) fun r => ?_
      rw [bind_assoc]
      exact wary_ofExcept fun sso _ => wary_upsertSsoUser (caller_concat rfl _) sso hMint
  | logout =>
      have hSession : ∀ seen, (endSession c).Wary MayAsk seen := by
        intro seen
        unfold endSession
        split
        · exact wary_query.mpr ⟨.inr trivial, fun _ => trivial⟩
        · trivial
      have hShared : ∀ seen, (endSharedSession state c).Wary MayAsk seen := by
        intro seen
        unfold endSharedSession
        split
        · exact wary_query.mpr ⟨.inr trivial, fun _ => trivial⟩
        · trivial
      exact (hSession _).bind fun _ seen => (hShared seen).bind fun _ _ => trivial

/-- What the admin API serves: a request with what tells who makes it, or a sign-in. -/
inductive Serves (state : AppState) : Db → Handler Reply → Prop where
  | request {db : Db} (c : Credentials) (req : Request) : Serves state db (serve state c req)
  | signIn {db : Db} (c : Credentials) (s : SignIn) : Serves state db (signIn state c s)

theorem Serves.wary {db : Db} {h : Handler Reply} (serves : Serves state db h) :
    h.Wary MayAsk [] := by
  cases serves with
  | request c req =>
      exact wary_fromRequestParts c fun p seen known => wary_handle known req
  | signIn c s => exact wary_signIn c s

end

/-- However requests are interleaved, of which none writes for somebody found to be an
admin: nobody becomes an admin, comes by an admin's password, key or session or a key of
the admin scope, or changes what admins manage; and who is found to be an admin was one
before. -/
theorem no_escalation (state : AppState) {db : Db} {pool : Pool Query Query.Answer Error Reply Db}
    (run : Relation.ReflTransGen (Pool.Step Answers (Serves state) OfNoAdmin) ⟨db, 0⟩ pool) :
    Upheld db pool.state ∧
      ∀ t ∈ pool.threads, ∀ u, caller t.seen = some u → u.role = .admin → u ∈ admins db := by
  have hStep : ∀ seen db' q a db'', MayAsk seen q → OfNoAdmin seen db' q →
      (∀ e ∈ seen, Told db e) → Upheld db db' → Answers q db' a db'' →
      Upheld db db'' ∧ Told db ⟨q, a⟩ :=
    fun _ _ _ _ _ asks may told upheld answered => upheld_answered asks may told upheld answered
  obtain ⟨upheld, hThreads⟩ :=
    Pool.invariant_told (fun _ _ serves => serves.wary) hStep run (.refl db) (by simp)
  exact ⟨upheld, fun t ht u hCaller => (placed_caller (hThreads t ht).2 hCaller).1⟩

/-! ### A member beside an admin -/

def mixedUsers : Table UserRow.id :=
  ⟨[memberRow, newUser "o".toList "o@b".toList "!sso".toList .admin 0], by decide⟩

def mixedDb : Db where
  users := mixedUsers
  sessions := memberSessions

/-- A member who asks for a key in the name of the admin gets one of their own. -/
theorem member_beside_admin :
    let body : CreateKeyBody := { ownerUserId := some "o".toList }
    let db' := ((serve ssoServer { sessionCookie := some "t".toList } (.createKey body)).run
      calm.answer mixedDb).2
    Upheld mixedDb db' ∧ db'.apiKeys.rows.map ApiKeyRow.ownerUserId = ["m".toList] := by
  intro body db'
  refine ⟨?_, by decide +kernel⟩
  have hMeets : (serve ssoServer { sessionCookie := some "t".toList } (.createKey body)).Meets
      OfNoAdmin calm.answer [] mixedDb := by
    refine ⟨(fun h => by cases h), (fun h => by cases h), trivial, trivial, trivial, trivial,
      fun _ h => ?_, trivial⟩
    obtain ⟨u, hCaller, hRole⟩ := h
    cases hCaller
    cases hRole
  have hRun : Relation.ReflTransGen (Pool.Step Answers (Serves ssoServer) OfNoAdmin) ⟨mixedDb, 0⟩
      ⟨db', 0⟩ := Pool.alone (fun _ _ => ⟨calm, rfl⟩) (.request _ _) hMeets 0
  exact (no_escalation ssoServer hRun).1

end Gateway.Server
