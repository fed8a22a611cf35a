import Gateway.Server.Admin.Api

/-! The control key: a configured token that acts as an administrator, and
takes the place of the one before it at a restart. -/
namespace Gateway.Server

open Json Store Program Handler

def controlUsername : Str := "control".toList

/-- The characters from one byte to another, if both are between characters. -/
def splitAtByte : Str → Nat → Option (Str × Str)
  | s, 0 => some ([], s)
  | [], _ + 1 => none
  | c :: s, n =>
      if c.utf8Size ≤ n then (splitAtByte s (n - c.utf8Size)).map fun (a, b) => (c :: a, b)
      else none

def getBytes (s : Str) (start stop : Nat) : Option Str :=
  (splitAtByte s stop).bind fun (a, _) => (splitAtByte a start).map Prod.snd

/-- The administrator that the control key acts as. No password matches
theirs. -/
def controlOwner : Handler UserRow := do
  match ← store (.getUserByUsername controlUsername) with
  | some user =>
      if user.role ≠ .admin then
        store (.setUserRole user.id .admin)
        pure user
      else pure user
  | none =>
      let id ← fresh
      let now ← now
      let user : UserRow :=
        { id := id
          username := controlUsername
          passwordHash := "!".toList
          role := .admin
          createdAt := now }
      store (.createUser user)
      pure user

/-- A control key of another token is revoked, and the one of this token
remains. -/
def revokeOthers (hash : Str) : List ApiKeyRow → Option ApiKeyRow → Handler (Option ApiKeyRow)
  | [], current => pure current
  | key :: rest, current =>
      if key.deletedAt.isSome || key.name != some controlUsername then revokeOthers hash rest current
      else if key.hash = hash then revokeOthers hash rest (some key)
      else do
        store (.deleteApiKey key.id)
        revokeOthers hash rest current

def controlKey (ownerUserId hash token id : Str) (now : Timestamp) : ApiKeyRow :=
  let length := (Text.toUtf8 token).length
  { id := id
    ownerUserId := ownerUserId
    hash := hash
    keyPrefix := (getBytes token 0 (min length 8)).getD []
    keySuffix := (getBytes token (length - 4) length).getD []
    name := some controlUsername
    scopes := [.inference, .admin]
    createdAt := now }

section

variable (hashToken : Str → Str)

def ensureControlKey (token : Str) : Handler ApiKeyRow := do
  let owner ← controlOwner
  let keys ← store (.listApiKeysForUser owner.id)
  match ← revokeOthers (hashToken token) keys none with
  | some key => pure key
  | none =>
      let id ← fresh
      let now ← now
      let key := controlKey owner.id (hashToken token) token id now
      store (.createApiKey key)
      pure key

end

/-! ### What a start leaves -/

/-- The owner is the live user of that name. -/
def isControlKey (db : Db) (k : ApiKeyRow) : Bool :=
  k.live && k.name == some controlUsername &&
    (db.getUserByUsername controlUsername).any (·.id == k.ownerUserId)

/-- The live control keys. -/
def controlKeys (db : Db) : List ApiKeyRow := db.apiKeys.rows.filter (isControlKey db)

/-- The hashes of the keys in the table, live or not. -/
def hashes (db : Db) : List Str := db.apiKeys.rows.map ApiKeyRow.hash

def idsOf (db : Db) : List Id :=
  db.users.rows.map UserRow.id ++ db.apiKeys.rows.map ApiKeyRow.id ++
    db.apiKeys.rows.map ApiKeyRow.ownerUserId

/-- The storage answers, and the new ids are new. -/
structure Sound (env : Env) (db : Db) : Prop where
  up : ∀ s, env.outage s = none
  unused : env.id ∉ idsOf db

section

variable {env : Env} {db : Db} {α : Type}

theorem run_store (hUp : ∀ s, env.outage s = none) (s : Statement) (f : s.Result → Handler α)
    (db : Db) :
    (store s >>= f).run env.answer db =
      match s.execute env.now db with
      | (.ok v, db') => (f v).run env.answer db'
      | (.error e, db') => (.error e, db') := by
  have hAnswer : env.answer (.store s) db = s.execute env.now db := by
    unfold Env.answer
    dsimp only
    rw [hUp s]
  show (ofExcept (env.answer (.store s) db).1 >>= f).run env.answer (env.answer (.store s) db).2 = _
  rw [hAnswer]
  rcases s.execute env.now db with ⟨e | v, db'⟩ <;> rfl

theorem controlKeys_congr {db' : Db} (hKeys : db'.apiKeys = db.apiKeys)
    (hOwner : (db'.getUserByUsername controlUsername).map UserRow.id =
      (db.getUserByUsername controlUsername).map UserRow.id) :
    controlKeys db' = controlKeys db := by
  have hAny : ∀ (o : Option UserRow) (id : Id), o.any (·.id == id) = (o.map UserRow.id).any (· == id) := by
    intro o id
    cases o <;> rfl
  unfold controlKeys
  rw [hKeys]
  apply List.filter_congr
  intro k _
  unfold isControlKey
  rw [hAny, hAny, hOwner]

/-- Nobody of the name who owns a key, and no control key. -/
theorem controlKeys_eq_nil (h : ∀ user, db.getUserByUsername controlUsername = some user →
    user.id ∉ db.apiKeys.rows.map ApiKeyRow.ownerUserId) : controlKeys db = [] := by
  apply List.filter_eq_nil_iff.mpr
  intro k hk hControl
  obtain ⟨-, hOwner⟩ := Bool.and_eq_true_iff.mp hControl
  obtain ⟨user, hUser, hId⟩ := (Option.any_eq_true _ _).mp hOwner
  rw [beq_iff_eq] at hId
  exact h user hUser (hId ▸ List.mem_map_of_mem hk)

/-- The administrator is there afterwards, and the control keys are the same. -/
theorem run_controlOwner (hSound : Sound env db) :
    ∃ (user : UserRow) (db' : Db), controlOwner.run env.answer db = (.ok user, db') ∧
      (db'.getUserByUsername controlUsername).map UserRow.id = some user.id ∧
      db'.apiKeys = db.apiKeys ∧ controlKeys db' = controlKeys db ∧
      ∀ id ∈ db'.users.rows.map UserRow.id, id ∈ db.users.rows.map UserRow.id ∨ id = env.id := by
  unfold controlOwner
  rw [run_store hSound.up]
  dsimp only [Statement.execute]
  cases hUser : db.getUserByUsername controlUsername with
  | some user =>
      dsimp only
      split
      · have hIds : (db.setUserRole user.id .admin).users.rows.map UserRow.id =
            db.users.rows.map UserRow.id := Table.map_update (by exact fun _ => rfl) fun _ => rfl
        have hOwner : ((db.setUserRole user.id .admin).getUserByUsername controlUsername).map
            UserRow.id = some user.id := by
          have hFound : (db.setUserRole user.id .admin).getUserByUsername controlUsername =
              (db.getUserByUsername controlUsername).map _ :=
            Table.find_update (by exact fun _ => rfl) fun _ => rfl
          rw [hFound, hUser]
          simp only [Option.map_some]
          split <;> rfl
        refine ⟨user, db.setUserRole user.id .admin, run_store hSound.up _ _ db, hOwner, rfl,
          controlKeys_congr rfl ?_, fun id hId => .inl (hIds ▸ hId)⟩
        rw [hOwner, hUser]
        rfl
      · refine ⟨user, db, rfl, ?_, rfl, rfl, fun id hId => .inl hId⟩
        rw [hUser]
        rfl
  | none =>
      let user : UserRow :=
        { id := env.id
          username := controlUsername
          passwordHash := "!".toList
          role := .admin
          createdAt := env.now }
      have hUnused := hSound.unused
      simp only [idsOf, List.mem_append, not_or] at hUnused
      obtain ⟨⟨hNoUser, -⟩, hNoOwner⟩ := hUnused
      obtain ⟨users, hInsert, hRows⟩ := Table.insert_of_new (a := user) hNoUser
      have hNobody : db.users.rows.find? (fun u => u.username == controlUsername && u.live) = none :=
        hUser
      have hCreate : db.createUser user = (.ok (), { db with users := users }) := by
        unfold Db.createUser
        rw [if_neg, hInsert]
        rw [Bool.and_eq_true, List.any_eq_true]
        rintro ⟨-, u, hu, hNamed⟩
        exact List.find?_eq_none.mp hNobody u hu hNamed
      have hOwner : Db.getUserByUsername { db with users := users } controlUsername = some user := by
        show users.rows.find? _ = some user
        rw [hRows, List.find?_append, hNobody]
        rfl
      refine ⟨user, { db with users := users }, ?_, ?_, rfl, ?_, fun id hId => ?_⟩
      · have hRun := run_store hSound.up (.createUser user) (fun _ => pure user) db
        exact hRun.trans (by rw [show Statement.execute env.now db (.createUser user) = _ from hCreate]; rfl)
      · rw [hOwner]
        rfl
      · rw [controlKeys_eq_nil, controlKeys_eq_nil]
        · intro u hu
          rw [hUser] at hu
          cases hu
        · intro u hu
          rw [hOwner] at hu
          cases hu
          exact hNoOwner
      · rw [show Db.users { db with users := users } = users from rfl, hRows, List.map_append] at hId
        simpa using hId

/-! ### The keys of other tokens -/

def Obsolete (hash : Str) (k : ApiKeyRow) : Bool :=
  k.deletedAt.isNone && k.name == some controlUsername && k.hash != hash

def InForce (hash : Str) (k : ApiKeyRow) : Bool :=
  k.deletedAt.isNone && k.name == some controlUsername && k.hash == hash

theorem key_revoked (now : Timestamp) (k : ApiKeyRow) :
    ({ k with deletedAt := some now } : ApiKeyRow).id = k.id := rfl

/-- The keys of these ids revoked. -/
def revoke (now : Timestamp) (ids : List Id) (db : Db) : Db :=
  { db with
    apiKeys := db.apiKeys.update (fun k => k.live && ids.contains k.id)
      (fun k => { k with deletedAt := some now }) (key_revoked now) }

theorem map_revoke {β : Type} {now : Timestamp} {ids : List Id} {f : ApiKeyRow → β}
    (hSame : ∀ (k : ApiKeyRow) t, f { k with deletedAt := some t } = f k) :
    (revoke now ids db).apiKeys.rows.map f = db.apiKeys.rows.map f :=
  Table.map_update (by exact fun _ => rfl) fun k => hSame k now

theorem revoke_nil (now : Timestamp) (db : Db) : revoke now [] db = db := by
  have hRows : (db.apiKeys.update (fun k => k.live && ([] : List Id).contains k.id)
      (fun k => { k with deletedAt := some now }) (by exact fun _ => rfl)) = db.apiKeys := by
    apply Table.ext
    show db.apiKeys.rows.map _ = _
    simp
  unfold revoke
  rw [hRows]

theorem revoke_cons (now : Timestamp) (id : Id) (ids : List Id) (db : Db) :
    revoke now (id :: ids) db = revoke now ids (db.deleteApiKey now id) := by
  have hRows : (revoke now (id :: ids) db).apiKeys =
      (revoke now ids (db.deleteApiKey now id)).apiKeys := by
    apply Table.ext
    show db.apiKeys.rows.map _ = (db.apiKeys.rows.map _).map _
    rw [List.map_map]
    apply List.map_congr_left
    intro k _
    by_cases hLive : k.live = true
    · by_cases hId : k.id = id
      · simp [hLive, hId]
      · simp [hLive, hId]
    · simp [hLive]
  exact congrArg (fun t => { db with apiKeys := t }) hRows

/-- The last key of the token among those that are looked at, and the others
revoked. -/
theorem run_revokeOthers (hUp : ∀ s, env.outage s = none) (hash : Str) (keys : List ApiKeyRow)
    (current : Option ApiKeyRow) (db : Db) :
    (revokeOthers hash keys current).run env.answer db =
      (.ok ((keys.filter (InForce hash)).getLast?.or current),
        revoke env.now ((keys.filter (Obsolete hash)).map ApiKeyRow.id) db) := by
  induction keys generalizing current db with
  | nil =>
      show (Except.ok current, db) = (Except.ok current, revoke env.now [] db)
      rw [revoke_nil]
  | cons key rest ih =>
      unfold revokeOthers
      split
      · next hSkip =>
          have hOut : key.deletedAt.isNone = false ∨ (key.name == some controlUsername) = false := by
            simpa using hSkip
          have hForce : InForce hash key = false := by
            unfold InForce
            rcases hOut with h | h <;> simp [h]
          have hObsolete : Obsolete hash key = false := by
            unfold Obsolete
            rcases hOut with h | h <;> simp [h]
          rw [ih, List.filter_cons_of_neg (by simp [hForce]), List.filter_cons_of_neg (by simp [hObsolete])]
      · next hKept =>
          have hIn : key.deletedAt.isNone = true ∧ (key.name == some controlUsername) = true := by
            simpa using hKept
          split
          · next hHash =>
              have hForce : InForce hash key = true := by simp [InForce, hIn.1, hIn.2, hHash]
              have hObsolete : Obsolete hash key = false := by simp [Obsolete, hHash]
              rw [ih, List.filter_cons_of_pos hForce, List.filter_cons_of_neg (by simp [hObsolete]),
                List.getLast?_cons]
              cases (rest.filter (InForce hash)).getLast? <;> rfl
          · next hHash =>
              have hForce : InForce hash key = false := by simp [InForce, hHash]
              have hObsolete : Obsolete hash key = true := by simp [Obsolete, hIn.1, hIn.2, hHash]
              rw [List.filter_cons_of_neg (by simp [hForce]), List.filter_cons_of_pos hObsolete,
                List.map_cons, revoke_cons]
              exact (run_store hUp (.deleteApiKey key.id) _ db).trans (ih current _)

/-! ### A start -/

theorem isControlKey_iff {ownerId : Id}
    (hOwner : (db.getUserByUsername controlUsername).map UserRow.id = some ownerId)
    (k : ApiKeyRow) : isControlKey db k = true ↔
      k.live = true ∧ k.name = some controlUsername ∧ k.ownerUserId = ownerId := by
  obtain ⟨user, hUser, rfl⟩ := Option.map_eq_some_iff.mp hOwner
  unfold isControlKey
  rw [hUser, Option.any_some, Bool.and_eq_true, Bool.and_eq_true, beq_iff_eq, beq_iff_eq, and_assoc,
    eq_comm (a := user.id)]

theorem mem_listed {ownerId : Id} {k : ApiKeyRow} : k ∈ db.listApiKeysForUser ownerId ↔
    k ∈ db.apiKeys.rows ∧ k.ownerUserId = ownerId ∧ k.live = true := by
  unfold Db.listApiKeysForUser orderBy
  rw [(List.perm_insertionSort _ _).mem_iff, List.mem_filter, Bool.and_eq_true, beq_iff_eq]

/-- The control keys of other tokens are revoked. -/
theorem controlKeys_revoke {ownerId : Id} (hash : Str) (now : Timestamp)
    (hOwner : (db.getUserByUsername controlUsername).map UserRow.id = some ownerId) :
    controlKeys (revoke now
        (((db.listApiKeysForUser ownerId).filter (Obsolete hash)).map ApiKeyRow.id) db) =
      (controlKeys db).filter (·.hash == hash) := by
  let ids := ((db.listApiKeysForUser ownerId).filter (Obsolete hash)).map ApiKeyRow.id
  have hIds : ∀ k ∈ db.apiKeys.rows, k.id ∈ ids ↔
      isControlKey db k = true ∧ k.hash ≠ hash := by
    intro k hk
    rw [isControlKey_iff hOwner]
    constructor
    · intro hMem
      obtain ⟨k', hk', hId⟩ := List.mem_map.mp hMem
      obtain ⟨hListed, hObsolete⟩ := List.mem_filter.mp hk'
      obtain ⟨hRow, hOwned, hLive⟩ := mem_listed.mp hListed
      cases Table.eq_of_key hRow hk hId
      simp only [Obsolete, Bool.and_eq_true, beq_iff_eq, bne_iff_ne] at hObsolete
      exact ⟨⟨hLive, hObsolete.1.2, hOwned⟩, hObsolete.2⟩
    · rintro ⟨⟨hLive, hName, hOwned⟩, hHash⟩
      refine List.mem_map_of_mem (List.mem_filter.mpr ⟨mem_listed.mpr ⟨hk, hOwned, hLive⟩, ?_⟩)
      have hNone : k.deletedAt.isNone = true := hLive
      simp [Obsolete, hNone, hName, hHash]
  show (db.apiKeys.update (fun k => k.live && ids.contains k.id)
      (fun k => { k with deletedAt := some now })).rows.filter (isControlKey db) =
    (db.apiKeys.rows.filter (isControlKey db)).filter (·.hash == hash)
  rw [List.filter_filter]
  apply Table.filter_update_of (by exact fun _ => rfl)
  · intro k hk hKept
    cases hControl : isControlKey db k with
    | false => simp
    | true =>
        have hLive : k.live = true := ((isControlKey_iff hOwner k).mp hControl).1
        have hOut : ¬ k.id ∈ ids := by simpa [hLive] using hKept
        have hHash : k.hash = hash := by
          by_contra hHash
          exact hOut ((hIds k hk).mpr ⟨hControl, hHash⟩)
        simp [hHash]
  · intro k hk hRevoked
    obtain ⟨hLive, hMem⟩ : k.live = true ∧ k.id ∈ ids := by simpa using hRevoked
    refine ⟨?_, ?_⟩
    · simp [isControlKey, ApiKeyRow.live]
    · simp [((hIds k hk).mp hMem).2]

/-- The key of this token is found if it is there. -/
theorem inForce_isSome {ownerId : Id} (hash : Str)
    (hOwner : (db.getUserByUsername controlUsername).map UserRow.id = some ownerId) :
    ((db.listApiKeysForUser ownerId).filter (InForce hash)).getLast?.isSome = true ↔
      hash ∈ (controlKeys db).map ApiKeyRow.hash := by
  rw [List.getLast?_isSome]
  constructor
  · intro hSome
    obtain ⟨k, hk⟩ := List.exists_mem_of_ne_nil _ hSome
    obtain ⟨hListed, hForce⟩ := List.mem_filter.mp hk
    obtain ⟨hRow, hOwned, hLive⟩ := mem_listed.mp hListed
    simp only [InForce, Bool.and_eq_true, beq_iff_eq] at hForce
    refine List.mem_map.mpr ⟨k, List.mem_filter.mpr ⟨hRow, ?_⟩, hForce.2⟩
    exact (isControlKey_iff hOwner k).mpr ⟨hLive, hForce.1.2, hOwned⟩
  · intro hMem
    obtain ⟨k, hk, rfl⟩ := List.mem_map.mp hMem
    obtain ⟨hRow, hControl⟩ := List.mem_filter.mp hk
    obtain ⟨hLive, hName, hOwned⟩ := (isControlKey_iff hOwner k).mp hControl
    have hNone : k.deletedAt.isNone = true := hLive
    apply List.ne_nil_of_mem (a := k)
    exact List.mem_filter.mpr ⟨mem_listed.mpr ⟨hRow, hOwned, hLive⟩, by simp [InForce, hNone, hName]⟩

/-- Up to the new key: the control keys of other tokens are revoked, and
nothing else has come of it than an owner. -/
theorem run_ensureControlKey (hSound : Sound env db) (hashToken : Str → Str) (token : Str) :
    ∃ (ownerId : Id) (found : Option ApiKeyRow) (db' : Db),
      (ensureControlKey hashToken token).run env.answer db =
        (match found with
          | some key => (.ok key, db')
          | none =>
              let key := controlKey ownerId (hashToken token) token env.id env.now
              match db'.createApiKey key with
              | (.ok (), db'') => (.ok key, db'')
              | (.error e, db'') => (.error e, db'')) ∧
      (found.isSome = true ↔ hashToken token ∈ (controlKeys db).map ApiKeyRow.hash) ∧
      (db'.getUserByUsername controlUsername).map UserRow.id = some ownerId ∧
      controlKeys db' = (controlKeys db).filter (·.hash == hashToken token) ∧
      hashes db' = hashes db ∧
      db'.apiKeys.rows.map ApiKeyRow.id = db.apiKeys.rows.map ApiKeyRow.id ∧
      ∀ id ∈ idsOf db', id = env.id ∨ id ∈ idsOf db := by
  obtain ⟨user, db₁, hRun, hOwner, hKeys, hControl, hUsers⟩ := run_controlOwner hSound
  let ids := ((db₁.listApiKeysForUser user.id).filter (Obsolete (hashToken token))).map ApiKeyRow.id
  let found := ((db₁.listApiKeysForUser user.id).filter (InForce (hashToken token))).getLast?
  have hIds : (revoke env.now ids db₁).apiKeys.rows.map ApiKeyRow.id =
      db.apiKeys.rows.map ApiKeyRow.id := by
    rw [map_revoke fun _ _ => rfl, hKeys]
  have hOwners : (revoke env.now ids db₁).apiKeys.rows.map ApiKeyRow.ownerUserId =
      db.apiKeys.rows.map ApiKeyRow.ownerUserId := by
    rw [map_revoke fun _ _ => rfl, hKeys]
  have hHashes : hashes (revoke env.now ids db₁) = hashes db := by
    unfold hashes
    rw [map_revoke fun _ _ => rfl, hKeys]
  refine ⟨user.id, found, revoke env.now ids db₁, ?_, ?_, hOwner, ?_, hHashes, hIds, ?_⟩
  · unfold ensureControlKey
    rw [run_bind, hRun]
    dsimp only
    rw [run_store hSound.up]
    dsimp only [Statement.execute]
    rw [run_bind, run_revokeOthers hSound.up, Option.or_none]
    dsimp only
    show Program.run env.answer (match found with | some key => _ | none => _) _ = _
    cases found with
    | some key => rfl
    | none =>
        let key := controlKey user.id (hashToken token) token env.id env.now
        have hStore := run_store hSound.up (.createApiKey key) (fun _ => pure key)
          (revoke env.now ids db₁)
        have hExecute : Statement.execute env.now (revoke env.now ids db₁) (.createApiKey key) =
            (revoke env.now ids db₁).createApiKey key := rfl
        rw [hExecute] at hStore
        refine Eq.trans hStore ?_
        dsimp only
        rcases (revoke env.now ids db₁).createApiKey key with ⟨e | ⟨⟩, db''⟩ <;> rfl
  · rw [← hControl]
    exact inForce_isSome _ hOwner
  · rw [← hControl]
    exact controlKeys_revoke _ _ hOwner
  · intro id hId
    simp only [idsOf, List.mem_append, hIds, hOwners] at hId ⊢
    rcases hId with (hId | hId) | hId
    · rcases hUsers id hId with hId | hId
      · exact .inr (.inl (.inl hId))
      · exact .inl hId
    · exact .inr (.inl (.inr hId))
    · exact .inr (.inr hId)

theorem hash_of_control {hash : Str} (h : hash ∈ (controlKeys db).map ApiKeyRow.hash) :
    hash ∈ hashes db :=
  (List.filter_sublist.map ApiKeyRow.hash).subset h

/-- Hashes differ, so that one key at most has a given one. -/
theorem control_of_hash {hash : Str} (hUnique : (hashes db).Nodup)
    (h : hash ∈ (controlKeys db).map ApiKeyRow.hash) :
    ((controlKeys db).filter (·.hash == hash)).map ApiKeyRow.hash = [hash] := by
  have hNodup : (((controlKeys db).filter (·.hash == hash)).map ApiKeyRow.hash).Nodup :=
    hUnique.sublist ((List.filter_sublist.trans List.filter_sublist).map _)
  have hMem : hash ∈ ((controlKeys db).filter (·.hash == hash)).map ApiKeyRow.hash := by
    obtain ⟨k, hk, rfl⟩ := List.mem_map.mp h
    exact List.mem_map_of_mem (List.mem_filter.mpr ⟨hk, beq_self_eq_true _⟩)
  have hAll : ∀ x ∈ ((controlKeys db).filter (·.hash == hash)).map ApiKeyRow.hash, x = hash := by
    intro x hx
    obtain ⟨k, hk, rfl⟩ := List.mem_map.mp hx
    exact beq_iff_eq.mp (List.mem_filter.mp hk).2
  generalize ((controlKeys db).filter (·.hash == hash)).map ApiKeyRow.hash = found at hNodup hMem hAll
  rw [List.eq_replicate_of_mem hAll] at hNodup hMem ⊢
  have hLength := List.nodup_replicate.mp hNodup
  have hPos : 0 < found.length := Nat.pos_of_ne_zero (List.mem_replicate.mp hMem).1
  rw [show found.length = 1 by omega]
  rfl

/-- A start that does what it is for. -/
def Started (hash : Str) (r : Except Error ApiKeyRow × Db) : Prop :=
  (∃ key, r.1 = .ok key) ∧ (controlKeys r.2).map ApiKeyRow.hash = [hash]

theorem owner_mem {ownerId : Id}
    (hOwner : (db.getUserByUsername controlUsername).map UserRow.id = some ownerId) :
    ownerId ∈ idsOf db := by
  obtain ⟨user, hUser, rfl⟩ := Option.map_eq_some_iff.mp hOwner
  have hMem : user ∈ db.users.rows := List.mem_of_find?_eq_some hUser
  simp only [idsOf, List.mem_append]
  exact .inl (.inl (List.mem_map_of_mem hMem))

/-- The new key of a start, whose hash no other key has. -/
theorem createApiKey_controlKey {ownerId id hash token : Str} {now : Timestamp}
    (hOwner : (db.getUserByUsername controlUsername).map UserRow.id = some ownerId)
    (hId : id ∉ db.apiKeys.rows.map ApiKeyRow.id) (hHash : hash ∉ hashes db) :
    ∃ db', db.createApiKey (controlKey ownerId hash token id now) = (.ok (), db') ∧
      (controlKeys db').map ApiKeyRow.hash = (controlKeys db).map ApiKeyRow.hash ++ [hash] ∧
      hashes db' = hashes db ++ [hash] ∧
      ∀ x ∈ idsOf db', x = id ∨ x = ownerId ∨ x ∈ idsOf db := by
  let key : ApiKeyRow := { controlKey ownerId hash token id now with
    scopes := KeyScope.stored (controlKey ownerId hash token id now).scopes }
  obtain ⟨apiKeys, hInsert, hRows⟩ := Table.insert_of_new (a := key) hId
  have hKept : ∀ k, isControlKey { db with apiKeys := apiKeys } k = isControlKey db k := fun _ => rfl
  have hKey : isControlKey db key = true :=
    (isControlKey_iff hOwner key).mpr ⟨rfl, rfl, rfl⟩
  refine ⟨{ db with apiKeys := apiKeys }, ?_, ?_, ?_, fun x hx => ?_⟩
  · unfold Db.createApiKey
    rw [if_neg]
    · simp only [key] at hInsert ⊢
      rw [hInsert]
    · rw [List.any_eq_true]
      rintro ⟨k, hk, hSame⟩
      exact hHash (List.mem_map.mpr ⟨k, hk, beq_iff_eq.mp hSame⟩)
  · show (apiKeys.rows.filter (isControlKey db)).map ApiKeyRow.hash = _
    rw [hRows, List.filter_append, List.map_append, List.filter_cons_of_pos hKey]
    rfl
  · show apiKeys.rows.map ApiKeyRow.hash = _
    rw [hRows, List.map_append]
    rfl
  · have hSplit : x ∈ idsOf { db with apiKeys := apiKeys } ↔
        x ∈ db.users.rows.map UserRow.id ∨ x ∈ apiKeys.rows.map ApiKeyRow.id ∨
          x ∈ apiKeys.rows.map ApiKeyRow.ownerUserId := by
      simp only [idsOf, List.mem_append, or_assoc]
    rw [hSplit, hRows, List.map_append, List.map_append, List.mem_append, List.mem_append] at hx
    simp only [idsOf, List.mem_append]
    rcases hx with hx | (hx | hx) | (hx | hx)
    · exact .inr (.inr (.inl (.inl hx)))
    · exact .inr (.inr (.inl (.inr hx)))
    · exact .inl (List.mem_singleton.mp hx)
    · exact .inr (.inr (.inr hx))
    · exact .inr (.inl (List.mem_singleton.mp hx))

/-- A token is the one in force, or one whose hash no key has; any other makes
the start fail. -/
theorem started_iff (hSound : Sound env db) (hUnique : (hashes db).Nodup) (hashToken : Str → Str)
    (token : Str) :
    let r := (ensureControlKey hashToken token).run env.answer db
    (Started (hashToken token) r ↔ hashToken token ∈ (controlKeys db).map ApiKeyRow.hash ∨
        hashToken token ∉ hashes db) ∧
      (Started (hashToken token) r → (hashes r.2).Nodup ∧
        (∀ hash, hash ∈ hashes r.2 ↔ hash = hashToken token ∨ hash ∈ hashes db) ∧
        ∀ id ∈ idsOf r.2, id = env.id ∨ id ∈ idsOf db) := by
  intro r
  obtain ⟨ownerId, found, db', hRun, hFound, hOwner, hControl, hHashes, hIds, hAll⟩ :=
    run_ensureControlKey hSound hashToken token
  have hResult : r = _ := hRun
  cases found with
  | some key =>
      have hIn := hFound.mp rfl
      have hStarted : Started (hashToken token) r := by
        rw [hResult]
        exact ⟨⟨key, rfl⟩, by rw [hControl, control_of_hash hUnique hIn]⟩
      refine ⟨iff_of_true hStarted (.inl hIn), fun _ => ?_⟩
      rw [hResult]
      refine ⟨hHashes ▸ hUnique, fun hash => ?_, hAll⟩
      rw [hHashes]
      refine ⟨.inr, fun h => h.elim (fun hSame => ?_) id⟩
      exact hSame ▸ hash_of_control hIn
  | none =>
      have hOut : hashToken token ∉ (controlKeys db).map ApiKeyRow.hash :=
        fun h => absurd (hFound.mpr h) (by simp)
      by_cases hUsed : hashToken token ∈ hashes db
      · have hFails : db'.createApiKey (controlKey ownerId (hashToken token) token env.id env.now) =
            (.error constraintFailed, db') := by
          unfold Db.createApiKey
          rw [if_pos]
          rw [← hHashes] at hUsed
          obtain ⟨k, hk, hHash⟩ := List.mem_map.mp hUsed
          exact List.any_eq_true.mpr ⟨k, hk, by simp [hHash, controlKey]⟩
        have hFailed : ¬ Started (hashToken token) r := by
          rintro ⟨⟨key, hKey⟩, -⟩
          rw [hResult] at hKey
          dsimp only at hKey
          rw [hFails] at hKey
          cases hKey
        exact ⟨iff_of_false hFailed (not_or.mpr ⟨hOut, not_not.mpr hUsed⟩), fun h => absurd h hFailed⟩
      · have hNew : env.id ∉ db'.apiKeys.rows.map ApiKeyRow.id := by
          rw [hIds]
          exact fun h => hSound.unused (by simp [idsOf, h])
        obtain ⟨db'', hCreate, hControl', hHashes', hIds'⟩ :=
          createApiKey_controlKey hOwner hNew (hHashes ▸ hUsed)
        have hAfter : r = (.ok (controlKey ownerId (hashToken token) token env.id env.now), db'') := by
          rw [hResult]
          dsimp only
          rw [hCreate]
        have hNoControl : (controlKeys db').map ApiKeyRow.hash = [] := by
          rw [hControl, List.map_eq_nil_iff, List.filter_eq_nil_iff]
          exact fun k hk hHash => hOut (List.mem_map.mpr ⟨k, hk, beq_iff_eq.mp hHash⟩)
        have hStarted : Started (hashToken token) r := by
          rw [hAfter]
          exact ⟨⟨_, rfl⟩, by rw [hControl', hNoControl]; rfl⟩
        refine ⟨iff_of_true hStarted (.inr hUsed), fun _ => ?_⟩
        rw [hAfter]
        refine ⟨?_, fun hash => ?_, fun id hId => ?_⟩
        · rw [hHashes', hHashes]
          exact hUnique.append (List.nodup_singleton _) (by simpa using hUsed)
        · rw [hHashes', hHashes, List.mem_append, List.mem_singleton, or_comm]
        · rcases hIds' id hId with h | rfl | h
          · exact .inl h
          · exact hAll id (owner_mem hOwner)
          · exact hAll id h

end

/-! ### A history of starts -/

/-- A start of the server with a token configured. -/
structure Start where
  env : Env
  token : Str

/-- Every start succeeds, and leaves the key of its token as the only control
key. -/
def AllStarted (hashToken : Str → Str) : List Start → Db → Prop
  | [], _ => True
  | s :: rest, db =>
      Started (hashToken s.token) ((ensureControlKey hashToken s.token).run s.env.answer db) ∧
        AllStarted hashToken rest ((ensureControlKey hashToken s.token).run s.env.answer db).2

/-- No token comes back once another has taken its place: each is the one in
force, or one that no key was issued for. -/
def Rotation (used current : List Str) : List Str → Prop
  | [] => True
  | hash :: rest => (hash ∈ current ∨ hash ∉ used) ∧ Rotation (hash :: used) [hash] rest

theorem rotation_congr {used used' current tokens : List Str} (h : ∀ x, x ∈ used ↔ x ∈ used') :
    Rotation used current tokens ↔ Rotation used' current tokens := by
  induction tokens generalizing used used' current with
  | nil => exact Iff.rfl
  | cons hash rest ih =>
      have hRest : Rotation (hash :: used) [hash] rest ↔ Rotation (hash :: used') [hash] rest :=
        ih fun x => by rw [List.mem_cons, List.mem_cons, h]
      unfold Rotation
      rw [h, hRest]

/-- The storage answers at every start, and the ids made are new. -/
structure SoundStarts (starts : List Start) (db : Db) : Prop where
  up : ∀ s ∈ starts, ∀ statement, s.env.outage statement = none
  unused : ∀ s ∈ starts, s.env.id ∉ idsOf db
  distinct : (starts.map (·.env.id)).Nodup

/-- Over any number of restarts the configured token has the only control key,
exactly where no token comes back that another took the place of. -/
theorem control_key_rotates (hashToken : Str → Str) {starts : List Start} {db : Db}
    (hSound : SoundStarts starts db) (hUnique : (hashes db).Nodup) :
    AllStarted hashToken starts db ↔
      Rotation (hashes db) ((controlKeys db).map ApiKeyRow.hash)
        (starts.map fun s => hashToken s.token) := by
  induction starts generalizing db with
  | nil => exact Iff.rfl
  | cons s rest ih =>
      have hFirst : Sound s.env db :=
        ⟨hSound.up s List.mem_cons_self, hSound.unused s List.mem_cons_self⟩
      obtain ⟨hStarted, hLeft⟩ := started_iff hFirst hUnique hashToken s.token
      refine (and_congr_right fun h => ?_).trans (and_congr_left' hStarted)
      obtain ⟨hUnique', hHashes, hIds⟩ := hLeft h
      have hDistinct := List.nodup_cons.mp hSound.distinct
      have hRest : SoundStarts rest
          ((ensureControlKey hashToken s.token).run s.env.answer db).2 := by
        refine ⟨fun t ht => hSound.up t (List.mem_cons_of_mem s ht), fun t ht hUsed => ?_,
          hDistinct.2⟩
        rcases hIds _ hUsed with hSame | hOld
        · exact hDistinct.1 (List.mem_map.mpr ⟨t, ht, hSame⟩)
        · exact hSound.unused t (List.mem_cons_of_mem s ht) hOld
      rw [ih hRest hUnique', h.2]
      apply rotation_congr
      intro hash
      rw [hHashes, List.mem_cons]

/-! ### Three starts -/

def startWith (id token : Str) : Start := ⟨{ calm with id := id }, token⟩

/-- Two tokens one after the other, and the second again. -/
def newTokens : List Start :=
  [startWith "1".toList "a".toList, startWith "2".toList "b".toList, startWith "3".toList "b".toList]

/-- The first token again at the end. -/
def oldToken : List Start :=
  [startWith "1".toList "a".toList, startWith "2".toList "b".toList, startWith "3".toList "a".toList]

theorem new_tokens_rotate :
    AllStarted id newTokens {} ↔ Rotation [] [] ["a".toList, "b".toList, "b".toList] :=
  control_key_rotates id ⟨by simp [newTokens, startWith, calm], by decide, by decide⟩ (by decide)

/-- The third start fails. -/
theorem old_token_fails :
    ¬ ∀ (hashToken : Str → Str) (starts : List Start) (db : Db), SoundStarts starts db →
      (hashes db).Nodup → AllStarted hashToken starts db := by
  intro h
  obtain ⟨-, -, ⟨⟨key, hKey⟩, -⟩, -⟩ :=
    h id oldToken {} ⟨by simp [oldToken, startWith, calm], by decide, by decide⟩ (by decide)
  have hFails : ((ensureControlKey id "a".toList).run (startWith "3".toList []).env.answer
      ((ensureControlKey id "b".toList).run (startWith "2".toList []).env.answer
        ((ensureControlKey id "a".toList).run (startWith "1".toList []).env.answer {}).2).2).1.toBool =
      false := by decide +kernel
  exact Bool.false_ne_true (hFails.symm.trans (congrArg Except.toBool hKey))

end Gateway.Server
