import Gateway.Server.Admin.Api
import Mathlib.Data.Fintype.EquivFin

/-! What a member reads through the admin API. Two databases that agree on what is
theirs give them the same answers only where the read is of their own. -/
namespace Gateway.Server

open Json Store Program Handler

/-- The reads that are scoped, or meant to be, to who makes them. -/
inductive Read where
  | keys
  | key (id : Id)
  | spend
  | budgets (subjectType subjectId : Str)
  | usage (start stop : Timestamp)
  | users

def Read.request : Read → Request
  | keys => .listKeys
  | key id => .getKey id
  | spend => .spend
  | budgets subjectType subjectId => .listBudgets subjectType subjectId
  | usage start stop => .usage start stop
  | users => .listUsers

/-- The answer to a read. -/
def answered (state : AppState) (env : Env) (p : Principal) (r : Read) (db : Db) : Except Error Reply :=
  ((handle state p r.request).run env.answer db).1

/-! ### What is a user's own -/

def ownKeys (userId : Id) (db : Db) : List ApiKeyRow :=
  db.apiKeys.rows.filter (·.ownerUserId == userId)

def ownMemberships (userId : Id) (db : Db) : List MembershipRow :=
  db.memberships.rows.filter (·.userId == userId)

/-- The subjects whose budgets and spend are a user's own: themselves, their keys and
their teams. -/
def ownSubject (userId : Id) (db : Db) (subjectType : SubjectType) (subjectId : Id) : Bool :=
  match subjectType with
  | .user => subjectId == userId
  | .key => (ownKeys userId db).any (·.id == subjectId)
  | .team => (ownMemberships userId db).any (·.teamId == subjectId)

/-- Two databases that agree on a user, and on all that is the user's own, and on the
catalogue. -/
structure Alike (userId : Id) (db db' : Db) : Prop where
  users : db'.users.rows.filter (·.id == userId) = db.users.rows.filter (·.id == userId)
  keys : ownKeys userId db' = ownKeys userId db
  memberships : ownMemberships userId db' = ownMemberships userId db
  teams : db'.teams.rows.filter (fun t => ownSubject userId db .team t.id) =
    db.teams.rows.filter fun t => ownSubject userId db .team t.id
  budgets : db'.budgets.rows.filter (fun b => ownSubject userId db b.subjectType b.subjectId) =
    db.budgets.rows.filter fun b => ownSubject userId db b.subjectType b.subjectId
  spend : db'.spendRollup.filter (fun r => ownSubject userId db r.subjectType r.subjectId) =
    db.spendRollup.filter fun r => ownSubject userId db r.subjectType r.subjectId
  catalog : db'.catalog = db.catalog

/-- The reads that tell nothing of others. A key is asked for by an id, which may be
another's, and a budget by its subject; the spend is everybody's. -/
def Scoped (userId : Id) (db : Db) : Read → Prop
  | .keys | .usage _ _ | .users => True
  | .key id => ∃ k ∈ ownKeys userId db, k.id = id
  | .budgets subjectType subjectId =>
      ∀ t, SubjectType.parse subjectType = .ok t → ownSubject userId db t subjectId = true
  | .spend => False

/-! ### Two runs -/

section

variable {env : Env} {db db' : Db}

/-- A handler ends the same way on both databases. -/
def Same (env : Env) (db db' : Db) {α : Type} (h : Handler α) : Prop :=
  (h.run env.answer db').1 = (h.run env.answer db).1

variable {α β : Type}

theorem same_ofExcept {r : Except Error β} {f : β → Handler α}
    (h : ∀ b, r = .ok b → Same env db db' (f b)) : Same env db db' (ofExcept r >>= f) := by
  cases r with
  | ok b => exact h b rfl
  | error e => rfl

theorem same_require {c : Bool} {e : Error} {f : Unit → Handler α}
    (h : c = true → Same env db db' (f ())) : Same env db db' (Handler.require c e >>= f) := by
  cases c with
  | true => exact h rfl
  | false => rfl

theorem same_found {what : Str} {r : Option β} {f : β → Handler α}
    (h : ∀ b, r = some b → Same env db db' (f b)) : Same env db db' (found what r >>= f) := by
  cases r with
  | some b => exact h b rfl
  | none => rfl

theorem same_pure (a : α) : Same env db db' (pure a) := rfl

/-- A statement that only reads, and reads the same. -/
theorem same_read {s : Statement} {f : s.Result → Handler α} (hReads : s.writes = false)
    (hSame : (s.execute env.now db').1 = (s.execute env.now db).1)
    (hNext : ∀ v, Same env db db' (f v)) : Same env db db' (Handler.store s >>= f) := by
  have hLeft (db : Db) : (env.answer (.store s) db).2 = db := by
    unfold Env.answer
    dsimp only
    split
    · rfl
    · exact Statement.execute_of_not_writes _ db hReads
  have hFirst : (env.answer (.store s) db').1 = (env.answer (.store s) db).1 := by
    unfold Env.answer
    dsimp only
    split
    · rfl
    · exact hSame
  show ((ofExcept (env.answer (.store s) db').1 >>= f).run env.answer (env.answer (.store s) db').2).1 =
    ((ofExcept (env.answer (.store s) db).1 >>= f).run env.answer (env.answer (.store s) db).2).1
  rw [hLeft, hLeft, hFirst]
  exact same_ofExcept fun v _ => hNext v

end

/-! ### Reads of one's own -/

section

variable {env : Env} {p : Principal} {db db' : Db}

theorem listApiKeysForUser_eq (userId : Id) (db : Db) :
    db.listApiKeysForUser userId = orderBy (·.createdAt) ((ownKeys userId db).filter ApiKeyRow.live) := by
  unfold Db.listApiKeysForUser ownKeys
  rw [List.filter_filter]
  congr 2
  funext k
  exact Bool.and_comm _ _

theorem listBudgets_eq {userId : Id} {own : Db} {t : SubjectType} {id : Id}
    (h : ownSubject userId own t id = true) (db : Db) :
    db.listBudgets t id = orderBy (·.createdAt)
      ((db.budgets.rows.filter fun b => ownSubject userId own b.subjectType b.subjectId).filter
        fun b => b.subjectType == t && b.subjectId == id && b.deletedAt.isNone) := by
  unfold Db.listBudgets
  rw [List.filter_filter]
  congr 2
  funext b
  by_cases hSubject : b.subjectType = t ∧ b.subjectId = id
  · rw [hSubject.1, hSubject.2, h]
    simp
  · have hOther : (b.subjectType == t && b.subjectId == id) = false := by simpa using hSubject
    rw [hOther]
    simp

theorem get_own (h : Alike p.userId db db') {k : ApiKeyRow} (hk : k ∈ ownKeys p.userId db) :
    db.apiKeys.get k.id = some k ∧ db'.apiKeys.get k.id = some k :=
  ⟨Table.get_key (List.mem_filter.mp hk).1, Table.get_key (List.mem_filter.mp (h.keys ▸ hk)).1⟩

theorem not_authorized (hMember : p.isAdmin = false) {action : Action} (hAdmin : action.minRole = .admin)
    {u : Unit} : authorize p.role action ≠ .ok u := by
  have hRole : p.role ≠ .admin := by simpa [Principal.isAdmin] using hMember
  simp [authorize, Role.atLeast, hAdmin, hRole]

theorem same_scoped (state : AppState) (hMember : p.isAdmin = false) (h : Alike p.userId db db') {r : Read}
    (hScoped : Scoped p.userId db r) : Same env db db' (handle state p r.request) := by
  cases r with
  | keys =>
      show Same env db db' (listKeys p)
      unfold listKeys
      rw [hMember]
      refine same_read rfl ?_ fun _ => same_pure _
      show Except.ok (db'.listApiKeysForUser p.userId) = .ok (db.listApiKeysForUser p.userId)
      rw [listApiKeysForUser_eq, listApiKeysForUser_eq, h.keys]
  | key id =>
      obtain ⟨k, hk, rfl⟩ := hScoped
      obtain ⟨hHere, hThere⟩ := get_own h hk
      show Same env db db' (getKey p k.id)
      unfold getKey ownKeyOrAdmin
      simp only [bind_assoc]
      refine same_read rfl ?_ fun v => same_found fun key _ => same_require fun _ => ?_
      · show Except.ok (db'.apiKeys.get k.id) = .ok (db.apiKeys.get k.id)
        rw [hHere, hThere]
      · rw [pure_bind]
        exact same_pure _
  | spend => exact absurd hScoped id
  | budgets subjectType subjectId =>
      show Same env db db' (listBudgets p subjectType subjectId)
      refine same_ofExcept fun _ _ => same_ofExcept fun t hType => same_read rfl ?_ fun _ => same_pure _
      show Except.ok (db'.listBudgets t subjectId) = .ok (db.listBudgets t subjectId)
      have hOwn := hScoped t hType
      rw [listBudgets_eq hOwn, listBudgets_eq hOwn, h.budgets]
  | usage start stop =>
      show Same env db db' (usage p start stop)
      refine same_require fun hAdmin => ?_
      rw [hMember] at hAdmin
      cases hAdmin
  | users =>
      show Same env db db' (listUsers p)
      exact same_ofExcept fun _ hAllowed => absurd hAllowed (not_authorized hMember rfl)

end

/-! ### Reads of others -/

section

variable {p : Principal} {db : Db}

theorem authorized_viewSpend (role : Role) : authorize role .viewSpend = .ok () := by
  cases role <;> rfl

theorem fresh_id (ids : List Id) : ∃ id : Id, id ∉ ids := by
  obtain ⟨id, hNew⟩ := Infinite.exists_notMem_finset ids.toFinset
  exact ⟨id, fun hMem => hNew (List.mem_toFinset.mpr hMem)⟩

theorem getKey_calm (hMember : p.isAdmin = false) (id : Id) (db : Db) :
    ((getKey p id).run calm.answer db).1 =
      match db.apiKeys.get id with
      | none => .error (.notFound "key".toList)
      | some k =>
          if k.ownerUserId == p.userId then .ok (.key (some (shown k)))
          else .error (.forbidden "not your key".toList) := by
  show (((found "key".toList (db.apiKeys.get id) >>= fun key =>
    Handler.require (p.isAdmin || key.ownerUserId == p.userId) (.forbidden "not your key".toList) >>=
      fun _ => (pure key : Handler ApiKeyRow)) >>= fun key =>
        (pure (Reply.key (some (shown key))) : Handler Reply)).run calm.answer db).1 = _
  cases db.apiKeys.get id with
  | none => rfl
  | some k =>
      dsimp only
      change (((Handler.require (p.isAdmin || k.ownerUserId == p.userId)
        (.forbidden "not your key".toList) >>= fun _ => (pure k : Handler ApiKeyRow)) >>= fun key =>
          (pure (Reply.key (some (shown key))) : Handler Reply)).run calm.answer db).1 = _
      rw [hMember, Bool.false_or]
      cases k.ownerUserId == p.userId <;> rfl

/-- The spend of somebody else is in the answer. -/
theorem spend_leaks (p : Principal) (db : Db) :
    ∃ db', Alike p.userId db db' ∧ ¬Same calm db db' (spend p) := by
  let row : SpendRow := { subjectType := .user, subjectId := 'a' :: p.userId, periodStart := 0 }
  refine ⟨{ db with spendRollup := row :: db.spendRollup }, ⟨rfl, rfl, rfl, rfl, rfl, ?_, rfl⟩, ?_⟩
  · have hOther : ownSubject p.userId db row.subjectType row.subjectId = false := by
      simp [ownSubject, row]
    rw [List.filter_cons_of_neg (by rw [hOther]; exact Bool.false_ne_true)]
  · unfold Same spend authz
    rw [authorized_viewSpend]
    intro h
    have hRows : Db.spendRows { db with spendRollup := row :: db.spendRollup } = db.spendRows :=
      Reply.spend.inj (Except.ok.inj h)
    have hLength := congrArg List.length hRows
    unfold Db.spendRows at hLength
    rw [List.length_insertionSort, List.length_insertionSort, List.length_cons] at hLength
    omega

/-- A budget of a subject that is not one's own is in the answer. -/
theorem budgets_leak {subjectType subjectId : Str} {t : SubjectType}
    (hType : SubjectType.parse subjectType = .ok t)
    (hOther : ownSubject p.userId db t subjectId = false) :
    ∃ db', Alike p.userId db db' ∧ ¬Same calm db db' (listBudgets p subjectType subjectId) := by
  obtain ⟨id, hNew⟩ := fresh_id (db.budgets.rows.map BudgetRow.id)
  let row : BudgetRow :=
    { id, subjectType := t, subjectId, period := .day, hardLimitMicros := 0, createdAt := 0
      updatedAt := 0 }
  obtain ⟨budgets, -, hRows⟩ := Table.insert_of_new (t := db.budgets) (a := row) hNew
  refine ⟨{ db with budgets := budgets }, ⟨rfl, rfl, rfl, rfl, ?_, rfl, rfl⟩, ?_⟩
  · show budgets.rows.filter _ = _
    rw [hRows, List.filter_append, List.filter_cons_of_neg (by rw [hOther]; exact Bool.false_ne_true),
      List.filter_nil, List.append_nil]
  · unfold Same listBudgets authz
    rw [authorized_viewSpend, hType]
    intro h
    have hBudgets : Db.listBudgets { db with budgets := budgets } t subjectId =
        db.listBudgets t subjectId := Reply.budgets.inj (Except.ok.inj h)
    have hLength := congrArg List.length hBudgets
    simp [Db.listBudgets, orderBy, List.length_insertionSort, hRows, row] at hLength

/-- That an id is another's key, or nobody's, is in the answer. -/
theorem key_leaks (hMember : p.isAdmin = false) {id : Id}
    (hOther : ∀ k ∈ ownKeys p.userId db, k.id ≠ id) :
    ∃ db', Alike p.userId db db' ∧ ¬Same calm db db' (getKey p id) := by
  have hForeign : ∀ k, db.apiKeys.get id = some k → (k.ownerUserId == p.userId) = false := by
    intro k hGet
    obtain ⟨hMem, hId⟩ := Table.get_eq_some hGet
    by_contra hOwn
    exact hOther k (List.mem_filter.mpr ⟨hMem, by simpa using hOwn⟩) hId
  cases hGet : db.apiKeys.get id with
  | none =>
      let row : ApiKeyRow :=
        { id, ownerUserId := 'a' :: p.userId, hash := [], keyPrefix := [], keySuffix := [], scopes := []
          createdAt := 0 }
      have hNew : row.id ∉ db.apiKeys.rows.map ApiKeyRow.id := by
        intro hMem
        obtain ⟨k, hk, hId⟩ := List.mem_map.mp hMem
        have hFound := Table.get_key hk
        rw [hId, show row.id = id from rfl, hGet] at hFound
        cases hFound
      obtain ⟨apiKeys, hInsert, hRows⟩ := Table.insert_of_new (t := db.apiKeys) (a := row) hNew
      refine ⟨{ db with apiKeys := apiKeys }, ⟨rfl, ?_, rfl, rfl, rfl, rfl, rfl⟩, ?_⟩
      · show apiKeys.rows.filter _ = _
        rw [hRows, List.filter_append]
        simp [row, ownKeys]
      · have hThere : apiKeys.get id = some row := by
          rw [Table.get_insert hInsert, if_pos rfl]
        unfold Same
        rw [getKey_calm hMember, getKey_calm hMember, hGet]
        show ¬(match apiKeys.get id with
          | none => _
          | some k => _) = _
        rw [hThere]
        simp [row]
  | some k =>
      refine ⟨{ db with apiKeys := db.apiKeys.keep (·.id != id) },
        ⟨rfl, ?_, rfl, rfl, rfl, rfl, rfl⟩, ?_⟩
      · show (db.apiKeys.rows.filter (·.id != id)).filter _ = _
        rw [List.filter_filter]
        refine List.filter_congr fun x hx => ?_
        by_cases hOwn : (x.ownerUserId == p.userId) = true
        · have hId := hOther x (List.mem_filter.mpr ⟨hx, hOwn⟩)
          simp [hOwn, hId]
        · simp [hOwn]
      · have hGone : (db.apiKeys.keep (·.id != id)).get id = none := by
          refine List.find?_eq_none.mpr fun x hx hId => ?_
          have hKept := (List.mem_filter.mp hx).2
          simp_all
        unfold Same
        rw [getKey_calm hMember, getKey_calm hMember, hGet]
        show ¬(match (db.apiKeys.keep (·.id != id)).get id with
          | none => _
          | some k => _) = _
        rw [hGone]
        simp [hForeign k hGet]

end

/-! ### What a read tells -/

/-- A member's read gives the same answer over all that is others' exactly where it is
a read of what is theirs. -/
theorem member_reads_iff (state : AppState) {p : Principal} (hMember : p.isAdmin = false) (db : Db)
    (r : Read) :
    (∀ env db', Alike p.userId db db' → answered state env p r db' = answered state env p r db) ↔
      Scoped p.userId db r := by
  constructor
  · intro h
    have hSame (h' : Handler Reply) (hRead : handle state p r.request = h')
        (hLeak : ∃ db', Alike p.userId db db' ∧ ¬Same calm db db' h') : False := by
      obtain ⟨db', hAlike, hDiffer⟩ := hLeak
      exact hDiffer (hRead ▸ h calm db' hAlike)
    cases r with
    | keys => trivial
    | usage start stop => trivial
    | users => trivial
    | spend => exact hSame _ rfl (spend_leaks p db)
    | key id =>
        by_contra hOther
        refine hSame _ rfl (key_leaks hMember fun k hk hId => hOther ⟨k, hk, hId⟩)
    | budgets subjectType subjectId =>
        intro t hType
        by_contra hOther
        exact hSame _ rfl (budgets_leak hType (Bool.eq_false_iff.mpr hOther))
  · intro hScoped env db' hAlike
    exact same_scoped state hMember hAlike hScoped

/-- A member, and somebody else's spend. -/
theorem spend_of_others :
    Alike "m".toList {} { spendRollup := [
      { subjectType := .user, subjectId := "x".toList, periodStart := 0, spendMicros := 5 }] } ∧
    answered ssoServer calm ⟨"m".toList, "m".toList, .member, 0⟩ .spend {} ≠
      answered ssoServer calm ⟨"m".toList, "m".toList, .member, 0⟩ .spend { spendRollup := [
        { subjectType := .user, subjectId := "x".toList, periodStart := 0, spendMicros := 5 }] } := by
  refine ⟨⟨rfl, rfl, rfl, rfl, rfl, rfl, rfl⟩, fun h => ?_⟩
  have hRows : ([] : List SpendRow) = [_] := Reply.spend.inj (Except.ok.inj h)
  cases hRows

theorem member_reads_own :
    answered ssoServer calm ⟨"m".toList, "m".toList, .member, 0⟩ .keys { spendRollup := [
      { subjectType := .user, subjectId := "x".toList, periodStart := 0, spendMicros := 5 }] } =
    answered ssoServer calm ⟨"m".toList, "m".toList, .member, 0⟩ .keys {} :=
  (member_reads_iff ssoServer rfl {} .keys).mpr trivial calm _ ⟨rfl, rfl, rfl, rfl, rfl, rfl, rfl⟩

end Gateway.Server
