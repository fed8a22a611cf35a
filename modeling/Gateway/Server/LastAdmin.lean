import Gateway.Server.Admin.Api

/-! The last admin. The guard of a role change or a deletion counts the admins
before its write, and a re-invitation writes without asking. -/
namespace Gateway.Server

open Json Store Program Handler

def IsAdmin (db : Db) (id : Id) : Prop := ∃ u ∈ db.users.rows, u.id = id ∧ u.isAdmin = true

/-- A caller whose role is read as they call. -/
def Authorised (db : Db) (p : Principal) : Prop := p.isAdmin = true ∧ IsAdmin db p.userId

/-- The calls that manage users. -/
inductive ManagesUsers (state : AppState) (db : Db) : Handler Reply → Prop where
  | create {p : Principal} (caller : Authorised db p) (username password : Str) (role : Option Str) :
      ManagesUsers state db (createUser state p username password role)
  | invite {p : Principal} (caller : Authorised db p) (email : Str) (role : Option Str) :
      ManagesUsers state db (inviteUser state p email role)
  | setRole {p : Principal} (caller : Authorised db p) (id : Id) (role : Str) :
      ManagesUsers state db (setUserRole p id role)
  | delete {p : Principal} (caller : Authorised db p) (id : Id) :
      ManagesUsers state db (deleteUser p id)

def sawUser (id : Id) (r : Except Error (Option UserRow)) : (q : Query) × q.Answer :=
  ⟨.store (.getUser id), r⟩

def counted (n : Nat) : (q : Query) × q.Answer := ⟨.store .countAdmins, Except.ok n⟩

def Unasked (seen : Seen) (id : Id) : Prop := Query.store (.getUser id) ∉ seen.map Sigma.fst

/-- What a call went by still stands: a user it found not to be an admin is none,
and there are as many admins as it counted. A call that did not ask for the
user does not write to the only admin. -/
structure Standing (seen : Seen) (db : Db) (id : Id) : Prop where
  member : ∀ u, sawUser id (.ok (some u)) ∈ seen → u.role ≠ .admin → ¬ IsAdmin db id
  count : ∀ n, counted n ∈ seen → n ≤ db.countAdmins
  unasked : Unasked seen id → IsAdmin db id → 1 < db.countAdmins

/-- Writes that may take an admin away are made while what the call went by
still stands. -/
def Current (seen : Seen) (db : Db) : Query → Prop
  | .store (.setUserRole id role) => role ≠ .admin → Standing seen db id
  | .store (.deleteUser id) => Standing seen db id
  | _ => True

/-- The user was not asked for, or was found to be a member or one of several
admins. -/
def Guarded (seen : Seen) (id : Id) : Prop :=
  Unasked seen id ∨
    ∃ u, sawUser id (.ok (some u)) ∈ seen ∧
      (u.role = .admin → ∃ n, 1 < n ∧ counted n ∈ seen)

/-- The queries of the calls that manage users. -/
def Managing (seen : Seen) : Query → Prop
  | .store (.setUserRole id role) => role ≠ .admin → Guarded seen id
  | .store (.deleteUser id) => Guarded seen id
  | .store (.createUser _) => True
  | .store s => s.writes = false
  | _ => True

/-! ### The calls -/

theorem wary_createUser (state : AppState) (p : Principal) (username password : Str)
    (role : Option Str) : (createUser state p username password role).Wary Managing [] := by
  unfold createUser
  refine wary_authz (wary_require fun _ => wary_ofExcept fun role _ => wary_ofExcept fun hash _ =>
    wary_fresh trivial fun id => wary_now trivial fun now => ?_)
  exact wary_store.mpr ⟨trivial, fun _ => trivial⟩

/-- An invitation does not ask for the user whose role it sets. -/
theorem wary_inviteUser (state : AppState) (p : Principal) (email : Str) (role : Option Str) :
    (inviteUser state p email role).Wary Managing [] := by
  unfold inviteUser
  refine wary_authz (wary_require fun _ => wary_ofExcept fun role _ => wary_require fun _ =>
    wary_outside trivial fun r => wary_ofExcept fun _ _ => wary_store.mpr ⟨rfl, ?_⟩)
  rintro (_ | user)
  · refine wary_fresh trivial fun id => wary_now trivial fun now => ?_
    exact wary_store.mpr ⟨trivial, fun _ => trivial⟩
  · exact wary_store.mpr ⟨fun _ => .inl (by simp [Unasked]), fun _ => trivial⟩

/-- What comes after the guard knows what the guard saw. -/
theorem wary_guardLastAdmin {id : Id} {losingAdmin : Bool} {f : Unit → Handler Reply}
    (hKept : losingAdmin = false → (f ()).Wary Managing [])
    (hLost : ∀ seen, Guarded seen id → (f ()).Wary Managing seen) :
    (guardLastAdmin id losingAdmin >>= f).Wary Managing [] := by
  unfold guardLastAdmin
  cases losingAdmin with
  | false => exact hKept rfl
  | true =>
      simp only [if_true, bind_assoc]
      refine wary_store.mpr ⟨rfl, fun found => wary_found fun target hFound => ?_⟩
      subst hFound
      split
      · rw [bind_assoc]
        refine wary_query.mpr ⟨rfl, fun r => wary_require fun hSeveral => hLost _ ?_⟩
        cases r with
        | error e => simp at hSeveral
        | ok n =>
            refine .inr ⟨target, ?_, fun _ => ⟨n, by simpa using hSeveral, ?_⟩⟩
            · exact List.mem_append_left _ (List.mem_append_right _ (List.mem_singleton_self _))
            · exact List.mem_append_right _ (List.mem_singleton_self _)
      · next hMember =>
          refine hLost _ (.inr ⟨target, ?_, fun h => absurd h hMember⟩)
          exact List.mem_append_right _ (List.mem_singleton_self _)

theorem wary_setUserRole (p : Principal) (id : Id) (role : Str) :
    (setUserRole p id role).Wary Managing [] := by
  unfold setUserRole
  refine wary_authz (wary_ofExcept fun role _ => wary_guardLastAdmin ?_ ?_)
  · intro hAdmin
    refine wary_store.mpr ⟨fun h => ?_, fun _ => trivial⟩
    simp [h] at hAdmin
  · exact fun seen hGuarded => wary_store.mpr ⟨fun _ => hGuarded, fun _ => trivial⟩

theorem wary_deleteUser (p : Principal) (id : Id) : (deleteUser p id).Wary Managing [] := by
  unfold deleteUser
  refine wary_authz (wary_guardLastAdmin (fun h => nomatch h) ?_)
  exact fun seen hGuarded => wary_store.mpr ⟨hGuarded, fun _ => trivial⟩

theorem ManagesUsers.wary {state : AppState} {db : Db} {call : Handler Reply}
    (h : ManagesUsers state db call) : call.Wary Managing [] := by
  cases h with
  | create _ username password role => exact wary_createUser state _ username password role
  | invite _ email role => exact wary_inviteUser state _ email role
  | setRole _ id role => exact wary_setUserRole _ id role
  | delete _ id => exact wary_deleteUser _ id

/-! ### The writes -/

section

variable {db : Db}

theorem countAdmins_createUser (user : UserRow) :
    db.countAdmins ≤ (db.createUser user).2.countAdmins := by
  unfold Db.createUser
  split
  · exact le_rfl
  · split
    · next users hInsert =>
        unfold Table.insert at hInsert
        split at hInsert
        · cases hInsert
        · cases hInsert
          simp [Db.countAdmins, List.countP_append]
    · exact le_rfl

/-- A promotion, or a change of somebody who is no admin, takes none away. -/
theorem countAdmins_setUserRole_of {id : Id} {role : Role}
    (h : role = .admin ∨ ¬ IsAdmin db id) :
    db.countAdmins ≤ (db.setUserRole id role).countAdmins := by
  refine Table.countP_update_of (by exact fun _ => rfl) fun u hu hChanged hAdmin => ?_
  obtain ⟨hId, hLive⟩ : u.id = id ∧ u.live = true := by simpa using hChanged
  rcases h with rfl | hNot
  · simpa [UserRow.isAdmin, UserRow.live] using hLive
  · exact absurd ⟨u, hu, hId, hAdmin⟩ hNot

theorem countAdmins_setUserRole (db : Db) (id : Id) (role : Role) :
    db.countAdmins ≤ (db.setUserRole id role).countAdmins + 1 :=
  Table.countP_update (by exact fun _ => rfl) fun _ hChanged => (by simpa using hChanged : _ ∧ _).1

theorem countAdmins_deleteUser_of {now : Timestamp} {id : Id} (h : ¬ IsAdmin db id) :
    db.countAdmins ≤ (db.deleteUser now id).countAdmins := by
  refine Table.countP_update_of (by exact fun _ => rfl) fun u hu hChanged hAdmin => ?_
  exact absurd ⟨u, hu, (by simpa using hChanged : _ ∧ _).1, hAdmin⟩ h

theorem countAdmins_deleteUser (db : Db) (now : Timestamp) (id : Id) :
    db.countAdmins ≤ (db.deleteUser now id).countAdmins + 1 :=
  Table.countP_update (by exact fun _ => rfl) fun _ hChanged => (by simpa using hChanged : _ ∧ _).1

/-- Guarded by what still stands, a write to an admin leaves another. -/
theorem Standing.several {seen : Seen} {id : Id} (hStanding : Standing seen db id)
    (hGuarded : Guarded seen id) (hAdmin : IsAdmin db id) : 1 < db.countAdmins := by
  rcases hGuarded with hUnasked | ⟨u, hSaw, hCounted⟩
  · exact hStanding.unasked hUnasked hAdmin
  · by_cases hRole : u.role = .admin
    · obtain ⟨n, hSeveral, hMem⟩ := hCounted hRole
      exact hSeveral.trans_le (hStanding.count n hMem)
    · exact absurd hAdmin (hStanding.member u hSaw hRole)

end

/-- One answer leaves an admin. -/
theorem admin_answered {seen : Seen} {q : Query} {db db' : Db} {a : q.Answer}
    (hManaging : Managing seen q) (hCurrent : Current seen db q) (hAdmin : 0 < db.countAdmins)
    (answered : Answers q db a db') : 0 < db'.countAdmins := by
  obtain ⟨env, hAnswer⟩ := answered
  have hAfter : (env.answer q db).2 = db' := congrArg Prod.snd hAnswer
  subst hAfter
  cases q with
  | fresh => exact hAdmin
  | clock => exact hAdmin
  | outside o => exact hAdmin
  | store s =>
      unfold Env.answer
      dsimp only
      cases env.outage s with
      | some message => exact hAdmin
      | none =>
          by_cases hWrites : s.writes = false
          · dsimp only
            rwa [Statement.execute_of_not_writes env.now db hWrites]
          · cases s with
            | createUser user => exact hAdmin.trans_le (countAdmins_createUser user)
            | setUserRole id role =>
                by_cases hKeeps : role = .admin ∨ ¬ IsAdmin db id
                · exact hAdmin.trans_le (countAdmins_setUserRole_of hKeeps)
                · obtain ⟨hRole, hTarget⟩ := not_or.mp hKeeps
                  have hSeveral :=
                    (hCurrent hRole).several (hManaging hRole) (not_not.mp hTarget)
                  have hLess := countAdmins_setUserRole db id role
                  exact show 0 < (db.setUserRole id role).countAdmins by omega
            | deleteUser id =>
                by_cases hTarget : IsAdmin db id
                · have hSeveral := hCurrent.several hManaging hTarget
                  have hLess := countAdmins_deleteUser db env.now id
                  exact show 0 < (db.deleteUser env.now id).countAdmins by omega
                · exact hAdmin.trans_le (countAdmins_deleteUser_of hTarget)
            | _ => exact absurd hManaging hWrites

/-- An admin remains, in every run of calls in any order whose writes are made
while what they went by still stands. -/
theorem admin_remains (state : AppState) {db : Db} (hAdmin : 0 < db.countAdmins)
    {pool : Pool Query Query.Answer Error Reply Db}
    (run : Relation.ReflTransGen (Pool.Step Answers (ManagesUsers state) Current) ⟨db, 0⟩ pool) :
    0 < pool.state.countAdmins := by
  have hStep : ∀ seen db q a db', Managing seen q → Current seen db q → 0 < db.countAdmins →
      Answers q db a db' → 0 < db'.countAdmins :=
    fun _ _ _ _ _ hManaging hCurrent hAdmin answered =>
      admin_answered hManaging hCurrent hAdmin answered
  exact (Pool.invariant (fun _ _ h => h.wary) hStep run hAdmin (by simp)).1

/-! ### Two databases -/

def adminRow (id username : Str) : UserRow := newUser id username "!sso".toList .admin 0

def firstAdmin : UserRow := adminRow "u1".toList "a@b".toList

def secondAdmin : UserRow := adminRow "u2".toList "c@d".toList

def firstPrincipal : Principal := ⟨"u1".toList, "a@b".toList, .admin, 0⟩

def oneAdmin : Db where users := ⟨[firstAdmin], by decide⟩

def twoAdmins : Db where users := ⟨[firstAdmin, secondAdmin], by decide⟩

/-- Of two admins one may be deleted. -/
theorem one_of_two_remains :
    0 < ((deleteUser firstPrincipal "u2".toList).run calm.answer twoAdmins).2.countAdmins := by
  have hCaller : Authorised twoAdmins firstPrincipal :=
    ⟨rfl, firstAdmin, List.mem_cons_self, rfl, rfl⟩
  have hStanding : Standing
      [sawUser "u2".toList (.ok (some secondAdmin)), counted 2] twoAdmins "u2".toList := by
    refine ⟨fun u hSaw hMember => ?_, fun n hCounted => ?_, fun h => absurd h (by simp [Unasked, sawUser])⟩
    · rcases List.mem_cons.mp hSaw with h | h
      · cases eq_of_heq (Sigma.mk.inj_iff.mp h).2
        exact absurd rfl hMember
      · cases congrArg Sigma.fst (List.mem_singleton.mp h)
    · rcases List.mem_cons.mp hCounted with h | h
      · cases congrArg Sigma.fst h
      · cases eq_of_heq (Sigma.mk.inj_iff.mp (List.mem_singleton.mp h)).2
        decide
  have hMeets : (deleteUser firstPrincipal "u2".toList).Meets Current calm.answer [] twoAdmins :=
    ⟨trivial, trivial, hStanding, trivial⟩
  have hRun : Relation.ReflTransGen
      (Pool.Step Answers (ManagesUsers ssoServer) Current) ⟨twoAdmins, 0⟩
      ⟨((deleteUser firstPrincipal "u2".toList).run calm.answer twoAdmins).2, 0⟩ :=
    Pool.alone (fun _ _ => ⟨calm, rfl⟩) (.delete hCaller _) hMeets 0
  exact admin_remains ssoServer (by decide) hRun

/-- The only admin invites themselves, and is a member after that. -/
theorem only_admin_invited :
    ¬ ∀ (state : AppState) (db : Db) (pool : Pool Query Query.Answer Error Reply Db),
      0 < db.countAdmins →
        Relation.ReflTransGen (Pool.Step Answers (ManagesUsers state) fun _ _ _ => True)
          ⟨db, 0⟩ pool → 0 < pool.state.countAdmins := by
  intro h
  have hCaller : Authorised oneAdmin firstPrincipal :=
    ⟨rfl, firstAdmin, List.mem_cons_self, rfl, rfl⟩
  have hMeets : (inviteUser ssoServer firstPrincipal "a@b".toList none).Meets
      (fun _ _ _ => True) calm.answer [] oneAdmin := ⟨trivial, trivial, trivial, trivial⟩
  have hRun : Relation.ReflTransGen
      (Pool.Step Answers (ManagesUsers ssoServer) fun _ _ _ => True) ⟨oneAdmin, 0⟩
      ⟨((inviteUser ssoServer firstPrincipal "a@b".toList none).run calm.answer oneAdmin).2, 0⟩ :=
    Pool.alone (fun _ _ => ⟨calm, rfl⟩) (.invite hCaller _ _) hMeets 0
  exact absurd (h ssoServer oneAdmin _ (by decide) hRun) (by decide +kernel)

end Gateway.Server
