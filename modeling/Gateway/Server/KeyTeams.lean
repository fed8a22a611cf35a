import Gateway.Server.Asks

/-! The owner and the team of a key: they come from the request that issued it,
and no later request changes them. -/
namespace Gateway.Server

open Json Store Program Handler

/-! ### The keys that are issued -/

def issuing : Query → Bool
  | .store (.createApiKey _) => true
  | _ => false

/-- The queries that issue no key. -/
def Quiet (_ : Seen) (q : Query) : Prop := issuing q = false

instance : Lenient Quiet where
  plain seen q hPlain := by
    unfold Quiet issuing
    split
    · cases hPlain
    · rfl
  ensureModel name := by
    intro seen
    apply wary_store.mpr
    refine ⟨rfl, fun owner => ?_⟩
    cases owner with
    | none => exact wary_fresh rfl fun _ => wary_query.mpr ⟨rfl, fun r => asks_ofExcept r _⟩
    | some owner => exact wary_store.mpr ⟨rfl, fun _ => trivial⟩

/-- What the keys were issued with stays the same. -/
theorem Asks.issues {α : Type} {h : Handler α} (hAsks : Asks Quiet h) :
    h.Keeps Answers fun db db' => db'.issues = db.issues := by
  refine (hAsks []).keeps (R := fun (db db' : Db) => db'.issues = db.issues) (fun _ => rfl)
    (fun _ _ _ hFirst hSecond => hSecond.trans hFirst) ?_
  intro q db a db' hIssuing answered
  cases q with
  | store s =>
      rcases answered.store with ⟨_, _, rfl⟩ | ⟨now, hExecute⟩
      · rfl
      · have hSame : (s.execute now db).2.issues = db.issues :=
          Statement.issues_execute now db (by rintro key rfl; cases hIssuing)
        rwa [hExecute] at hSame
  | _ =>
      obtain ⟨env, hAnswer⟩ := answered
      cases hAnswer
      rfl

/-- A request that was served: to whom, from which database on, and with which
answer. -/
structure AdminCall where
  principal : Principal
  request : Request
  before : Db
  reply : Except Error Reply

/-- What the key of an answer is kept with. -/
def AdminCall.issued (call : AdminCall) : Option Issue :=
  match call.request, call.reply with
  | .createKey _, .ok (.issued _ key) =>
      some { key.issue with scopes := KeyScope.stored key.scopes }
  | _, _ => none

/-- A key is kept with its owner, and with the team of the body. -/
theorem post_createKey (state : AppState) (p : Principal) (body : CreateKeyBody) (db : Db) :
    (createKey state p body).Post (fun r db' =>
      db'.issues = db.issues ++ (AdminCall.mk p (.createKey body) db r).issued.toList ∧
        ∀ i ∈ (AdminCall.mk p (.createKey body) db r).issued,
          i.ownerUserId = keyOwner p body ∧ i.teamId = body.teamId) db := by
  have hNone : ∀ e : Error, db.issues = db.issues ++
      (AdminCall.mk p (.createKey body) db (.error e)).issued.toList ∧
        ∀ i ∈ (AdminCall.mk p (.createKey body) db (.error e)).issued,
          i.ownerUserId = keyOwner p body ∧ i.teamId = body.teamId :=
    fun e => ⟨(List.append_nil _).symm, fun i hi => nomatch hi⟩
  unfold createKey
  refine post_ofExcept hNone fun scopes _ => post_require (hNone _) fun _ =>
    post_fresh fun first => post_fresh fun second => post_fresh fun id => post_now fun now => ?_
  refine post_store hNone fun _ r db' hExecute => ?_
  have hCreate : db.createApiKey (newKey state p body scopes id (first ++ second) now) = (r, db') :=
    hExecute
  unfold Db.createApiKey at hCreate
  split at hCreate
  · cases hCreate
    exact hNone _
  · split at hCreate
    · next apiKeys hInsert =>
        cases hCreate
        refine ⟨?_, fun i hi => ?_⟩
        · exact Table.map_insert hInsert ApiKeyRow.issue
        · cases hi
          exact ⟨rfl, rfl⟩
    · cases hCreate
      exact hNone _

/-! ### Runs -/

/-- Requests and sign-ins in the order they are served, with what was served to
whom. -/
inductive AdminCalls (state : AppState) (start : Db) : List AdminCall → Db → Prop where
  | none : AdminCalls state start [] start
  | request {log : List AdminCall} {c : Credentials} {req : Request} {p : Principal}
      {db db' db'' : Db} {r : Except Error Reply} (earlier : AdminCalls state start log db)
      (who : Runs Answers (fromRequestParts state c) db (.ok p) db')
      (served : Runs Answers (handle state p req) db' r db'') :
      AdminCalls state start (log ++ [⟨p, req, db', r⟩]) db''
  | refused {log : List AdminCall} {c : Credentials} {e : Error} {db db' : Db}
      (earlier : AdminCalls state start log db)
      (who : Runs Answers (fromRequestParts state c) db (.error e) db') :
      AdminCalls state start log db'
  | signIn {log : List AdminCall} {c : Credentials} {s : SignIn} {db db' : Db}
      {r : Except Error Reply} (earlier : AdminCalls state start log db)
      (served : Runs Answers (signIn state c s) db r db') : AdminCalls state start log db'

/-- One request adds the key that it answers with, if any. -/
theorem issues_handle (state : AppState) {p : Principal} {req : Request} {db db' : Db}
    {r : Except Error Reply} (served : Runs Answers (handle state p req) db r db') :
    db'.issues = db.issues ++ (AdminCall.mk p req db r).issued.toList ∧
      ∀ i ∈ (AdminCall.mk p req db r).issued, ∃ body, req = .createKey body ∧
        i.ownerUserId = keyOwner p body ∧ i.teamId = body.teamId := by
  by_cases hCreate : ∃ body, req = .createKey body
  · obtain ⟨body, rfl⟩ := hCreate
    obtain ⟨hIssues, hIssued⟩ := served.of_wp (post_createKey state p body db)
    exact ⟨hIssues, fun i hi => ⟨body, rfl, hIssued i hi⟩⟩
  · have hOther : ∀ body, req ≠ .createKey body := fun body h => hCreate ⟨body, h⟩
    have hNone : (AdminCall.mk p req db r).issued = none := by
      cases req with
      | createKey body => exact absurd rfl (hOther body)
      | _ => rfl
    rw [hNone]
    refine ⟨?_, fun i hi => nomatch hi⟩
    exact ((asks_handle state p hOther : Asks Quiet _).issues.runs served).trans (List.append_nil _).symm

/-- The keys are those of the start and the ones that were issued since, each
with the owner and the team it was issued with. A member's keys are their own,
and have whatever team the request named. -/
theorem team_as_requested (state : AppState) {start db : Db} {log : List AdminCall}
    (run : AdminCalls state start log db) :
    db.issues = start.issues ++ log.flatMap (·.issued.toList) ∧
      ∀ call ∈ log, ∀ i ∈ call.issued, ∃ body, call.request = .createKey body ∧
        i.teamId = body.teamId ∧
        (call.principal.isAdmin = false → i.ownerUserId = call.principal.userId) := by
  induction run with
  | none => exact ⟨(List.append_nil _).symm, fun call hCall => nomatch hCall⟩
  | request _ who served ih =>
      obtain ⟨hKeys, hLog⟩ := ih
      obtain ⟨hIssues, hIssued⟩ := issues_handle state served
      have hWho := (asks_fromRequestParts state _ : Asks Quiet _).issues.runs who
      refine ⟨?_, fun call hCall => ?_⟩
      · rw [hIssues, hWho, hKeys, List.flatMap_append, List.append_assoc, List.flatMap_singleton]
      · rcases List.mem_append.mp hCall with hCall | hCall
        · exact hLog call hCall
        · cases List.mem_singleton.mp hCall
          intro i hi
          obtain ⟨body, hBody, hOwner, hTeam⟩ := hIssued i hi
          exact ⟨body, hBody, hTeam, fun hMember => by simp [hOwner, keyOwner, hMember]⟩
  | refused _ who ih =>
      exact ⟨((asks_fromRequestParts state _ : Asks Quiet _).issues.runs who).trans ih.1, ih.2⟩
  | signIn _ served ih =>
      exact ⟨((asks_signIn state _ _ : Asks Quiet _).issues.runs served).trans ih.1, ih.2⟩

/-! ### A team of others -/

/-- A team with a member who is not the one who signs in. -/
def teamDb : Db where
  users := ⟨[newUser "m".toList "m@b".toList "!sso".toList .member 0], by decide⟩
  sessions := ⟨[⟨"t".toList, "m".toList, 0, 9⟩], by decide⟩
  teams := ⟨[{ id := "g".toList, name := "g".toList, createdAt := 0, updatedAt := 0 }], by decide⟩
  memberships := ⟨[⟨"1".toList, "g".toList, "o".toList, 0⟩], by decide⟩

def outsider : Principal := ⟨"m".toList, "m@b".toList, .member, 9⟩

def teamKey : CreateKeyBody := { teamId := some "g".toList }

/-- What serving the outsider gives. -/
def teamCall : Except Error Reply × Db :=
  (handle ssoServer outsider (.createKey teamKey)).run calm.answer teamDb

theorem team_calls :
    AdminCalls ssoServer teamDb [⟨outsider, .createKey teamKey, teamDb, teamCall.1⟩] teamCall.2 := by
  have hCalm : ∀ q db, Answers q db (calm.answer q db).1 (calm.answer q db).2 :=
    fun _ _ => ⟨calm, rfl⟩
  have hWho : Runs Answers (fromRequestParts ssoServer { sessionCookie := some "t".toList })
      teamDb (.ok outsider) teamDb := run_runs hCalm _ teamDb
  exact .request .none hWho (run_runs hCalm _ teamDb)

/-- The key in the database bears the team of the body. -/
theorem outsider_key :
    teamCall.2.issues = [] ++ [AdminCall.mk outsider (.createKey teamKey) teamDb teamCall.1].flatMap
        (·.issued.toList) ∧
      ∀ call ∈ [AdminCall.mk outsider (.createKey teamKey) teamDb teamCall.1], ∀ i ∈ call.issued,
        ∃ body, call.request = .createKey body ∧ i.teamId = body.teamId ∧
          (call.principal.isAdmin = false → i.ownerUserId = call.principal.userId) :=
  team_as_requested ssoServer team_calls

/-- A member issues a key with a team whose member is somebody else. -/
theorem team_of_others :
    ¬ ∀ (state : AppState) (start db : Db) (log : List AdminCall), AdminCalls state start log db →
      ∀ call ∈ log, call.principal.isAdmin = false → ∀ i ∈ call.issued, ∀ team,
        i.teamId = some team → ∃ m ∈ call.before.memberships.rows,
          m.teamId = team ∧ m.userId = i.ownerUserId := by
  intro h
  obtain ⟨m, hMember, -, hUser⟩ := h ssoServer teamDb _ _ team_calls _ List.mem_cons_self rfl
    ⟨"n".toList, "m".toList, some "g".toList, [.inference]⟩ (by decide +kernel) "g".toList rfl
  cases List.mem_singleton.mp hMember
  exact absurd hUser (by decide)

end Gateway.Server
