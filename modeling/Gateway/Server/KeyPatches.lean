import Gateway.Interleaving
import Gateway.Server.Admin.Api

/-! PATCH requests to one key. Each reads the key, writes its name, and writes all
of its limits, in steps that those of others come between. -/
namespace Gateway.Server

open Json Store Program Handler

/-! ### What a request asks for -/

/-- What a PATCH may set. -/
structure KeyFields where
  name : Option Str
  rpmLimit : Option Int
  tpmLimit : Option Int
  maxConcurrent : Option Int
  deriving DecidableEq

def keyFields (db : Db) (id : Id) : Option KeyFields :=
  (db.apiKeys.get id).map fun k => ⟨k.name, k.rpmLimit, k.tpmLimit, k.maxConcurrent⟩

/-- The limit that a body names, with null for none. -/
def limitAsked (body : List (Str × Value)) (field : Str) : Option (Option Int) :=
  (lookupField field body).map asI64

def nameAsked (body : List (Str × Value)) : Option (Option Str) :=
  (lookupField "name".toList body).map Value.asStr

def rpmAsked (body : List (Str × Value)) : Option (Option Int) :=
  limitAsked body "rpm_limit".toList

def tpmAsked (body : List (Str × Value)) : Option (Option Int) :=
  limitAsked body "tpm_limit".toList

def maxConcurrentAsked (body : List (Str × Value)) : Option (Option Int) :=
  limitAsked body "max_concurrent".toList

/-- The fields after a statement, as the body asks for them: those it names are
set and the others keep their values. -/
def KeyFields.asked (fields : KeyFields) (body : List (Str × Value)) : Query → KeyFields
  | .store (.renameApiKey _ _) => { fields with name := (nameAsked body).getD fields.name }
  | .store (.updateApiKeyLimits _ _ _ _) =>
      { fields with
        rpmLimit := (rpmAsked body).getD fields.rpmLimit
        tpmLimit := (tpmAsked body).getD fields.tpmLimit
        maxConcurrent := (maxConcurrentAsked body).getD fields.maxConcurrent }
  | _ => fields

/-- An accepted limit is the one asked for. -/
theorem limitField_eq_ok {body : List (Str × Value)} {field : Str} {current limit : Option Int}
    (h : limitField body field current = .ok limit) :
    limit = (limitAsked body field).getD current := by
  unfold limitField at h
  unfold limitAsked
  split at h
  · next hNone =>
      cases h
      rw [hNone]
      rfl
  · next hNull =>
      cases h
      rw [hNull]
      rfl
  · next value _ hValue =>
      rw [hValue]
      split at h
      · next n hInt =>
          split_ifs at h with hSign
          cases h
          exact hInt.symm
      · cases h

theorem nameField_eq_ok {body : List (Str × Value)} {name : Option Str}
    (h : nameField body = .ok (some name)) : nameAsked body = some name := by
  unfold nameField at h
  unfold nameAsked
  split at h
  · cases h
  · next hNull =>
      cases h
      rw [hNull]
      rfl
  · next hName =>
      cases h
      rw [hName]
      rfl
  · cases h

/-! ### Requests in any order -/

/-- What is kept of a request: its body, the row it last read, and whether it has
changed the key. -/
structure PatchNotes where
  body : List (Str × Value)
  read : Option ApiKeyRow := none
  changed : Bool := false

/-- The database beside the fields as the requests have set them so far, each by
the last that named it. -/
structure PatchedKey where
  db : Db
  want : Option KeyFields

def readKey : (q : Query) → q.Answer → Option ApiKeyRow
  | .store (.getApiKey _), .ok key => key
  | _, _ => none

/-- Requests at work on a key. -/
abbrev Patching := Crew Query Query.Answer Error Reply PatchedKey PatchNotes

def patchEffects (id : Id) : Effects Query Query.Answer Env PatchedKey PatchNotes where
  answer env notes q s :=
    ((env.answer q s.db).1,
      { db := (env.answer q s.db).2
        want :=
          if env.down q then s.want else s.want.map fun fields => fields.asked notes.body q })
  note env notes q s :=
    { body := notes.body
      read := (readKey q (env.answer q s.db).1).or notes.read
      changed := notes.changed || decide (keyFields (env.answer q s.db).2 id ≠ keyFields s.db id) }

def patchCall (p : Principal) (id : Id) (body : List (Str × Value)) :
    Task Query Query.Answer Error Reply PatchNotes :=
  ⟨{ body := body }, updateKey p id body⟩

def IsPatch (id : Id) (call : Task Query Query.Answer Error Reply PatchNotes) : Prop :=
  ∃ p body, call = patchCall p id body

/-- The limits that a body does not name are what they were. -/
def LeftAlone (body : List (Str × Value)) (old now : ApiKeyRow) : Prop :=
  (rpmAsked body = none → now.rpmLimit = old.rpmLimit) ∧
    (tpmAsked body = none → now.tpmLimit = old.tpmLimit) ∧
    (maxConcurrentAsked body = none → now.maxConcurrent = old.maxConcurrent)

/-- Limits are written while those that the body leaves out still stand as the
request read them, and the storage answers a request that has changed the key. -/
def Undisturbed (id : Id) (env : Env) (w : Patching) (notes : PatchNotes) (q : Query) : Prop :=
  (notes.changed = true → env.down q = false) ∧
    match q with
    | .store (.updateApiKeyLimits _ _ _ _) =>
        ∀ old ∈ notes.read, ∀ now ∈ w.state.db.apiKeys.get id, LeftAlone notes.body old now
    | _ => True

/-- The key is as the requests have set it, and a request that failed has not
changed it. -/
def PatchesSound (id : Id) (w : Patching) : Prop :=
  keyFields w.state.db id = w.state.want ∧
    ∀ call ∈ w.tasks, ∀ e, call.rest = .fail e → call.notes.changed = false

/-- No request yet. -/
def unpatched (id : Id) (db : Db) : Patching := ⟨⟨db, keyFields db id⟩, []⟩

/-! ### What a request asks of the storage -/

section

variable (id : Id)

/-- The queries of a request that has read the key: its writes are what the body
asks for, over what was read. -/
def Patches (body : List (Str × Value)) (read : Option ApiKeyRow) : Query → Prop
  | .store (.getApiKey i) => i = id
  | .store (.renameApiKey i name) => i = id ∧ nameAsked body = some name
  | .store (.updateApiKeyLimits i rpm tpm maxConcurrent) =>
      i = id ∧ ∃ old ∈ read, rpm = (rpmAsked body).getD old.rpmLimit ∧
        tpm = (tpmAsked body).getD old.tpmLimit ∧
        maxConcurrent = (maxConcurrentAsked body).getD old.maxConcurrent
  | _ => False

def Query.writes : Query → Bool
  | .store s => s.writes
  | _ => false

def failed : (q : Query) → q.Answer → Bool
  | .store _, .error _ => true
  | _, _ => false

/-- What a request has read and whether it has changed the key, after an answer.
No query fails once it has. -/
structure Noted (q : Query) (before : Option ApiKeyRow × Bool) (a : q.Answer)
    (after : Option ApiKeyRow × Bool) : Prop where
  read : after.1 = (readKey q a).or before.1
  quiet : q.writes = false → after.2 = before.2
  unchanged : failed q a = true → after.2 = false

/-- However its queries are answered, a request writes what its body asks for and
fails only with the key unchanged. -/
def Careful (body : List (Str × Value)) (rest : Handler Reply)
    (noted : Option ApiKeyRow × Bool) : Prop :=
  rest.wp (fun noted q => Patches id body noted.1 q) Noted
    (fun r noted => ∀ e, r = .error e → noted.2 = false) noted

end

section

variable {id : Id} {body : List (Str × Value)}

/-- A query whose failure ends the request. -/
theorem careful_store {s : Statement} {f : s.Result → Handler Reply}
    {noted : Option ApiKeyRow × Bool} (hQuery : Patches id body noted.1 (.store s))
    (hNext : ∀ v noted', Noted (.store s) noted (Except.ok v) noted' → Careful id body (f v) noted') :
    Careful id body (store s >>= f) noted := by
  refine ⟨hQuery, fun a noted' hNoted => ?_⟩
  cases a with
  | ok v => exact hNext v noted' hNoted
  | error e => exact fun _ _ => hNoted.unchanged rfl

theorem careful_fail {e : Error} {noted : Option ApiKeyRow × Bool} (h : noted.2 = false) :
    Careful id body (fail e) noted := fun _ _ => h

/-- The last read, after which nothing fails. -/
theorem careful_reply (noted : Option ApiKeyRow × Bool) :
    Careful id body (do
      let updated ← store (.getApiKey id)
      pure (.key (Option.map shown updated))) noted :=
  careful_store rfl fun _ _ _ _ h => nomatch h

/-- All limits are written over the ones that were read. -/
theorem careful_limits {key : ApiKeyRow} {rpm tpm maxConcurrent : Option Int}
    {noted : Option ApiKeyRow × Bool} (hRead : noted.1 = some key)
    (hRpm : limitField body "rpm_limit".toList key.rpmLimit = .ok rpm)
    (hTpm : limitField body "tpm_limit".toList key.tpmLimit = .ok tpm)
    (hMax : limitField body "max_concurrent".toList key.maxConcurrent = .ok maxConcurrent) :
    Careful id body (do
      store (.updateApiKeyLimits id rpm tpm maxConcurrent)
      let updated ← store (.getApiKey id)
      pure (.key (Option.map shown updated))) noted := by
  refine careful_store ⟨rfl, key, hRead, ?_, ?_, ?_⟩ fun _ noted' _ => careful_reply noted'
  · exact limitField_eq_ok hRpm
  · exact limitField_eq_ok hTpm
  · exact limitField_eq_ok hMax

/-- Nothing has been changed when a body is refused. -/
theorem careful_ofExcept {β : Type} {r : Except Error β} {f : β → Handler Reply}
    {noted : Option ApiKeyRow × Bool} (hUnchanged : noted.2 = false)
    (h : ∀ b, r = .ok b → Careful id body (f b) noted) : Careful id body (ofExcept r >>= f) noted := by
  cases r with
  | ok b => exact h b rfl
  | error e => exact careful_fail hUnchanged

theorem careful_updateKey (p : Principal) (id : Id) (body : List (Str × Value)) :
    Careful id body (updateKey p id body) (none, false) := by
  unfold updateKey ownKeyOrAdmin
  simp only [bind_assoc]
  refine careful_store rfl fun key noted hNoted => ?_
  have hUnchanged : noted.2 = false := hNoted.quiet rfl
  have hRead : noted.1 = key := hNoted.read.trans (by cases key <;> rfl)
  cases key with
  | none => exact careful_fail hUnchanged
  | some key =>
      simp only [found, done_bind]
      cases hOwn : (p.isAdmin || key.ownerUserId == p.userId) with
      | false => exact careful_fail hUnchanged
      | true =>
          simp only [require, if_true, done_bind, pure_eq_done]
          refine careful_ofExcept hUnchanged fun rpm hRpm => ?_
          refine careful_ofExcept hUnchanged fun tpm hTpm => ?_
          refine careful_ofExcept hUnchanged fun maxConcurrent hMax => ?_
          refine careful_ofExcept hUnchanged fun name hName => ?_
          cases name with
          | none => exact careful_limits hRead hRpm hTpm hMax
          | some name =>
              refine careful_store ⟨rfl, nameField_eq_ok hName⟩ fun _ noted' hRenamed => ?_
              have hStill : noted'.1 = some key := hRenamed.read.trans hRead
              exact careful_limits hStill hRpm hTpm hMax

end

/-! ### The key after any run -/

section

variable {id : Id} {body : List (Str × Value)}

theorem keyFields_rename (db : Db) (id : Id) (name : Option Str) :
    keyFields (db.renameApiKey id name) id =
      (keyFields db id).map fun fields => { fields with name := name } := by
  unfold keyFields Db.renameApiKey
  dsimp only
  rw [Table.get_update (by exact fun _ => rfl)]
  cases hKey : db.apiKeys.get id with
  | none => rfl
  | some key => simp [(Table.get_eq_some hKey).2]

theorem keyFields_limits (db : Db) (id : Id) (rpm tpm maxConcurrent : Option Int) :
    keyFields (db.updateApiKeyLimits id rpm tpm maxConcurrent) id =
      (keyFields db id).map fun fields =>
        { fields with rpmLimit := rpm, tpmLimit := tpm, maxConcurrent := maxConcurrent } := by
  unfold keyFields Db.updateApiKeyLimits
  dsimp only
  rw [Table.get_update (by exact fun _ => rfl)]
  cases hKey : db.apiKeys.get id with
  | none => rfl
  | some key => simp [(Table.get_eq_some hKey).2]

/-- Over limits that still stand, what is written is what the body asks for. -/
theorem asked_limits {old now : ApiKeyRow} (h : LeftAlone body old now) :
    (rpmAsked body).getD old.rpmLimit = (rpmAsked body).getD now.rpmLimit ∧
      (tpmAsked body).getD old.tpmLimit = (tpmAsked body).getD now.tpmLimit ∧
      (maxConcurrentAsked body).getD old.maxConcurrent =
        (maxConcurrentAsked body).getD now.maxConcurrent := by
  obtain ⟨hRpm, hTpm, hMax⟩ := h
  refine ⟨?_, ?_, ?_⟩
  · cases hAsked : rpmAsked body with
    | none => exact (hRpm hAsked).symm
    | some limit => rfl
  · cases hAsked : tpmAsked body with
    | none => exact (hTpm hAsked).symm
    | some limit => rfl
  · cases hAsked : maxConcurrentAsked body with
    | none => exact (hMax hAsked).symm
    | some limit => rfl

section

variable {env : Env} {w : Patching} {notes : PatchNotes} {q : Query}

/-- One answer sets what the body asks for. -/
theorem keyFields_answered (hPatches : Patches id notes.body notes.read q)
    (hMay : Undisturbed id env w notes q) :
    keyFields (env.answer q w.state.db).2 id =
      if env.down q then keyFields w.state.db id
      else (keyFields w.state.db id).map fun fields => fields.asked notes.body q := by
  cases q with
  | fresh | clock | outside o => exact hPatches.elim
  | store s =>
      rcases env.answer_store s w.state.db with ⟨hDown, hSame⟩ | ⟨hUp, hExecute⟩
      · rw [hDown, hSame]
        rfl
      · rw [hUp, hExecute]
        cases s with
        | getApiKey i =>
            show keyFields w.state.db id = (keyFields w.state.db id).map fun fields => fields
            rw [Option.map_id']
        | renameApiKey i name =>
            obtain ⟨rfl, hName⟩ := hPatches
            refine (keyFields_rename w.state.db i name).trans ?_
            simp [KeyFields.asked, hName]
        | updateApiKeyLimits i rpm tpm maxConcurrent =>
            obtain ⟨rfl, old, hRead, rfl, rfl, rfl⟩ := hPatches
            refine (keyFields_limits w.state.db i _ _ _).trans ?_
            unfold keyFields
            cases hKey : w.state.db.apiKeys.get i with
            | none => rfl
            | some now =>
                obtain ⟨hRpm, hTpm, hMax⟩ := asked_limits (hMay.2 old hRead now hKey)
                simp [KeyFields.asked, hRpm, hTpm, hMax]
        | _ => exact hPatches.elim

/-- The answer to a request is one that its care allows for. -/
theorem noted_answered (hPatches : Patches id notes.body notes.read q)
    (hMay : Undisturbed id env w notes q) :
    Noted q (notes.read, notes.changed) (env.answer q w.state.db).1
      (((patchEffects id).note env notes q w.state).read,
        ((patchEffects id).note env notes q w.state).changed) := by
  cases q with
  | fresh | clock | outside o => exact hPatches.elim
  | store s =>
      unfold patchEffects
      refine ⟨rfl, fun hReads => ?_, fun hFailed => ?_⟩
      · have hSame : (env.answer (.store s) w.state.db).2 = w.state.db := by
          rcases env.answer_store s w.state.db with ⟨-, hSame⟩ | ⟨-, hExecute⟩
          · exact hSame
          · rw [hExecute]
            exact Statement.execute_of_not_writes env.now w.state.db hReads
        simp [hSame]
      · rcases env.answer_store s w.state.db with ⟨hDown, hSame⟩ | ⟨-, hExecute⟩
        · have hUnchanged : notes.changed = false := by
            cases hChanged : notes.changed with
            | false => rfl
            | true => exact absurd (hMay.1 hChanged) (by simp [hDown])
          simp [hSame, hUnchanged]
        · rw [hExecute] at hFailed
          cases s with
          | getApiKey i | renameApiKey i name | updateApiKeyLimits i rpm tpm maxConcurrent =>
              cases hFailed
          | _ => exact hPatches.elim

end

/-- After any run of PATCH requests to a key, each field is as the last request
that named it set it, or as it was at the start, and a request that failed has
left the key alone, as long as limits are written over ones that still stand and
the storage answers a request that has changed the key. -/
theorem patches_sound {id : Id} {db : Db} {w : Patching}
    (run : Relation.ReflTransGen (Crew.Step (patchEffects id) (IsPatch id) (Undisturbed id))
      (unpatched id db) w) : PatchesSound id w := by
  have hKept := Crew.invariant (fun s => keyFields s.db id = s.want)
    (fun _ call => Careful id call.notes.body call.rest (call.notes.read, call.notes.changed))
    (by rintro _ _ ⟨p, body, rfl⟩; exact careful_updateKey p id body)
    (fun env w notes q next may hWant hCareful => by
      obtain ⟨hPatches, hNext⟩ := hCareful
      refine ⟨?_, hNext _ _ (noted_answered hPatches may)⟩
      show keyFields (env.answer q w.state.db).2 id = if env.down q then w.state.want else _
      rw [keyFields_answered hPatches may, hWant])
    (fun _ _ _ _ _ _ _ _ _ _ hCareful => hCareful) run rfl (by simp [unpatched])
  refine ⟨hKept.1, fun call hCall e hFail => ?_⟩
  have hCareful := hKept.2 call hCall
  rw [hFail] at hCareful
  exact hCareful e rfl

end

def limitedKey : ApiKeyRow :=
  { id := ['k'], ownerUserId := ['r'], hash := [], keyPrefix := [], keySuffix := [], scopes := [],
    createdAt := 0, rpmLimit := some 1, tpmLimit := some 1 }

def limitedDb : Db where apiKeys := ⟨[limitedKey], by decide⟩

def keysAdmin : Principal := ⟨['r'], ['r'], .admin, 0⟩

/-- A new value for one of the limits. -/
def limitPatch (field : String) (n : Nat) : Task Query Query.Answer Error Reply PatchNotes :=
  patchCall keysAdmin ['k'] [(field.toList, .number (.posInt n))]

theorem isPatch_limitPatch (field : String) (n : Nat) : IsPatch ['k'] (limitPatch field n) :=
  ⟨_, _, rfl⟩

/-- One request alone. -/
theorem limit_patched :
    PatchesSound ['k'] ([0, 0, 0].foldl (Crew.advance (patchEffects ['k']) calm)
      ((unpatched ['k'] limitedDb).started (limitPatch "rpm_limit" 5))) := by
  have hAllows : ((unpatched ['k'] limitedDb).started (limitPatch "rpm_limit" 5)).Allows
      (patchEffects ['k']) (Undisturbed ['k']) calm [0, 0, 0] := by
    refine ⟨⟨fun _ => rfl, trivial⟩, ⟨fun _ => rfl, ?_⟩, ⟨fun _ => rfl, trivial⟩, trivial⟩
    rintro old ⟨⟩ now ⟨⟩
    exact ⟨fun _ => rfl, fun _ => rfl, fun _ => rfl⟩
  exact patches_sound (.head (.start _ (isPatch_limitPatch _ _)) (Crew.run_schedule hAllows))

/-- Two requests read the key, and the second writes back the limit that the first
has changed in between. -/
theorem limit_written_back :
    ¬ ∀ (id : Id) (db : Db) (w : Patching),
      Relation.ReflTransGen (Crew.Step (patchEffects id) (IsPatch id) fun _ _ _ _ => True)
        (unpatched id db) w → PatchesSound id w := by
  intro h
  have hTasks : ∀ call ∈ [limitPatch "rpm_limit" 5, limitPatch "tpm_limit" 7], IsPatch ['k'] call := by
    simp [isPatch_limitPatch]
  have hSound := h ['k'] limitedDb _ ((Crew.run_starts hTasks _).trans
    (Crew.run_schedule (Crew.allows_all calm _ [0, 1, 0, 1])))
  exact absurd hSound.1 (by decide +kernel)

end Gateway.Server
