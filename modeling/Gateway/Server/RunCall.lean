import Gateway.Program
import Gateway.Server.Admission
import Gateway.Server.Budgets
import Gateway.Server.Discovery
import Gateway.Server.Handler
import Gateway.Server.RetryAfter
import Gateway.Server.Tags
import Gateway.Server.TraceContext
import Gateway.Wire.Media.Video

/-! A call of the inference surfaces. What it has to pass before it reaches the
gateway, and what turns it away, whatever else goes on between its queries. -/
namespace Gateway.Server.Inference

open Calendar Json Store Program Wire.Media

/-! ### The handler -/

/-- What an authenticated caller asks for. -/
inductive Call where
  | turn (surface : UpstreamFormat) (body : List UInt8)
  | video (id : Str) (lookup : VideoLookup)

def Call.isTurn : Call → Bool
  | .turn _ _ => true
  | .video _ _ => false

/-- What the gateway is given with a call. -/
structure Context extends RequestCtx where
  traceId : Option Str
  parentSpanId : Option Str
  tags : Option Str

/-- What the handler of a call asks of what is around it. -/
inductive Gate where
  | clock
  | newId
  | store (s : Statement)
  | periodSpend (subjectType : SubjectType) (subjectId : Id) (period : Period) (start : Timestamp)
  | getTeam (id : Id)
  | check (scope : Id) (limits : Limits) (now : Timestamp)
  | tpmExhausted (scope : Id) (limits : Limits) (now : Timestamp)
  | gateway (call : Call) (contentType : Option Str) (ctx : Context)

def Gate.Answer (R : Type) : Gate → Type
  | clock => Timestamp
  | newId => Str
  | store s => Except Error s.Result
  | periodSpend _ _ _ _ => Except Error Micros
  | getTeam _ => Except Error (Option Team)
  | check _ _ _ => RateDecision × ConcurrencyGuard
  | tpmExhausted _ _ _ => Bool × Rat
  | gateway _ _ _ => Except Error R

inductive Refusal where
  | error (e : Error)
  | rateLimited (r : RateLimited)

abbrev Task (R : Type) := Program Gate (Gate.Answer R) Refusal

/-- What of the server's state a call is handled by. -/
structure AppState where
  ratelimitEnabled : Bool
  budgetsEnabled : Bool
  hexSha256 : Str → Str

abbrev Headers := Str → Option Str

/-- The credential, in the header of any vendor. -/
def bearerToken (headers : Headers) : Option Str :=
  match (headers "authorization".toList).bind fun v =>
      if "bearer ".toList.isPrefixOf (toAsciiLowercase v) then some (trim (v.drop 7)) else none with
  | some token => some token
  | none =>
      match headers "x-api-key".toList with
      | some v => some (trim v)
      | none =>
          match headers "x-goog-api-key".toList with
          | some v => some (trim v)
          | none => (headers "x-gateway-key".toList).map trim

section

variable {R : Type}

def ofExcept {α : Type} : Except Error α → Task R α
  | .ok a => done a
  | .error e => fail (.error e)

def store (s : Statement) : Task R s.Result := ask (Gate.store s) >>= ofExcept

/-- A live key with a live owner. -/
def verifyApiKey (hash : Str) : Task R (Option Authenticated) := do
  match ← store (.findApiKey hash) with
  | none => pure none
  | some apiKey =>
      match ← store (.getUser apiKey.ownerUserId) with
      | none => pure none
      | some user => pure (some ⟨user, apiKey⟩)

/-- The limits of a key, or of its owner. -/
def limitsOf (auth : Authenticated) : Limits :=
  resolveLimits
    { id := auth.apiKey.id
      key := ⟨auth.apiKey.rpmLimit, auth.apiKey.tpmLimit, auth.apiKey.maxConcurrent⟩
      user := ⟨auth.user.rpmLimit, auth.user.tpmLimit, auth.user.maxConcurrent⟩ }

/-- The preflight of the limiter. -/
def checkLimits (auth : Authenticated) : Task R Unit := do
  let now ← ask Gate.clock
  let (decision, _) ← ask (Gate.check auth.apiKey.id (limitsOf auth) now)
  if !decision.allowed then fail (.rateLimited ⟨decision.reason, decision.retryAfter⟩)
  else
    let (exhausted, retry) ← ask (Gate.tpmExhausted auth.apiKey.id (limitsOf auth) now)
    if exhausted then fail (.rateLimited ⟨"tpm", retry⟩) else pure ()

def budgetExceeded (b : BudgetRow) (spent : Micros) : Error :=
  .budgetExceeded (b.period.asStr ++ " budget for ".toList ++ b.subjectType.asStr ++
    " exhausted (".toList ++ (toString spent).toList ++ " / ".toList ++
    (toString b.hardLimitMicros).toList ++ " micros)".toList)

def checkBudgets (now : Timestamp) : List BudgetRow → Task R Unit
  | [] => pure ()
  | b :: rest =>
      if !b.enabled || b.action ≠ .block then checkBudgets now rest
      else do
        let spent ← ask (Gate.periodSpend b.subjectType b.subjectId b.period (b.period.bucketStart now))
          >>= ofExcept
        if b.hardLimitMicros ≤ spent then fail (.error (budgetExceeded b spent))
        else checkBudgets now rest

def listBudgets (subject : SubjectType × Id) : Task R (List BudgetRow) :=
  store (.listBudgets subject.1 subject.2)

def teamBudgets (key : ApiKeyRow) : Task R (List BudgetRow) :=
  match key.teamId with
  | some teamId => listBudgets (.team, teamId)
  | none => pure []

/-- The budgets of the key, of its owner and of its team. -/
def enforceBudgets (key : ApiKeyRow) : Task R Unit := do
  let ofKey ← listBudgets (.key, key.id)
  let ofUser ← listBudgets (.user, key.ownerUserId)
  let ofTeam ← teamBudgets key
  let now ← ask Gate.clock
  checkBudgets now (ofKey ++ ofUser ++ ofTeam)

/-- The key's access with its team's, where the team can be read. -/
def effectiveAccess (key : ApiKeyRow) : Task R AccessPolicy :=
  match key.teamId with
  | none => pure key.access
  | some teamId => do
      match ← ask (Gate.getTeam teamId) with
      | .ok (some team) => pure (key.access.merge team.access)
      | _ => pure key.access

def requestId (headers : Headers) : Task R Str :=
  match headers "x-request-id".toList with
  | some id => pure id
  | none => ask Gate.newId

def context (state : AppState) (headers : Headers) (auth : Authenticated) (requestId : Str)
    (access : AccessPolicy) : Context :=
  let trace := traceContext (headers "traceparent".toList) (headers "x-trace-id".toList)
  { requestContext auth.apiKey.id auth.apiKey.ownerUserId auth.apiKey.teamId requestId access
      (state.ratelimitEnabled && decide (0 < (limitsOf auth).tpm)) with
    traceId := trace.1
    parentSpanId := trace.2
    tags := (headers "x-gateway-tags".toList).bind parseTags }

def contentType (headers : Headers) : Call → Option Str
  | .turn (.media _) _ => some ((headers "content-type".toList).getD "application/json".toList)
  | _ => none

/-- A call, from its headers to what the gateway makes of it. -/
def runCall (state : AppState) (headers : Headers) (call : Call) : Task R (Except Error R) :=
  match bearerToken headers with
  | none => fail (.error (.unauthorized "missing bearer credential".toList))
  | some token => do
      match ← verifyApiKey (state.hexSha256 token) with
      | none => fail (.error (.unauthorized "invalid api key".toList))
      | some auth =>
          if !auth.apiKey.hasScope .inference then
            fail (.error (.forbidden "this key lacks the inference scope".toList))
          else
            (if state.ratelimitEnabled then checkLimits auth else pure ())
            (if state.budgetsEnabled && call.isTurn then enforceBudgets auth.apiKey else pure ())
            let id ← requestId headers
            let access ← effectiveAccess auth.apiKey
            let _ ← ask (Gate.store (.markApiKeyUsed auth.apiKey.id))
            ask (Gate.gateway call (contentType headers call) (context state headers auth id access))

end

/-! ### What a call finds -/

/-- The state that a query finds. Anything may have happened since the one before. -/
structure World where
  db : Db
  limiter : Limiter
  now : Timestamp
  id : Str := []
  outage : Option Str := none

def World.reply {α : Type} (w : World) (r : Except Error α) : Except Error α :=
  match w.outage with
  | some message => .error (.storage message)
  | none => r

def World.team (w : World) (id : Id) : Except Error (Option Team) :=
  w.reply (.ok ((w.db.teams.get id).map fun t => ⟨t.access⟩))

/-- The answer that a query finds. The gateway may answer anything. -/
def Gate.Finds {R : Type} (w : World) : (q : Gate) → q.Answer R → Prop
  | .clock, a => a = w.now
  | .newId, a => a = w.id
  | .store s, a => a = w.reply (s.execute w.now w.db).1
  | .periodSpend subjectType subjectId period start, a =>
      a = w.reply (.ok (w.db.periodSpend subjectType subjectId period start))
  | .getTeam id, a => a = w.team id
  | .check scope limits now, a => a = (w.limiter.check scope limits now).1
  | .tpmExhausted scope limits now, a => a = (w.limiter.tpmExhausted scope limits now).1
  | .gateway _ _ _, _ => True

abbrev History := List (Gate × World)

def Answered {R : Type} (q : Gate) (h : History) (a : q.Answer R) (h' : History) : Prop :=
  ∃ w, q.Finds w a ∧ h' = h ++ [(q, w)]

/-- A query of the call found a world like this. -/
def Saw (h : History) (P : World → Prop) : Prop := ∃ e ∈ h, P e.2

def Gate.forwards : Gate → Bool
  | .gateway _ _ _ => true
  | _ => false

/-- Nothing has reached the gateway. -/
def Held (h : History) : Prop := ∀ e ∈ h, e.1.forwards = false

section

variable (state : AppState) (headers : Headers) (call : Call) (h : History)

/-- The credential is that of a live key, with a live owner. -/
structure Verified (auth : Authenticated) : Prop where
  token : ∃ token, bearerToken headers = some token ∧
    Saw h fun w => w.db.findApiKey (state.hexSha256 token) = some auth.apiKey
  owner : Saw h fun w => w.db.getUser auth.apiKey.ownerUserId = some auth.user

def Budgeted (auth : Authenticated) (b : BudgetRow) : Prop :=
  ∃ subject ∈ budgetSubjects auth.apiKey, Saw h fun w => HasBudget w.db subject b

/-- The limiter has let the call in, and had tokens left. -/
def WithinLimits (auth : Authenticated) : Prop :=
  ∃ now, (Saw h fun w => w.now = now) ∧
    (Saw h fun w => (w.limiter.check auth.apiKey.id (limitsOf auth) now).1.1.allowed = true) ∧
      Saw h fun w => (w.limiter.tpmExhausted auth.apiKey.id (limitsOf auth) now).1.1 = false

/-- Every blocking budget that counts for the key had room. -/
def WithinBudgets (auth : Authenticated) : Prop :=
  ∃ now, (Saw h fun w => w.now = now) ∧ ∀ subject ∈ budgetSubjects auth.apiKey, Saw h fun w =>
    ∀ b, HasBudget w.db subject b → b.enabled = true → b.action = .block →
      Saw h fun w' => w'.db.periodSpend b.subjectType b.subjectId b.period
        (b.period.bucketStart now) < b.hardLimitMicros

/-- What a call has passed that reaches the gateway. -/
structure Passed (auth : Authenticated) (ctx : Context) : Prop where
  verified : Verified state headers h auth
  scope : auth.apiKey.hasScope .inference = true
  limits : state.ratelimitEnabled = true → WithinLimits h auth
  budgets : state.budgetsEnabled = true → call.isTurn = true → WithinBudgets h auth
  context : ∃ requestId access, ctx = context state headers auth requestId access ∧
    Saw h fun w => access =
      Gateway.effectiveAccess w.team ⟨auth.apiKey.access, auth.apiKey.teamId⟩

/-- Why a call is turned away. -/
inductive Refused : Refusal → Prop where
  | noCredential (absent : bearerToken headers = none) :
      Refused (.error (.unauthorized "missing bearer credential".toList))
  | noKey {token : Str} (credential : bearerToken headers = some token)
      (found : Saw h fun w => w.db.findApiKey (state.hexSha256 token) = none) :
      Refused (.error (.unauthorized "invalid api key".toList))
  | noOwner {token : Str} {key : ApiKeyRow} (credential : bearerToken headers = some token)
      (found : Saw h fun w => w.db.findApiKey (state.hexSha256 token) = some key)
      (owner : Saw h fun w => w.db.getUser key.ownerUserId = none) :
      Refused (.error (.unauthorized "invalid api key".toList))
  | noScope {auth : Authenticated} (verified : Verified state headers h auth)
      (scope : auth.apiKey.hasScope .inference = false) :
      Refused (.error (.forbidden "this key lacks the inference scope".toList))
  | limited {auth : Authenticated} {now : Timestamp} {d : RateDecision}
      (verified : Verified state headers h auth) (enabled : state.ratelimitEnabled = true)
      (denied : Saw h fun w =>
        (w.limiter.check auth.apiKey.id (limitsOf auth) now).1.1 = d ∧ d.allowed = false) :
      Refused (.rateLimited ⟨d.reason, d.retryAfter⟩)
  | exhausted {auth : Authenticated} {now : Timestamp} {retry : Rat}
      (verified : Verified state headers h auth) (enabled : state.ratelimitEnabled = true)
      (denied : Saw h fun w =>
        (w.limiter.tpmExhausted auth.apiKey.id (limitsOf auth) now).1 = (true, retry)) :
      Refused (.rateLimited ⟨"tpm", retry⟩)
  | spent {auth : Authenticated} {b : BudgetRow} {spent : Micros} {now : Timestamp}
      (verified : Verified state headers h auth) (enabled : state.budgetsEnabled = true)
      (isTurn : call.isTurn = true) (budgeted : Budgeted h auth b) (active : b.enabled = true)
      (blocks : b.action = .block)
      (reached : Saw h fun w => w.db.periodSpend b.subjectType b.subjectId b.period
        (b.period.bucketStart now) = spent ∧ b.hardLimitMicros ≤ spent) :
      Refused (.error (budgetExceeded b spent))
  | storage {message : Str} (down : Saw h fun w => w.outage = some message) :
      Refused (.error (.storage message))

/-- Queries that are let through: to the gateway, the call itself, once, after it has passed. -/
def Allowed : Gate → Prop
  | .gateway c _ ctx => Held h ∧ c = call ∧ ∃ auth, Passed state headers call h auth ctx
  | _ => True

/-- What a call ends with: it has reached the gateway, or was turned away for a reason. -/
def Concluded {R : Type} (r : Except Refusal (Except Error R)) : Prop :=
  match r with
  | .ok _ => ¬ Held h
  | .error refusal => Held h ∧ Refused state headers call h refusal

/-- From where it is, a call goes to the gateway as it may, or is turned away. -/
abbrev Mediated {R : Type} (p : Task R (Except Error R)) : Prop :=
  p.wp (Allowed state headers call) Answered (fun r h => Concluded state headers call h r) h

end

/-! ### What was found stays found -/

section

variable {state : AppState} {headers : Headers} {call : Call} {h h' : History}

theorem Saw.mono {P : World → Prop} (saw : Saw h P) (later : h <+: h') : Saw h' P := by
  obtain ⟨e, he, hP⟩ := saw
  exact ⟨e, later.subset he, hP⟩

theorem Saw.imp {P P' : World → Prop} (saw : Saw h P) (hImp : ∀ w, P w → P' w) : Saw h P' := by
  obtain ⟨e, he, hP⟩ := saw
  exact ⟨e, he, hImp e.2 hP⟩

theorem saw_last {P : World → Prop} {q : Gate} {w : World} (hP : P w) : Saw (h ++ [(q, w)]) P :=
  ⟨(q, w), List.mem_append_right h (List.mem_singleton_self _), hP⟩

theorem Held.snoc (held : Held h) {q : Gate} (w : World) (hStays : q.forwards = false) :
    Held (h ++ [(q, w)]) := by
  intro e he
  rcases List.mem_append.mp he with he | he
  · exact held e he
  · rw [List.mem_singleton.mp he]
    exact hStays

theorem Verified.mono {auth : Authenticated} (verified : Verified state headers h auth)
    (later : h <+: h') : Verified state headers h' auth := by
  obtain ⟨⟨token, hToken, hKey⟩, hOwner⟩ := verified
  exact ⟨⟨token, hToken, hKey.mono later⟩, hOwner.mono later⟩

theorem WithinLimits.mono {auth : Authenticated} (within : WithinLimits h auth) (later : h <+: h') :
    WithinLimits h' auth := by
  obtain ⟨now, hNow, hAllowed, hTokens⟩ := within
  exact ⟨now, hNow.mono later, hAllowed.mono later, hTokens.mono later⟩

theorem WithinBudgets.mono {auth : Authenticated} (within : WithinBudgets h auth)
    (later : h <+: h') : WithinBudgets h' auth := by
  obtain ⟨now, hNow, hRoom⟩ := within
  refine ⟨now, hNow.mono later, fun subject hSubject => ?_⟩
  exact ((hRoom subject hSubject).mono later).imp fun w hAll b hb hActive hBlocks =>
    (hAll b hb hActive hBlocks).mono later

theorem Budgeted.mono {auth : Authenticated} {b : BudgetRow} (budgeted : Budgeted h auth b)
    (later : h <+: h') : Budgeted h' auth b := by
  obtain ⟨subject, hSubject, saw⟩ := budgeted
  exact ⟨subject, hSubject, saw.mono later⟩

/-- All that some subjects had, and nothing else. -/
structure Gathered (h : History) (subjects : List (SubjectType × Id)) (budgets : List BudgetRow) :
    Prop where
  all : ∀ subject ∈ subjects, Saw h fun w => ∀ b, HasBudget w.db subject b → b ∈ budgets
  only : ∀ b ∈ budgets, ∃ subject ∈ subjects, Saw h fun w => HasBudget w.db subject b

theorem Gathered.mono {subjects : List (SubjectType × Id)} {budgets : List BudgetRow}
    (gathered : Gathered h subjects budgets) (later : h <+: h') : Gathered h' subjects budgets := by
  refine ⟨fun subject hSubject => (gathered.all subject hSubject).mono later, fun b hb => ?_⟩
  obtain ⟨subject, hSubject, saw⟩ := gathered.only b hb
  exact ⟨subject, hSubject, saw.mono later⟩

theorem Gathered.append {subjects subjects' : List (SubjectType × Id)}
    {budgets budgets' : List BudgetRow} (first : Gathered h subjects budgets)
    (second : Gathered h subjects' budgets') :
    Gathered h (subjects ++ subjects') (budgets ++ budgets') := by
  constructor
  · intro subject hSubject
    rcases List.mem_append.mp hSubject with hSubject | hSubject
    · exact (first.all subject hSubject).imp fun _ hAll b hb => List.mem_append_left _ (hAll b hb)
    · exact (second.all subject hSubject).imp fun _ hAll b hb => List.mem_append_right _ (hAll b hb)
  · intro b hb
    rcases List.mem_append.mp hb with hb | hb
    · obtain ⟨subject, hSubject, saw⟩ := first.only b hb
      exact ⟨subject, List.mem_append_left _ hSubject, saw⟩
    · obtain ⟨subject, hSubject, saw⟩ := second.only b hb
      exact ⟨subject, List.mem_append_right _ hSubject, saw⟩

/-! ### Rules for its queries -/

variable {R : Type} {α : Type} {may : History → Gate → Prop}
  {post : Except Refusal α → History → Prop}

theorem wp_ask {q : Gate} {f : q.Answer R → Task R α} (hMay : may h q)
    (hNext : ∀ w a, q.Finds w a → (f a).wp may Answered post (h ++ [(q, w)])) :
    ((ask q : Task R (q.Answer R)) >>= f).wp may Answered post h := by
  refine ⟨hMay, ?_⟩
  rintro a h' ⟨w, hFinds, rfl⟩
  exact hNext w a hFinds

/-- A read of the database, which may be down. -/
theorem wp_read {s : Statement} {v : Db → s.Result} {f : s.Result → Task R α}
    (hRead : ∀ now db, (s.execute now db).1 = .ok (v db)) (hMay : may h (.store s))
    (hDown : ∀ w message, w.outage = some message →
      post (.error (.error (.storage message))) (h ++ [(.store s, w)]))
    (hNext : ∀ w, (f (v w.db)).wp may Answered post (h ++ [(.store s, w)])) :
    ((store s : Task R s.Result) >>= f).wp may Answered post h := by
  refine ⟨hMay, ?_⟩
  rintro a h' ⟨w, hFinds, rfl⟩
  have hReply : a = w.reply (.ok (v w.db)) := hRead w.now w.db ▸ hFinds
  subst hReply
  unfold World.reply
  cases hOutage : w.outage with
  | some message => exact hDown w message hOutage
  | none => exact hNext w

end

/-! ### What each part of the handler finds -/

section

variable {state : AppState} {headers : Headers} {call : Call} {h : History} {R : Type}
  {auth : Authenticated}

theorem down {q : Gate} {w : World} {message : Str} (held : Held h) (hStays : q.forwards = false)
    (hOutage : w.outage = some message) :
    Concluded state headers call (h ++ [(q, w)])
      (.error (.error (.storage message)) : Except Refusal (Except Error R)) :=
  ⟨held.snoc w hStays, .storage (saw_last hOutage)⟩

/-- The credential is that of a key, or the call is turned away. -/
theorem mediated_verifyApiKey {token : Str} (hToken : bearerToken headers = some token)
    (held : Held h) {f : Option Authenticated → Task R (Except Error R)}
    (hNone : ∀ h', Held h' →
      Refused state headers call h' (.error (.unauthorized "invalid api key".toList)) →
        Mediated state headers call h' (f none))
    (hSome : ∀ auth h', Held h' → Verified state headers h' auth →
      Mediated state headers call h' (f (some auth))) :
    Mediated state headers call h (verifyApiKey (state.hexSha256 token) >>= f) := by
  unfold verifyApiKey
  rw [bind_assoc]
  refine wp_read (fun _ _ => rfl) trivial (fun w m => down held rfl) fun w => ?_
  have held' := held.snoc w (rfl : (Gate.store (.findApiKey (state.hexSha256 token))).forwards = false)
  cases hKey : w.db.findApiKey (state.hexSha256 token) with
  | none => exact hNone _ held' (.noKey hToken (saw_last hKey))
  | some key =>
      rw [bind_assoc]
      refine wp_read (fun _ _ => rfl) trivial (fun w m => down held' rfl) fun w' => ?_
      have hFound : Saw (h ++ [(.store (.findApiKey (state.hexSha256 token)), w)])
          fun w => w.db.findApiKey (state.hexSha256 token) = some key := saw_last hKey
      have hFound' := hFound.mono (List.prefix_append _ [(.store (.getUser key.ownerUserId), w')])
      cases hOwner : w'.db.getUser key.ownerUserId with
      | none => exact hNone _ (held'.snoc w' rfl) (.noOwner hToken hFound' (saw_last hOwner))
      | some user =>
          exact hSome ⟨user, key⟩ _ (held'.snoc w' rfl) ⟨⟨token, hToken, hFound'⟩, saw_last hOwner⟩

/-- The limiter lets a call in, or it is turned away. -/
theorem mediated_checkLimits (hEnabled : state.ratelimitEnabled = true)
    (verified : Verified state headers h auth) (held : Held h)
    {f : Unit → Task R (Except Error R)}
    (hNext : ∀ h', h <+: h' → Held h' → WithinLimits h' auth →
      Mediated state headers call h' (f ())) :
    Mediated state headers call h (checkLimits auth >>= f) := by
  unfold checkLimits
  rw [bind_assoc]
  refine wp_ask trivial fun w now hNow => ?_
  rw [bind_assoc]
  refine wp_ask trivial fun w' a hCheck => ?_
  have hClock : h <+: h ++ [(.clock, w)] := List.prefix_append _ _
  have hChecked := hClock.trans (List.prefix_append _
    [(.check auth.apiKey.id (limitsOf auth) now, w')])
  have held' : Held (h ++ [(.clock, w)] ++ [(.check auth.apiKey.id (limitsOf auth) now, w')]) :=
    (held.snoc w rfl).snoc w' rfl
  obtain ⟨⟨allowed, retryAfter, reason⟩, guard⟩ := a
  have hDecision : (w'.limiter.check auth.apiKey.id (limitsOf auth) now).1.1 =
    ⟨allowed, retryAfter, reason⟩ := (congrArg Prod.fst hCheck).symm
  cases allowed with
  | false =>
      exact ⟨held', .limited (verified.mono hChecked) hEnabled (saw_last ⟨hDecision, rfl⟩)⟩
  | true =>
      refine ⟨trivial, ?_⟩
      rintro ⟨exhausted, retry⟩ h' ⟨w'', hTokens, rfl⟩
      have hLast := List.prefix_append
        (h ++ [(.clock, w)] ++ [(.check auth.apiKey.id (limitsOf auth) now, w')])
        [(.tpmExhausted auth.apiKey.id (limitsOf auth) now, w'')]
      cases exhausted with
      | true =>
          exact ⟨held'.snoc w'' rfl, .exhausted (verified.mono (hChecked.trans hLast)) hEnabled
            (saw_last (Eq.symm hTokens))⟩
      | false =>
          refine hNext _ (hChecked.trans hLast) (held'.snoc w'' rfl) ⟨now, ?_, ?_, ?_⟩
          · exact (saw_last (hNow : now = w.now).symm).mono ((List.prefix_append _ _).trans hLast)
          · exact (saw_last (congrArg RateDecision.allowed hDecision)).mono hLast
          · exact saw_last (congrArg Prod.fst (Eq.symm hTokens))

/-- Each blocking budget has room, or the call is turned away. -/
theorem mediated_checkBudgets (hEnabled : state.budgetsEnabled = true) (hTurn : call.isTurn = true)
    (now : Timestamp) {f : Unit → Task R (Except Error R)} (budgets : List BudgetRow)
    (verified : Verified state headers h auth) (held : Held h)
    (hBudgets : ∀ b ∈ budgets, Budgeted h auth b)
    (hNext : ∀ h', h <+: h' → Held h' → (∀ b ∈ budgets, b.enabled = true → b.action = .block →
      Saw h' fun w => w.db.periodSpend b.subjectType b.subjectId b.period
        (b.period.bucketStart now) < b.hardLimitMicros) →
      Mediated state headers call h' (f ())) :
    Mediated state headers call h (checkBudgets now budgets >>= f) := by
  induction budgets generalizing h with
  | nil => exact hNext h (List.prefix_refl h) held (by simp)
  | cons b rest ih =>
      have hRest : ∀ b ∈ rest, Budgeted h auth b := fun b hb => hBudgets b (List.mem_cons_of_mem _ hb)
      unfold checkBudgets
      split
      · next hSkip =>
          refine ih verified held hRest fun h' later held' hRoom => hNext h' later held' ?_
          intro b' hb' hActive hBlocks
          rcases List.mem_cons.mp hb' with rfl | hb'
          · simp [hActive, hBlocks] at hSkip
          · exact hRoom b' hb' hActive hBlocks
      · next hBlocking =>
          obtain ⟨hActive, hBlocks⟩ : b.enabled = true ∧ b.action = .block := by
            simpa using hBlocking
          let q := Gate.periodSpend b.subjectType b.subjectId b.period (b.period.bucketStart now)
          refine ⟨trivial, ?_⟩
          rintro a h' ⟨w, hFinds, rfl⟩
          have later : h <+: h ++ [(q, w)] := List.prefix_append _ _
          have held' : Held (h ++ [(q, w)]) := held.snoc w rfl
          generalize hSpent : w.db.periodSpend b.subjectType b.subjectId b.period
            (b.period.bucketStart now) = spent
          have hReply : a = w.reply (.ok spent) := hSpent ▸ hFinds
          subst hReply
          unfold World.reply
          cases hOutage : w.outage with
          | some message => exact down (R := R) held rfl hOutage
          | none =>
              show Mediated state headers call _ ((if b.hardLimitMicros ≤ spent then _ else _) >>= f)
              split
              · next hReached =>
                  have hBudget := (hBudgets b List.mem_cons_self).mono later
                  exact ⟨held', .spent (verified.mono later) hEnabled hTurn hBudget hActive hBlocks
                    (saw_last ⟨hSpent, hReached⟩)⟩
              · next hRoom =>
                  refine ih (verified.mono later) held' (fun b' hb' => (hRest b' hb').mono later)
                    fun h' later' held'' hRooms => hNext h' (later.trans later') held'' ?_
                  intro b' hb' hActive' hBlocks'
                  rcases List.mem_cons.mp hb' with rfl | hb'
                  · exact (saw_last (hSpent.trans_lt (not_le.mp hRoom))).mono later'
                  · exact hRooms b' hb' hActive' hBlocks'

theorem mediated_listBudgets (held : Held h) (subject : SubjectType × Id)
    {f : List BudgetRow → Task R (Except Error R)}
    (hNext : ∀ budgets h', h <+: h' → Held h' → Gathered h' [subject] budgets →
      Mediated state headers call h' (f budgets)) :
    Mediated state headers call h (listBudgets subject >>= f) := by
  refine wp_read (fun _ _ => rfl) trivial (fun w m => down held rfl) fun w => ?_
  refine hNext _ _ (List.prefix_append _ _) (held.snoc w rfl) ⟨?_, ?_⟩
  · intro subject' hSubject
    rw [List.mem_singleton.mp hSubject]
    exact saw_last fun b => mem_listBudgets.mpr
  · exact fun b hb => ⟨subject, List.mem_singleton_self _, saw_last (mem_listBudgets.mp hb)⟩

theorem mediated_teamBudgets (held : Held h) {key : ApiKeyRow}
    {f : List BudgetRow → Task R (Except Error R)}
    (hNext : ∀ budgets h', h <+: h' → Held h' →
      Gathered h' (key.teamId.map (SubjectType.team, ·)).toList budgets →
        Mediated state headers call h' (f budgets)) :
    Mediated state headers call h (teamBudgets key >>= f) := by
  unfold teamBudgets
  cases hTeam : key.teamId with
  | none =>
      refine hNext [] h (List.prefix_refl h) held ?_
      rw [hTeam]
      exact ⟨by simp, by simp⟩
  | some teamId =>
      refine mediated_listBudgets held (.team, teamId) fun budgets h' later held' gathered => ?_
      refine hNext budgets h' later held' ?_
      rw [hTeam]
      exact gathered

/-- The budgets of the key, of its owner and of its team have room, or the call is turned
away. -/
theorem mediated_enforceBudgets (hEnabled : state.budgetsEnabled = true) (hTurn : call.isTurn = true)
    (verified : Verified state headers h auth) (held : Held h)
    {f : Unit → Task R (Except Error R)}
    (hNext : ∀ h', h <+: h' → Held h' → WithinBudgets h' auth →
      Mediated state headers call h' (f ())) :
    Mediated state headers call h (enforceBudgets auth.apiKey >>= f) := by
  unfold enforceBudgets
  rw [bind_assoc]
  refine mediated_listBudgets held _ fun ofKey h₁ first held₁ hKey => ?_
  rw [bind_assoc]
  refine mediated_listBudgets held₁ _ fun ofUser h₂ second held₂ hUser => ?_
  rw [bind_assoc]
  refine mediated_teamBudgets held₂ fun ofTeam h₃ third held₃ hTeam => ?_
  rw [bind_assoc]
  refine wp_ask trivial fun w now hNow => ?_
  have fourth : h₃ <+: h₃ ++ [(.clock, w)] := List.prefix_append _ _
  have gathered : Gathered (h₃ ++ [(.clock, w)]) (budgetSubjects auth.apiKey)
      (ofKey ++ ofUser ++ ofTeam) :=
    (((hKey.mono second).append hUser).mono third).append hTeam |>.mono fourth
  have later : h <+: h₃ ++ [(.clock, w)] := ((first.trans second).trans third).trans fourth
  refine mediated_checkBudgets hEnabled hTurn now _ (verified.mono later) (held₃.snoc w rfl)
    gathered.only fun h' last held' hRoom => hNext h' (later.trans last) held' ⟨now, ?_, ?_⟩
  · exact (saw_last (hNow : now = w.now).symm).mono last
  · intro subject hSubject
    refine ((gathered.all subject hSubject).mono last).imp fun w hAll b hb hActive hBlocks => ?_
    exact hRoom b (hAll b hb) hActive hBlocks

/-- The access in force is the key's, with that of its team as it was found. -/
theorem mediated_effectiveAccess (verified : Verified state headers h auth) (held : Held h)
    {f : AccessPolicy → Task R (Except Error R)}
    (hNext : ∀ access h', h <+: h' → Held h' → (Saw h' fun w => access =
      Gateway.effectiveAccess w.team ⟨auth.apiKey.access, auth.apiKey.teamId⟩) →
        Mediated state headers call h' (f access)) :
    Mediated state headers call h (effectiveAccess auth.apiKey >>= f) := by
  unfold effectiveAccess
  cases hTeam : auth.apiKey.teamId with
  | none =>
      refine hNext _ h (List.prefix_refl h) held (verified.owner.imp fun w _ => ?_)
      rw [hTeam]
      rfl
  | some teamId =>
      refine ⟨trivial, ?_⟩
      rintro a h' ⟨w, hFinds, rfl⟩
      have hReply : a = w.team teamId := hFinds
      have later : h <+: h ++ [(.getTeam teamId, w)] := List.prefix_append _ _
      have hAccess (access : AccessPolicy)
          (h' : access = Gateway.effectiveAccess w.team ⟨auth.apiKey.access, some teamId⟩) :
          Mediated state headers call (h ++ [(.getTeam teamId, w)]) (f access) :=
        hNext access _ later (held.snoc w rfl) (saw_last (hTeam ▸ h'))
      unfold Gateway.effectiveAccess at hAccess
      simp only [← hReply] at hAccess
      rcases a with e | (_ | team)
      · exact hAccess _ rfl
      · exact hAccess _ rfl
      · exact hAccess _ rfl

theorem mediated_preflight (verified : Verified state headers h auth) (held : Held h)
    {f : Unit → Task R (Except Error R)}
    (hNext : ∀ h', h <+: h' → Held h' → (state.ratelimitEnabled = true → WithinLimits h' auth) →
      Mediated state headers call h' (f ())) :
    Mediated state headers call h
      ((if state.ratelimitEnabled then checkLimits auth else pure ()) >>= f) := by
  cases hEnabled : state.ratelimitEnabled with
  | false => exact hNext h (List.prefix_refl h) held (by simp [hEnabled])
  | true =>
      exact mediated_checkLimits hEnabled verified held fun h' later held' within =>
        hNext h' later held' fun _ => within

theorem mediated_budgets (verified : Verified state headers h auth) (held : Held h)
    {f : Unit → Task R (Except Error R)}
    (hNext : ∀ h', h <+: h' → Held h' →
      (state.budgetsEnabled = true → call.isTurn = true → WithinBudgets h' auth) →
        Mediated state headers call h' (f ())) :
    Mediated state headers call h
      ((if state.budgetsEnabled && call.isTurn then enforceBudgets auth.apiKey else pure ()) >>= f) := by
  cases hEnabled : state.budgetsEnabled && call.isTurn with
  | false =>
      refine hNext h (List.prefix_refl h) held fun hBudgets hTurn => ?_
      rw [hBudgets, hTurn] at hEnabled
      cases hEnabled
  | true =>
      obtain ⟨hBudgets, hTurn⟩ := Bool.and_eq_true_iff.mp hEnabled
      exact mediated_enforceBudgets hBudgets hTurn verified held fun h' later held' within =>
        hNext h' later held' fun _ _ => within

theorem mediated_requestId (held : Held h) {f : Str → Task R (Except Error R)}
    (hNext : ∀ id h', h <+: h' → Held h' → Mediated state headers call h' (f id)) :
    Mediated state headers call h (requestId headers >>= f) := by
  unfold requestId
  cases headers "x-request-id".toList with
  | some id => exact hNext id h (List.prefix_refl h) held
  | none =>
      exact wp_ask trivial fun w id _ => hNext id _ (List.prefix_append _ _) (held.snoc w rfl)

end

/-! ### Nothing else going on -/

/-- The answers in a state that stays, where the storage works. -/
def World.answer {R : Type} (gateway : Except Error R) (q : Gate) (w : World) : q.Answer R × World :=
  match q with
  | .clock => (w.now, w)
  | .newId => (w.id, w)
  | .store s => ((s.execute w.now w.db).1, w)
  | .periodSpend subjectType subjectId period start =>
      (.ok (w.db.periodSpend subjectType subjectId period start), w)
  | .getTeam id => (.ok ((w.db.teams.get id).map fun t => ⟨t.access⟩), w)
  | .check scope limits now => ((w.limiter.check scope limits now).1, w)
  | .tpmExhausted scope limits now => ((w.limiter.tpmExhausted scope limits now).1, w)
  | .gateway _ _ _ => (gateway, w)

section

variable {R : Type} {gateway : Except Error R} {w : World}

theorem run_checkBudgets (now : Timestamp) (budgets : List BudgetRow) :
    (checkBudgets now budgets : Task R Unit).run (World.answer gateway) w =
      ((forM budgets (checkBudget w.db now)).mapError Refusal.error, w) := by
  induction budgets with
  | nil => rfl
  | cons b rest ih =>
      rw [List.forM_cons]
      unfold checkBudgets checkBudget
      split
      · exact ih
      · dsimp only
        show (if _ then _ else _ : Task R Unit).run _ _ = _
        split
        · rfl
        · exact ih

/-- Undisturbed, the budgets are checked as they are in one state of the database. -/
theorem run_enforceBudgets (key : ApiKeyRow) :
    (enforceBudgets key : Task R Unit).run (World.answer gateway) w =
      ((Server.enforceBudgets w.db key w.now).mapError Refusal.error, w) := by
  unfold enforceBudgets teamBudgets Server.enforceBudgets
  cases key.teamId with
  | none => exact run_checkBudgets w.now _
  | some teamId => exact run_checkBudgets w.now _

end

end Gateway.Server.Inference
