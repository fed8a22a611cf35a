import Gateway.Program
import Gateway.Store.Statements

/-! Handlers of the admin API as programs: they ask the database, the clock and
the services around the gateway, and each answer may come after other handlers
have been at work. -/
namespace Gateway.Server

open Json Store Program

/-! ### What a handler asks -/

structure SsoUser where
  email : Str
  session : Option Str := none

structure HealthReport where
  deploymentId : Id
  check : Str
  healthy : Bool
  status : Option Nat := none
  latencyMs : Nat := 0
  detail : Option Str := none

/-- Which captured turns are exported. -/
structure CaptureFilter where
  start : Option Timestamp := none
  stop : Option Timestamp := none
  models : List Str := []
  apiKeyIds : List Id := []
  tags : List (Str × Str) := []
  redaction : Option Str := none

/-- The services around the gateway, and the parts of its process that are
neither the database nor the handlers. -/
inductive Outside where
  | ssoStart (email : Str) (turnstileToken : Option Str)
  | ssoCode (email code : Str)
  | ssoVerify (token : Str)
  | ssoIntrospect (session : Str)
  | ssoLogout (session : Str)
  | ssoInvite (email : Str)
  | checkDeployments (deployments : List (Id × Deployment))
  | probeDeployment (id : Id) (deployment : Deployment)
  | discoverModels (provider : ProviderRecord) (format : UpstreamFormat)
  | reloadRouter (deployments : List Deployment) (aliases : List (Str × Str))
  | capturePolicy
  | captures
  | applyPolicy (policy : CapturePolicy)
  | exportTurns (filter : CaptureFilter)
  | forgetTurns (keys : List Id)
  | applyLevel (level : LogLevel)
  | resetLevel

def Outside.Result : Outside → Type
  | ssoStart _ _ => Except Error (Option Str × Option Str)
  | ssoCode _ _ | ssoVerify _ | ssoIntrospect _ => Except Error SsoUser
  | ssoLogout _ | ssoInvite _ | applyLevel _ | resetLevel => Except Error Unit
  | checkDeployments _ => List HealthReport
  | probeDeployment _ _ => HealthReport
  | discoverModels _ _ => Except Error (List Str)
  | capturePolicy => CapturePolicy
  | captures => Bool
  | exportTurns _ => Except Error Str
  | forgetTurns _ => Except Error Nat
  | reloadRouter _ _ | applyPolicy _ => Unit

inductive Query where
  /-- A new random id. -/
  | fresh
  | clock
  | store (s : Statement)
  | outside (o : Outside)

def Query.Answer : Query → Type
  | fresh => Str
  | clock => Timestamp
  | store s => Except Error s.Result
  | outside o => o.Result

/-- All that decides an answer besides the database. -/
structure Env where
  id : Str
  now : Timestamp
  outage : Statement → Option Str
  outside : (o : Outside) → o.Result

def Env.answer (env : Env) (q : Query) (db : Db) : q.Answer × Db :=
  match q with
  | .fresh => (env.id, db)
  | .clock => (env.now, db)
  | .store s =>
      match env.outage s with
      | some message => (.error (.storage message), db)
      | none => s.execute env.now db
  | .outside o => (env.outside o, db)

/-- The storage does not answer. -/
def Env.down (env : Env) : Query → Bool
  | .store s => (env.outage s).isSome
  | _ => false

/-- An answer that a query may get, and the database after it. -/
def Answers (q : Query) (db : Db) (a : q.Answer) (db' : Db) : Prop :=
  ∃ env : Env, env.answer q db = (a, db')

abbrev Handler := Program Query Query.Answer Error

namespace Handler

def fresh : Handler Str := ask Query.fresh

def now : Handler Timestamp := ask Query.clock

def outside (o : Outside) : Handler o.Result := ask (Query.outside o)

/-- A statement whose failure the handler looks at. -/
def tryStore (s : Statement) : Handler (Except Error s.Result) := ask (Query.store s)

def ofExcept {α : Type} : Except Error α → Handler α
  | .ok a => done a
  | .error e => fail e

/-- A statement whose failure ends the handler. -/
def store (s : Statement) : Handler s.Result := tryStore s >>= ofExcept

/-- A row that must be there. -/
def found {α : Type} (what : Str) : Option α → Handler α
  | some a => done a
  | none => fail (.notFound what)

def require (c : Bool) (e : Error) : Handler Unit := if c then done () else fail e

end Handler

open Handler

/-! ### Rules for what a handler asks after what it has seen -/

abbrev Seen := List ((q : Query) × q.Answer)

section

variable {ok : Seen → Query → Prop} {seen : Seen} {α : Type}

theorem wary_store {s : Statement} {f : s.Result → Handler α} :
    (store s >>= f).Wary ok seen ↔
      ok seen (.store s) ∧ ∀ v, (f v).Wary ok (seen ++ [⟨.store s, Except.ok v⟩]) := by
  refine wary_query.trans (and_congr_right fun _ => ⟨fun h v => h (.ok v), fun h r => ?_⟩)
  cases r with
  | ok v => exact h v
  | error e => exact wary_fail e

theorem wary_ofExcept {β : Type} {r : Except Error β} {f : β → Handler α}
    (h : ∀ b, r = .ok b → (f b).Wary ok seen) : (ofExcept r >>= f).Wary ok seen := by
  cases r with
  | ok b => exact h b rfl
  | error e => exact wary_fail e

theorem wary_require {c : Bool} {e : Error} {f : Unit → Handler α}
    (h : c = true → (f ()).Wary ok seen) : (require c e >>= f).Wary ok seen := by
  cases c with
  | true => exact h rfl
  | false => exact wary_fail e

theorem wary_found {β : Type} {what : Str} {r : Option β} {f : β → Handler α}
    (h : ∀ b, r = some b → (f b).Wary ok seen) : (found what r >>= f).Wary ok seen := by
  cases r with
  | some b => exact h b rfl
  | none => exact wary_fail _

theorem wary_fresh {f : Str → Handler α} (hOk : ok seen .fresh)
    (h : ∀ id, (f id).Wary ok (seen ++ [⟨.fresh, id⟩])) : (fresh >>= f).Wary ok seen :=
  wary_query.mpr ⟨hOk, h⟩

theorem wary_now {f : Timestamp → Handler α} (hOk : ok seen .clock)
    (h : ∀ t, (f t).Wary ok (seen ++ [⟨.clock, t⟩])) : (now >>= f).Wary ok seen :=
  wary_query.mpr ⟨hOk, h⟩

theorem wary_outside {o : Outside} {f : o.Result → Handler α} (hOk : ok seen (.outside o))
    (h : ∀ r, (f r).Wary ok (seen ++ [⟨.outside o, r⟩])) : (outside o >>= f).Wary ok seen :=
  wary_query.mpr ⟨hOk, h⟩

end

/-! ### Rules for what a handler leaves -/

/-- The storage is down and nothing happens, or the statement is executed. -/
theorem Env.answer_store (env : Env) (s : Statement) (db : Db) :
    (env.down (.store s) = true ∧ (env.answer (.store s) db).2 = db) ∨
      (env.down (.store s) = false ∧ env.answer (.store s) db = s.execute env.now db) := by
  unfold Env.down Env.answer
  dsimp only
  cases env.outage s with
  | some message => exact .inl ⟨rfl, rfl⟩
  | none => exact .inr ⟨rfl, rfl⟩

/-- The storage fails, or the statement is executed. -/
theorem Answers.store {s : Statement} {db db' : Db} {a : Except Error s.Result}
    (h : Answers (.store s) db a db') :
    (∃ e, a = .error e ∧ db' = db) ∨ ∃ now, s.execute now db = (a, db') := by
  obtain ⟨env, hAnswer⟩ := h
  unfold Env.answer at hAnswer
  dsimp only at hAnswer
  split at hAnswer
  · cases hAnswer
    exact .inl ⟨_, rfl, rfl⟩
  · exact .inr ⟨env.now, hAnswer⟩

section

variable {α : Type} {post : Except Error α → Db → Prop} {db : Db}

abbrev Handler.Post (h : Handler α) (post : Except Error α → Db → Prop) (db : Db) : Prop :=
  h.wp (fun _ _ => True) Answers post db

theorem post_store {s : Statement} {f : s.Result → Handler α} (hOutage : ∀ e, post (.error e) db)
    (hExecuted : ∀ now r db', s.execute now db = (r, db') →
      match r with
      | .ok v => (f v).Post post db'
      | .error e => post (.error e) db') :
    (Handler.store s >>= f).Post post db := by
  refine ⟨trivial, fun a db' hAnswer => ?_⟩
  rcases hAnswer.store with ⟨e, rfl, rfl⟩ | ⟨now, hExecute⟩
  · exact hOutage e
  · have h := hExecuted now a db' hExecute
    cases a with
    | ok v => exact h
    | error e => exact h

/-- An answer that has nothing to do with the database. -/
theorem post_fresh {f : Str → Handler α} (h : ∀ id, (f id).Post post db) :
    (Handler.fresh >>= f).Post post db := by
  refine ⟨trivial, fun id db' ⟨env, hAnswer⟩ => ?_⟩
  cases hAnswer
  exact h _

theorem post_now {f : Timestamp → Handler α} (h : ∀ t, (f t).Post post db) :
    (Handler.now >>= f).Post post db := by
  refine ⟨trivial, fun t db' ⟨env, hAnswer⟩ => ?_⟩
  cases hAnswer
  exact h _

theorem post_outside {o : Outside} {f : o.Result → Handler α} (h : ∀ r, (f r).Post post db) :
    (Handler.outside o >>= f).Post post db := by
  refine ⟨trivial, fun r db' ⟨env, hAnswer⟩ => ?_⟩
  cases hAnswer
  exact h _

/-- A statement that only reads. -/
theorem post_read {s : Statement} {f : s.Result → Handler α} (hReads : s.writes = false)
    (hOutage : ∀ e, post (.error e) db)
    (hRead : ∀ now v, (s.execute now db).1 = .ok v → (f v).Post post db) :
    (Handler.store s >>= f).Post post db := by
  refine post_store hOutage fun now r db' hExecute => ?_
  have hSame := Statement.execute_of_not_writes now db hReads
  rw [hExecute] at hSame
  cases hSame
  cases r with
  | ok v => exact hRead now v (by rw [hExecute])
  | error e => exact hOutage e

theorem post_ofExcept {β : Type} {r : Except Error β} {f : β → Handler α}
    (hError : ∀ e, post (.error e) db) (h : ∀ b, r = .ok b → (f b).Post post db) :
    (ofExcept r >>= f).Post post db := by
  cases r with
  | ok b => exact h b rfl
  | error e => exact hError e

theorem post_require {c : Bool} {e : Error} {f : Unit → Handler α} (hError : post (.error e) db)
    (h : c = true → (f ()).Post post db) : (Handler.require c e >>= f).Post post db := by
  cases c with
  | true => exact h rfl
  | false => exact hError

theorem post_found {β : Type} {what : Str} {r : Option β} {f : β → Handler α}
    (hMissing : post (.error (.notFound what)) db) (h : ∀ b, r = some b → (f b).Post post db) :
    (found what r >>= f).Post post db := by
  cases r with
  | some b => exact h b rfl
  | none => exact hMissing

end

/-! ### Operations of the store with several statements -/

structure Authenticated where
  user : UserRow
  apiKey : ApiKeyRow

/-- A live key with a live owner. -/
def verifyApiKey (hash : Str) : Handler (Option Authenticated) := do
  match ← store (.findApiKey hash) with
  | none => pure none
  | some apiKey =>
      match ← store (.getUser apiKey.ownerUserId) with
      | none => pure none
      | some user => pure (some ⟨user, apiKey⟩)

/-- A name is a model's or an alias's. -/
def ensureModel (name : Str) : Handler ModelRow := do
  match ← store (.aliasOwner name) with
  | some owner =>
      let target ← store (.getModel owner)
      fail (.conflict ("\"".toList ++ name ++ "\" is an alias of model \"".toList ++
        (target.map ModelRow.name).getD owner ++ "\"; rename it there or drop the alias".toList))
  | none =>
      let id ← fresh
      store (.upsertModel id name)

def renameModel (id : Id) (newName : Str) : Handler ModelRow := do
  store (.renameModel id newName)
  found "model".toList (← store (.getModel id))

def ensureProvider (name : Str) : Handler ProviderRecord := do
  let id ← fresh
  store (.upsertProvider id name)

def updateProvider (id : Id) (name : Str) (apiBase apiKey : Option Str) (extra : Extra) :
    Handler ProviderRecord := do
  let taken ← store (.providerNameTaken name id)
  require (!taken) (.conflict ("provider \"".toList ++ name ++ "\" already exists".toList))
  store (.writeProvider id name apiBase apiKey extra)
  found "provider".toList (← store (.getProvider id))

def deleteProvider (id : Id) : Handler Unit := do
  let inUse ← store (.providerInUse id)
  require (!inUse) (.conflict "provider still has deployments; delete them first".toList)
  store (.dropProvider id)

/-- What a caller gives to make a deployment. -/
structure NewDeployment where
  modelName : Str
  providerName : Str
  upstreamModel : Str
  upstreamFormat : UpstreamFormat
  weight : Nat := 1
  pricing : Option ModelPrice := none

def createDeployment (dep : NewDeployment) : Handler (Id × Deployment) := do
  let model ← ensureModel dep.modelName
  let provider ← ensureProvider dep.providerName
  let id ← fresh
  store (.insertDeployment
    { id := id
      modelId := model.id
      providerId := provider.id
      upstreamModel := dep.upstreamModel
      upstreamFormat := dep.upstreamFormat
      weight := dep.weight
      pricing := dep.pricing })
  found "deployment".toList (← store (.getDeployment id))

/-- Whether there was no such deployment yet. -/
def seedDeployment (dep : NewDeployment) : Handler Bool := do
  let model ← ensureModel dep.modelName
  let provider ← ensureProvider dep.providerName
  let known : Bool ← store (.deploymentExists model.id provider.id dep.upstreamModel)
  if known then
    pure false
  else
    discard (createDeployment dep)
    pure true

def upsertAlias (name : Str) (modelId : Id) : Handler AliasRecord := do
  store (.upsertAlias name modelId)
  match ← store (.getAlias name) with
  | some a => pure a
  | none => fail (.storage "no rows returned by a query".toList)

/-- The router is given what the tables hold. -/
def reloadModels : Handler Unit := do
  let deployments ← store .listDeployments
  let aliases ← store .listAliases
  outside (.reloadRouter (deployments.map Prod.snd) (aliases.map fun a => (a.name, a.target)))

end Gateway.Server
