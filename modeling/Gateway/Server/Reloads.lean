import Gateway.Server.Admin.Api
import Gateway.Service.RoutingTable

/-! The router's table beside the database while calls change the catalogue.
Each call reads what the router is to be given, and gives it, in steps that those
of other calls come between. -/
namespace Gateway.Server

open Json Store Program Handler Service

structure Site where
  db : Db
  router : DeploymentRouter

/-- What the router is given, as the tables hold it. -/
def listing (db : Db) : List Deployment × List (Str × Str) :=
  (db.catalog.deploymentRecords.map Prod.snd,
    (orderByName (·.name) (db.catalog.aliases.filterMap db.catalog.aliasRecord)).map
      fun a => (a.name, a.target))

/-- The table is built from what the router is given. The fallbacks and the
strategy stay. -/
def given (r : DeploymentRouter) (l : List Deployment × List (Str × Str)) : DeploymentRouter :=
  { r with
    snapshot := Snapshot.build l.1 r.snapshot.fallbacks (fun name => l.2.lookup name)
      r.snapshot.strategy }

theorem given_given (r : DeploymentRouter) (l l' : List Deployment × List (Str × Str)) :
    given (given r l) l' = given r l' := rfl

/-- The requests that change models, aliases, providers or deployments. -/
def Request.changesCatalogue : Request → Bool
  | .createModel _ | .renameModel _ _ | .createDeployment _ | .createDeploymentsBulk _
  | .deleteDeployment _ | .createProvider _ | .updateProvider _ _ | .deleteProvider _
  | .createAlias _ _ | .deleteAlias _ => true
  | _ => false

/-- A call in progress. It owes a reload once it has changed the listing. -/
structure ReloadingCall where
  owes : Bool := false
  rest : Handler Reply

structure Work where
  site : Site
  calls : List ReloadingCall := []

def Site.answered (site : Site) (q : Query) (db : Db) : Site :=
  match q with
  | .outside (.reloadRouter deployments aliases) => ⟨db, given site.router (deployments, aliases)⟩
  | _ => ⟨db, site.router⟩

def Site.owes (site : Site) (owed : Bool) (q : Query) (db : Db) : Bool :=
  match q with
  | .outside (.reloadRouter _ _) => false
  | _ => owed || decide (listing db ≠ listing site.db)

section

variable (state : AppState) (May : Site → ReloadingCall → Prop)

/-- A call starts, has a query answered, or ends. `May` says of a call when it
goes on. -/
inductive Work.Step : Work → Work → Prop where
  | start {site : Site} {before after : List ReloadingCall} {req : Request}
      (changes : req.changesCatalogue = true) (p : Principal) :
      Step ⟨site, before ++ after⟩ ⟨site, before ++ ⟨false, handle state p req⟩ :: after⟩
  | answer {site : Site} {before after : List ReloadingCall} {owed : Bool} {q : Query}
      {next : q.Answer → Handler Reply} {a : q.Answer} {db : Db}
      (may : May site ⟨owed, query q next⟩) (answers : Answers q site.db a db) :
      Step ⟨site, before ++ ⟨owed, query q next⟩ :: after⟩
        ⟨site.answered q db, before ++ ⟨site.owes owed q db, next a⟩ :: after⟩
  | reply {site : Site} {before after : List ReloadingCall} {owed : Bool} {reply : Reply} :
      Step ⟨site, before ++ ⟨owed, done reply⟩ :: after⟩ ⟨site, before ++ after⟩
  | error {site : Site} {before after : List ReloadingCall} {owed : Bool} {e : Error}
      (may : May site ⟨owed, fail e⟩) :
      Step ⟨site, before ++ ⟨owed, fail e⟩ :: after⟩ ⟨site, before ++ after⟩

end

/-- What the router is given is what the tables hold at that moment, and a call
that fails owes no reload. -/
def Punctual (site : Site) (call : ReloadingCall) : Prop :=
  match call.rest with
  | .query (.outside (.reloadRouter deployments aliases)) _ =>
      (deployments, aliases) = listing site.db
  | .fail _ => call.owes = false
  | _ => True

/-! ### A call that succeeds has reloaded -/

section

variable {α β : Type}

/-- However its queries are answered, a program that succeeds owes no reload. -/
def Settles (owed : Bool) (p : Handler α) : Prop :=
  p.wp (fun _ _ => True)
    (fun q _ _ owed' => ∀ deployments aliases,
      q = .outside (.reloadRouter deployments aliases) → owed' = false)
    (fun r owed' => match r with
      | .ok _ => owed' = false
      | .error _ => True) owed

theorem settles_bind {f : α → Handler β} (h : ∀ a owed, Settles owed (f a)) (p : Handler α)
    (owed : Bool) : Settles owed (p >>= f) := by
  induction p generalizing owed with
  | done a => exact h a owed
  | fail e => trivial
  | query q next ih => exact ⟨trivial, fun a owed' _ => ih a owed'⟩

theorem settles_reloadModels (owed : Bool) : Settles owed reloadModels := by
  unfold reloadModels
  refine settles_bind (fun _ owed => settles_bind (fun _ owed => ?_) _ owed) _ owed
  exact ⟨trivial, fun _ _ hReload => hReload _ _ rfl⟩

/-- What a change of the catalogue ends with. -/
theorem settles_reload (reply : β) (owed : Bool) :
    Settles owed (reloadModels >>= fun _ => pure reply) := by
  refine wp_bind.mpr (wp_mono (settles_reloadModels owed) ?_)
  rintro (e | _) owed' hSettled
  · trivial
  · exact hSettled

end

theorem settles_handle (state : AppState) (p : Principal) {req : Request}
    (h : req.changesCatalogue = true) (owed : Bool) : Settles owed (handle state p req) := by
  cases req with
  | createModel name | renameModel id name | createDeploymentsBulk body =>
      iterate 3 (apply settles_bind; intro _ owed)
      exact settles_reload _ owed
  | createDeployment body =>
      iterate 4 (apply settles_bind; intro _ owed)
      exact settles_reload _ owed
  | deleteDeployment id | deleteProvider id | deleteAlias name =>
      iterate 2 (apply settles_bind; intro _ owed)
      exact settles_reload _ owed
  | createProvider body =>
      iterate 3 (apply settles_bind; intro _ owed)
      split
      · trivial
      · iterate 2 (apply settles_bind; intro _ owed)
        exact settles_reload _ owed
  | updateProvider id body =>
      iterate 3 (apply settles_bind; intro _ owed)
      split
      · trivial
      · iterate 1 (apply settles_bind; intro _ owed)
        exact settles_reload _ owed
  | createAlias name target =>
      iterate 9 (apply settles_bind; intro _ owed)
      exact settles_reload _ owed
  | _ => cases h

/-! ### The router and the tables -/

theorem mem_around {before after : List ReloadingCall} {call c : ReloadingCall} :
    c ∈ before ++ call :: after ↔ c = call ∨ c ∈ before ++ after := by
  simp only [List.mem_append, List.mem_cons]
  exact or_left_comm

/-- The router's table is the one of the tables, unless a call owes it. -/
structure Work.Followed (r : DeploymentRouter) (w : Work) : Prop where
  built : ∃ l, w.site.router = given r l
  follows : w.site.router = given r (listing w.site.db) ∨ ∃ call ∈ w.calls, call.owes = true
  settles : ∀ call ∈ w.calls, Settles call.owes call.rest

section

variable {r : DeploymentRouter} {site : Site} {before after : List ReloadingCall}

/-- A call that owes no reload may end. -/
theorem Work.Followed.ended {call : ReloadingCall}
    (h : Work.Followed r ⟨site, before ++ call :: after⟩) (hOwes : call.owes = false) :
    Work.Followed r ⟨site, before ++ after⟩ := by
  refine ⟨h.built, ?_, fun c hc => h.settles c (mem_around.mpr (Or.inr hc))⟩
  rcases h.follows with hFollows | ⟨c, hc, hOwed⟩
  · exact Or.inl hFollows
  · rcases mem_around.mp hc with rfl | hc
    · rw [hOwes] at hOwed
      cases hOwed
    · exact Or.inr ⟨c, hc, hOwed⟩

/-- Other queries than a reload leave the router alone. A call that changes the
listing owes a reload from then on. -/
theorem Work.Followed.answered {owed : Bool} {q : Query} {next : q.Answer → Handler Reply}
    {a : q.Answer} {db : Db} (h : Work.Followed r ⟨site, before ++ ⟨owed, query q next⟩ :: after⟩)
    (hOther : ∀ deployments aliases, q ≠ .outside (.reloadRouter deployments aliases)) :
    Work.Followed r
      ⟨⟨db, site.router⟩, before ++ ⟨owed || decide (listing db ≠ listing site.db), next a⟩ :: after⟩ := by
  refine ⟨h.built, ?_, ?_⟩
  · by_cases hSame : listing db = listing site.db
    · rcases h.follows with hFollows | ⟨c, hc, hOwed⟩
      · exact Or.inl (by rw [hSame]; exact hFollows)
      · rcases mem_around.mp hc with rfl | hc
        · have hStill : owed = true := hOwed
          exact Or.inr ⟨_, mem_around.mpr (Or.inl rfl), by rw [hStill]; rfl⟩
        · exact Or.inr ⟨c, mem_around.mpr (Or.inr hc), hOwed⟩
    · exact Or.inr ⟨_, mem_around.mpr (Or.inl rfl), by simp [hSame]⟩
  · intro c hc
    rcases mem_around.mp hc with rfl | hc
    · exact (h.settles _ (mem_around.mpr (Or.inl rfl))).2 a _
        fun deployments aliases hReload => absurd hReload (hOther deployments aliases)
    · exact h.settles c (mem_around.mpr (Or.inr hc))

/-- A reload that gives what the tables hold. -/
theorem Work.Followed.reloaded {owed : Bool} {l : List Deployment × List (Str × Str)}
    {next : Unit → Handler Reply}
    (h : Work.Followed r
      ⟨site, before ++ ⟨owed, query (Q := Query) (.outside (.reloadRouter l.1 l.2)) next⟩ :: after⟩)
    (hFresh : l = listing site.db) :
    Work.Followed r ⟨⟨site.db, given site.router l⟩, before ++ ⟨false, next ()⟩ :: after⟩ := by
  obtain ⟨old, hBuilt⟩ := h.built
  have hGiven : given site.router l = given r l := by
    have hRouter : site.router = given r old := hBuilt
    rw [hRouter, given_given]
  refine ⟨⟨l, hGiven⟩, Or.inl ?_, ?_⟩
  · show given site.router l = given r (listing site.db)
    rw [hGiven, hFresh]
  · intro c hc
    rcases mem_around.mp hc with rfl | hc
    · exact (h.settles _ (mem_around.mpr (Or.inl rfl))).2 () false fun _ _ _ => rfl
    · exact h.settles c (mem_around.mpr (Or.inr hc))

end

theorem Work.Followed.step {state : AppState} {r : DeploymentRouter} {w w' : Work}
    (h : w.Followed r) (hStep : Work.Step state Punctual w w') : w'.Followed r := by
  cases hStep with
  | @start site before after req changes p =>
      refine ⟨h.built, ?_, ?_⟩
      · rcases h.follows with hFollows | ⟨c, hc, hOwed⟩
        · exact Or.inl hFollows
        · exact Or.inr ⟨c, mem_around.mpr (Or.inr hc), hOwed⟩
      · intro c hc
        rcases mem_around.mp hc with rfl | hc
        · exact settles_handle state p changes false
        · exact h.settles c hc
  | @answer site before after owed q next a db may answers =>
      by_cases hReload : ∃ deployments aliases, q = .outside (.reloadRouter deployments aliases)
      · obtain ⟨deployments, aliases, rfl⟩ := hReload
        obtain ⟨env, hAnswer⟩ := answers
        cases hAnswer
        exact h.reloaded (l := (deployments, aliases)) may
      · have hOther : ∀ deployments aliases, q ≠ .outside (.reloadRouter deployments aliases) :=
          fun deployments aliases hSame => hReload ⟨deployments, aliases, hSame⟩
        have hAfter : Work.Followed r ⟨⟨db, site.router⟩,
            before ++ ⟨owed || decide (listing db ≠ listing site.db), next a⟩ :: after⟩ :=
          h.answered hOther
        unfold Site.answered Site.owes
        split
        · exact absurd rfl (hOther _ _)
        · exact hAfter
  | @reply site before after owed reply =>
      exact h.ended (h.settles _ (mem_around.mpr (Or.inl rfl)))
  | error may => exact h.ended may

theorem followed_run {state : AppState} {r : DeploymentRouter} {w w' : Work} (h : w.Followed r)
    (run : Relation.ReflTransGen (Work.Step state Punctual) w w') : w'.Followed r := by
  induction run with
  | refl => exact h
  | tail _ last ih => exact ih.step last

/-- As long as each reload gives what the tables hold at that moment, and no call
fails that has changed them and not reloaded, the router follows the tables: once
all calls have ended it is built from what they hold. -/
theorem router_follows (state : AppState) {r : DeploymentRouter} {db : Db} {w : Work}
    (hStart : r = given r (listing db))
    (run : Relation.ReflTransGen (Work.Step state Punctual) ⟨⟨db, r⟩, []⟩ w)
    (hEnd : w.calls = []) : w.site.router = given r (listing w.site.db) := by
  have hFirst : Work.Followed r ⟨⟨db, r⟩, []⟩ := ⟨⟨_, hStart⟩, Or.inl hStart, by simp⟩
  rcases (followed_run hFirst run).follows with hFollows | ⟨call, hCall, -⟩
  · exact hFollows
  · rw [hEnd] at hCall
    cases hCall

/-! ### Calls by a schedule -/

section

variable (env : Env)

/-- The `i`-th call goes on by one step. -/
def Work.advance (w : Work) (i : Nat) : Work :=
  match w.calls.drop i with
  | ⟨owed, .query q next⟩ :: after =>
      let (a, db) := env.answer q w.site.db
      ⟨w.site.answered q db, w.calls.take i ++ ⟨w.site.owes owed q db, next a⟩ :: after⟩
  | _ :: after => ⟨w.site, w.calls.take i ++ after⟩
  | [] => w

/-- The calls that go on by the schedule are ones that may. -/
def Work.Allows (May : Site → ReloadingCall → Prop) (w : Work) : List Nat → Prop
  | [] => True
  | i :: rest => (∀ call ∈ (w.calls.drop i).head?, May w.site call) ∧ (w.advance env i).Allows May rest

variable (state : AppState) {env} {May : Site → ReloadingCall → Prop}

theorem Work.step_start (w : Work) {req : Request} (h : req.changesCatalogue = true)
    (p : Principal) :
    Work.Step state May w ⟨w.site, w.calls ++ [⟨false, handle state p req⟩]⟩ := by
  have hStep := @Work.Step.start state May w.site w.calls [] req h p
  rwa [List.append_nil] at hStep

theorem Work.step_advance {w : Work} {i : Nat}
    (h : ∀ call ∈ (w.calls.drop i).head?, May w.site call) :
    Relation.ReflTransGen (Work.Step state May) w (w.advance env i) := by
  obtain ⟨site, calls⟩ := w
  have hCalls : calls = calls.take i ++ calls.drop i := (List.take_append_drop i calls).symm
  unfold Work.advance
  dsimp only at h ⊢
  cases hDrop : calls.drop i with
  | nil => exact .refl
  | cons call after =>
      rw [hDrop] at h hCalls
      have hMay := h call rfl
      obtain ⟨owed, rest⟩ := call
      conv_lhs => rw [hCalls]
      cases rest with
      | done reply => exact .single .reply
      | fail e => exact .single (.error hMay)
      | query q next => exact .single (.answer hMay ⟨env, rfl⟩)

theorem Work.allows_all (w : Work) (schedule : List Nat) :
    w.Allows env (fun _ _ => True) schedule := by
  induction schedule generalizing w with
  | nil => trivial
  | cons i rest ih => exact ⟨fun _ _ => trivial, ih _⟩

theorem Work.run_schedule {w : Work} {schedule : List Nat} (h : w.Allows env May schedule) :
    Relation.ReflTransGen (Work.Step state May) w (schedule.foldl (Work.advance env) w) := by
  induction schedule generalizing w with
  | nil => exact .refl
  | cons i rest ih => exact (Work.step_advance state h.1).trans (ih h.2)

end

def twoUpstreams : Db where
  catalog :=
    { models := [⟨['m'], ['m']⟩]
      providers := [⟨['p'], ['p'], false⟩]
      deployments := [{ id := ['1'], modelId := ['m'], providerId := ['p'], upstreamModel := ['a'] },
        { id := ['2'], modelId := ['m'], providerId := ['p'], upstreamModel := ['b'] }] }

def root : Principal := ⟨['r'], ['r'], .admin, 0⟩

def deletion (id : Id) : ReloadingCall := ⟨false, handle ssoServer root (.deleteDeployment id)⟩

/-- A router with the table of the two upstreams. -/
def loaded : DeploymentRouter :=
  given ⟨Snapshot.build [] (fun _ => none) (fun _ => none) .simple, 1⟩ (listing twoUpstreams)

/-- One deletion alone. -/
theorem deletion_followed :
    (([0, 0, 0, 0, 0].foldl (Work.advance calm)
        ⟨⟨twoUpstreams, loaded⟩, [deletion ['1']]⟩).site.router : DeploymentRouter) =
      given loaded (listing ([0, 0, 0, 0, 0].foldl (Work.advance calm)
        ⟨⟨twoUpstreams, loaded⟩, [deletion ['1']]⟩).site.db) := by
  have hFirst : Work.Step ssoServer Punctual ⟨⟨twoUpstreams, loaded⟩, []⟩
      ⟨⟨twoUpstreams, loaded⟩, [deletion ['1']]⟩ :=
    Work.step_start ssoServer ⟨⟨twoUpstreams, loaded⟩, []⟩ rfl root
  refine router_follows ssoServer rfl (.head hFirst (Work.run_schedule ssoServer ?_)) ?_
  · refine ⟨?_, ?_, ?_, ?_, ?_, trivial⟩ <;> rintro _ ⟨⟩
    · trivial
    · trivial
    · trivial
    · rfl
    · trivial
  · decide +kernel

/-- Two deletions: what the first has read is given to the router after the
second has reloaded, and the router serves a deployment that is gone. -/
theorem stale_reload :
    loaded = given loaded (listing twoUpstreams) ∧
      ∃ w, Relation.ReflTransGen (Work.Step ssoServer fun _ _ => True)
          ⟨⟨twoUpstreams, loaded⟩, []⟩ w ∧ w.calls = [] ∧
        w.site.router ≠ given loaded (listing w.site.db) := by
  refine ⟨rfl, [0, 0, 0, 1, 1, 1, 1, 1, 0, 0].foldl (Work.advance calm)
    ⟨⟨twoUpstreams, loaded⟩, [deletion ['1'], deletion ['2']]⟩, ?_, ?_, ?_⟩
  · have hFirst : Work.Step ssoServer (fun _ _ => True) ⟨⟨twoUpstreams, loaded⟩, []⟩
        ⟨⟨twoUpstreams, loaded⟩, [deletion ['1']]⟩ :=
      Work.step_start ssoServer ⟨⟨twoUpstreams, loaded⟩, []⟩ rfl root
    have hSecond : Work.Step ssoServer (fun _ _ => True)
        ⟨⟨twoUpstreams, loaded⟩, [deletion ['1']]⟩
        ⟨⟨twoUpstreams, loaded⟩, [deletion ['1'], deletion ['2']]⟩ :=
      Work.step_start ssoServer ⟨⟨twoUpstreams, loaded⟩, [deletion ['1']]⟩ rfl root
    exact .head hFirst (.head hSecond (Work.run_schedule ssoServer (Work.allows_all _ _)))
  · decide +kernel
  · intro hSame
    have hModel := congrArg (fun r => (r.snapshot.models ['m']).isSome) hSame
    revert hModel
    decide +kernel

end Gateway.Server
