import Gateway.Interleaving
import Gateway.Server.Admin.Api

/-! Deletions of providers beside creations of deployments. A deletion looks for
live deployments and drops the provider with all its deployments, in two
statements that those of others come between. -/
namespace Gateway.Server

open Json Store Program Handler

/-- The database, and the live deployments that deletions have taken away. -/
structure Upstreams where
  db : Db
  lost : List DeploymentRow := []

/-- The live deployments of a provider. -/
def liveOf (db : Db) (id : Id) : List DeploymentRow :=
  db.catalog.deployments.filter fun d => d.providerId == id && d.deletedAt.isNone

/-- The live deployments that the cascade takes away. -/
def cascaded (env : Env) (db : Db) : Query → List DeploymentRow
  | .store (.dropProvider id) => if env.down (.store (.dropProvider id)) then [] else liveOf db id
  | _ => []

/-- The provider that a deletion has found unused and is about to drop. -/
def foundUnused : (q : Query) → q.Answer → Option Id
  | .store (.providerInUse id), .ok false => some id
  | _, _ => none

abbrev UpstreamCall := Task Query Query.Answer Error Unit (Option Id)

abbrev UpstreamCalls := Crew Query Query.Answer Error Unit Upstreams (Option Id)

def upstreamEffects : Effects Query Query.Answer Env Upstreams (Option Id) where
  answer env _ q s :=
    ((env.answer q s.db).1, ⟨(env.answer q s.db).2, s.lost ++ cascaded env s.db q⟩)
  note env _ q s := foundUnused q (env.answer q s.db).1

def deletionCall (id : Id) : UpstreamCall := ⟨none, deleteProvider id⟩

def creationCall (dep : NewDeployment) : UpstreamCall := ⟨none, discard (createDeployment dep)⟩

/-- The deletions and creations. -/
inductive ChangesUpstreams : UpstreamCall → Prop where
  | deletion (id : Id) : ChangesUpstreams (deletionCall id)
  | creation (dep : NewDeployment) : ChangesUpstreams (creationCall dep)

/-- No deployment is inserted for a provider that a deletion has found unused and
has not dropped yet. -/
def Apart (_ : Env) (w : UpstreamCalls) (_ : Option Id) : Query → Prop
  | .store (.insertDeployment row) => ∀ call ∈ w.tasks, call.notes ≠ some row.providerId
  | _ => True

/-! ### The calls -/

/-- The statements of deletions and creations: a provider is dropped right after
it was found unused. -/
def Upkeep (found : Option Id) : Query → Prop
  | .store (.dropProvider id) => found = some id
  | .store (.insertDeployment _) | .store (.upsertModel _ _) | .store (.upsertProvider _ _) => True
  | .store s => s.writes = false
  | _ => True

/-- However its queries are answered, a program keeps to these statements. -/
def Tidy {α : Type} (found : Option Id) (p : Handler α) : Prop :=
  p.wp Upkeep (fun q _ a found' => found' = foundUnused q a) (fun _ _ => True) found

section

variable {α : Type} {found : Option Id}

theorem tidy_store {s : Statement} {f : s.Result → Handler α} (hOk : Upkeep found (.store s))
    (h : ∀ v, Tidy (foundUnused (.store s) (Except.ok v)) (f v)) : Tidy found (store s >>= f) := by
  refine ⟨hOk, fun a found' hFound => ?_⟩
  subst hFound
  cases a with
  | ok v => exact h v
  | error e => trivial

theorem tidy_fresh {f : Str → Handler α} (h : ∀ id, Tidy none (f id)) :
    Tidy found (fresh >>= f) := by
  refine ⟨trivial, fun id found' hFound => ?_⟩
  subst hFound
  exact h id

theorem tidy_ensureModel (name : Str) {f : ModelRow → Handler α} (h : ∀ m, Tidy none (f m)) :
    Tidy found (ensureModel name >>= f) := by
  unfold ensureModel
  rw [bind_assoc]
  refine tidy_store rfl fun owner => ?_
  cases owner with
  | some owner =>
      dsimp only
      rw [bind_assoc]
      exact tidy_store rfl fun _ => trivial
  | none => exact tidy_fresh fun id => tidy_store trivial h

theorem tidy_ensureProvider (name : Str) {f : ProviderRecord → Handler α}
    (h : ∀ p, Tidy none (f p)) : Tidy found (ensureProvider name >>= f) := by
  show Tidy found (fresh >>= fun id => store (.upsertProvider id name) >>= f)
  exact tidy_fresh fun id => tidy_store trivial h

theorem tidy_createDeployment (dep : NewDeployment) : Tidy found (createDeployment dep) := by
  unfold createDeployment
  refine tidy_ensureModel _ fun model => tidy_ensureProvider _ fun provider => tidy_fresh fun id => ?_
  refine tidy_store trivial fun _ => ?_
  refine tidy_store rfl fun r => ?_
  cases r with
  | some deployment => trivial
  | none => trivial

theorem tidy_discard {p : Handler α} (h : Tidy found p) : Tidy found (discard p) := by
  have hDiscard : discard p = p >>= fun _ => (pure () : Handler Unit) := rfl
  rw [hDiscard]
  refine wp_bind.mpr (wp_mono h ?_)
  rintro (e | a) found' -
  · trivial
  · trivial

theorem tidy_deleteProvider (id : Id) : Tidy found (deleteProvider id) := by
  unfold deleteProvider
  refine tidy_store rfl fun inUse => ?_
  cases inUse with
  | true => trivial
  | false =>
      refine ⟨rfl, fun a _ _ => ?_⟩
      cases a with
      | ok v => trivial
      | error e => trivial

end

theorem ChangesUpstreams.tidy {call : UpstreamCall} (h : ChangesUpstreams call) :
    Tidy call.notes call.rest := by
  cases h with
  | deletion id => exact tidy_deleteProvider id
  | creation dep => exact tidy_discard (tidy_createDeployment dep)

/-! ### Live deployments -/

section

variable {db : Db} {id : Id}

theorem liveOf_eq_nil : liveOf db id = [] ↔ db.catalog.providerInUse id = false := by
  simp [liveOf, Catalog.providerInUse, List.filter_eq_nil_iff]

/-- A provider that is not in use comes into use by an insertion for it only. -/
theorem liveOf_execute (now : Timestamp) {found : Option Id} {s : Statement}
    (hUpkeep : Upkeep found (.store s))
    (hOther : ∀ row, s = .insertDeployment row → row.providerId ≠ id) (h : liveOf db id = []) :
    liveOf (s.execute now db).2 id = [] := by
  cases s with
  | dropProvider i =>
      unfold liveOf at h ⊢
      rw [List.filter_eq_nil_iff] at h ⊢
      exact fun d hd => h d (List.mem_of_mem_filter hd)
  | insertDeployment row =>
      have hProvider := hOther row rfl
      show liveOf { db with catalog := (db.catalog.insertDeployment row).2 } id = []
      unfold Catalog.insertDeployment
      split_ifs
      · exact h
      · exact h
      · unfold liveOf at h ⊢
        simp [h, hProvider]
  | upsertModel i name =>
      show liveOf { db with catalog := (db.catalog.upsertModel i name).2 } id = []
      have hSame : (db.catalog.upsertModel i name).2.deployments = db.catalog.deployments := by
        unfold Catalog.upsertModel
        split
        · rfl
        · split_ifs <;> rfl
      unfold liveOf at h ⊢
      rw [hSame]
      exact h
  | upsertProvider i name =>
      show liveOf (db.upsertProvider i name).2 id = []
      have hSame : (db.upsertProvider i name).2.catalog.deployments = db.catalog.deployments := by
        unfold Db.upsertProvider Catalog.upsertProvider
        cases db.catalog.getProviderByName name with
        | some provider => rfl
        | none =>
            dsimp only
            cases db.catalog.providers.any (·.id == i) <;> rfl
      unfold liveOf at h ⊢
      rw [hSame]
      exact h
  | _ =>
      rw [Statement.execute_of_not_writes now db hUpkeep]
      exact h

end

/-- What is found unused is so at that moment. -/
theorem liveOf_foundUnused {env : Env} {db : Db} {q : Query} {id : Id}
    (h : foundUnused q (env.answer q db).1 = some id) : liveOf (env.answer q db).2 id = [] := by
  cases q with
  | fresh | clock | outside o => cases h
  | store s =>
      cases s with
      | providerInUse i =>
          rcases env.answer_store (.providerInUse i) db with ⟨hDown, -⟩ | ⟨-, hExecute⟩
          · unfold Env.down at hDown
            unfold Env.answer at h
            dsimp only at h hDown
            cases hOutage : env.outage (.providerInUse i) with
            | none => simp [hOutage] at hDown
            | some message =>
                rw [hOutage] at h
                cases h
          · rw [hExecute] at h ⊢
            refine liveOf_eq_nil.mpr ?_
            cases hUse : db.catalog.providerInUse i with
            | true =>
                simp only [Statement.execute, hUse] at h
                cases h
            | false =>
                simp only [Statement.execute, hUse] at h
                cases h
                exact hUse
      | _ => cases h

/-- A provider that a deletion has found unused stays so until it is dropped. -/
theorem liveOf_answered {env : Env} {w : UpstreamCalls} {found : Option Id} {q : Query} {id : Id}
    (hUpkeep : Upkeep found q) (hApart : Apart env w found q)
    (hCall : ∃ call ∈ w.tasks, call.notes = some id) (h : liveOf w.state.db id = []) :
    liveOf (env.answer q w.state.db).2 id = [] := by
  cases q with
  | fresh | clock | outside o => exact h
  | store s =>
      rcases env.answer_store s w.state.db with ⟨-, hSame⟩ | ⟨-, hExecute⟩
      · rw [hSame]
        exact h
      · rw [hExecute]
        refine liveOf_execute env.now hUpkeep (fun row hInsert hProvider => ?_) h
        subst hInsert
        obtain ⟨call, hMem, hNotes⟩ := hCall
        exact hApart call hMem (by rw [hNotes, hProvider])

/-- In any run of deletions of providers and creations of deployments, no deletion
takes a live deployment away, as long as none is inserted for a provider between
a deletion's look for live ones and its drop. -/
theorem deletion_loses_nothing {db : Db} {w : UpstreamCalls}
    (run : Relation.ReflTransGen (Crew.Step upstreamEffects ChangesUpstreams Apart) ⟨⟨db, []⟩, []⟩ w) :
    w.state.lost = [] := by
  refine (Crew.invariant (fun s => s.lost = [])
    (fun s call => Tidy call.notes call.rest ∧ ∀ id, call.notes = some id → liveOf s.db id = [])
    ?_ ?_ ?_ run rfl (by simp)).1
  · intro s call hCall
    refine ⟨hCall.tidy, fun id hId => ?_⟩
    cases hCall <;> cases hId
  · rintro env w found q next may hLost ⟨⟨hUpkeep, hNext⟩, hUnused⟩
    refine ⟨?_, hNext _ _ rfl, fun id hFound => liveOf_foundUnused hFound⟩
    show w.state.lost ++ cascaded env w.state.db q = []
    rw [hLost, List.nil_append]
    unfold cascaded
    split
    · split_ifs
      · rfl
      · exact hUnused _ hUpkeep
    · rfl
  · rintro env w found q next may hLost ⟨⟨hUpkeep, -⟩, -⟩ call hCall ⟨hTidy, hUnused⟩
    exact ⟨hTidy, fun id hId => liveOf_answered hUpkeep may ⟨call, hCall, hId⟩ (hUnused id hId)⟩

def unusedProvider : Db where
  catalog :=
    { models := [⟨['m'], ['m']⟩]
      providers := [⟨['p'], ['p'], false⟩] }

def newUpstream : NewDeployment where
  modelName := ['m']
  providerName := ['p']
  upstreamModel := ['u']
  upstreamFormat := .chat .openaiChat

/-- A deletion alone. -/
theorem unused_dropped :
    ([0, 0].foldl (Crew.advance upstreamEffects calm)
      (Crew.started ⟨⟨unusedProvider, []⟩, []⟩ (deletionCall ['p']))).state.lost = [] := by
  have hAllows : (Crew.started ⟨⟨unusedProvider, []⟩, []⟩ (deletionCall ['p'])).Allows
      upstreamEffects Apart calm [0, 0] := ⟨trivial, trivial, trivial⟩
  exact deletion_loses_nothing (.head (.start _ (.deletion ['p'])) (Crew.run_schedule hAllows))

/-- A deployment is created between the look for live ones and the drop. -/
theorem new_deployment_lost :
    ¬ ∀ (db : Db) (w : UpstreamCalls),
      Relation.ReflTransGen (Crew.Step upstreamEffects ChangesUpstreams fun _ _ _ _ => True)
        ⟨⟨db, []⟩, []⟩ w → w.state.lost = [] := by
  intro h
  have hTasks : ∀ call ∈ [deletionCall ['p'], creationCall newUpstream], ChangesUpstreams call := by
    simp [ChangesUpstreams.deletion, ChangesUpstreams.creation]
  have hLost := h unusedProvider _ ((Crew.run_starts hTasks _).trans
    (Crew.run_schedule (Crew.allows_all calm _ [1, 1, 1, 1, 1, 1, 0, 1, 0])))
  exact absurd hLost (by decide +kernel)

end Gateway.Server
