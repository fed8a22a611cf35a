import Gateway.Server.Asks
import Gateway.Server.Import
import Gateway.Service.Rename

/-! A name is a model's or an alias's, never both, as long as what the writes go
by still stands when they are made. -/
namespace Gateway.Server

open Json Store Program Handler

/-! ### What the catalogue keeps to -/

section

variable {c c' : Catalog}

theorem valid_congr (hModels : c'.models = c.models) (hAliases : c'.aliases = c.aliases)
    (h : c.Valid) : c'.Valid := by
  constructor
  · rw [hModels]; exact h.modelIds
  · rw [hModels]; exact h.modelNames
  · rw [hAliases]; exact h.aliasNames
  · rw [hModels, hAliases]; exact h.aliasModels
  · rw [hModels, hAliases]; exact h.namesApart

theorem aliasOwner_eq_none {name : Str} :
    c.aliasOwner name = none ↔ ∀ a ∈ c.aliases, a.name ≠ name := by
  unfold Catalog.aliasOwner
  simp

theorem getModelByName_eq_none {name : Str} :
    c.getModelByName name = none ↔ name ∉ c.models.map ModelRow.name := by
  unfold Catalog.getModelByName
  simp

theorem valid_upsertModel (h : c.Valid) {id name : Str} (hFree : c.aliasOwner name = none) :
    (c.upsertModel id name).2.Valid := by
  unfold Catalog.upsertModel
  cases hModel : c.getModelByName name with
  | some model => exact h
  | none =>
      dsimp only
      split
      · exact h
      · next hNew =>
          have hId : id ∉ c.models.map ModelRow.id := by simpa using hNew
          have hName := getModelByName_eq_none.mp hModel
          constructor
          · rw [List.map_append]
            exact h.modelIds.append (List.nodup_singleton _) (by simpa using hId)
          · rw [List.map_append]
            exact h.modelNames.append (List.nodup_singleton _) (by simpa using hName)
          · exact h.aliasNames
          · intro a ha
            rw [List.map_append]
            exact List.mem_append_left _ (h.aliasModels a ha)
          · intro a ha hSame
            rw [List.map_append] at hSame
            rcases List.mem_append.mp hSame with hSame | hSame
            · exact h.namesApart a ha hSame
            · exact aliasOwner_eq_none.mp hFree a ha (List.mem_singleton.mp hSame)

theorem valid_putAlias (h : c.Valid) {name modelId : Str} (hFree : c.getModelByName name = none) :
    (c.putAlias name modelId).2.Valid := by
  have hName := getModelByName_eq_none.mp hFree
  unfold Catalog.putAlias
  split
  · exact h
  · next hSome =>
      have hModel : modelId ∈ c.models.map ModelRow.id := by
        cases hFound : c.getModel modelId with
        | none => exact absurd (by rw [hFound]; rfl) hSome
        | some m =>
            obtain ⟨hMem, rfl⟩ := Catalog.mem_of_getModel hFound
            exact List.mem_map_of_mem hMem
      dsimp only
      unfold Catalog.upsertAlias
      split
      · have hNames : (c.aliases.map fun a => if a.name == name then { a with modelId := modelId }
            else a).map AliasRow.name = c.aliases.map AliasRow.name := by
          rw [List.map_map]
          apply List.map_congr_left
          intro a _
          dsimp only [Function.comp]
          split <;> rfl
        refine ⟨h.modelIds, h.modelNames, by rw [hNames]; exact h.aliasNames, ?_, ?_⟩
        · intro a ha
          obtain ⟨b, hb, rfl⟩ := List.mem_map.mp ha
          split
          · exact hModel
          · exact h.aliasModels b hb
        · intro a ha
          obtain ⟨b, hb, rfl⟩ := List.mem_map.mp ha
          split <;> exact h.namesApart b hb
      · next hNew =>
          refine ⟨h.modelIds, h.modelNames, ?_, ?_, ?_⟩
          · rw [List.map_append]
            exact h.aliasNames.append (List.nodup_singleton _) (by simpa using hNew)
          · intro a ha
            rcases List.mem_append.mp ha with ha | ha
            · exact h.aliasModels a ha
            · rw [List.mem_singleton.mp ha]
              exact hModel
          · intro a ha
            rcases List.mem_append.mp ha with ha | ha
            · exact h.namesApart a ha
            · rw [List.mem_singleton.mp ha]
              exact hName

theorem valid_deleteAlias (h : c.Valid) (name : Str) : (c.deleteAlias name).Valid :=
  ⟨h.modelIds, h.modelNames, h.aliasNames.sublist (List.filter_sublist.map _),
    fun a ha => h.aliasModels a (List.mem_of_mem_filter ha),
    fun a ha => h.namesApart a (List.mem_of_mem_filter ha)⟩

theorem valid_renameModel (h : c.Valid) {id newName : Str}
    (hRename : c.renameModel id newName = .ok c') : c'.Valid := by
  cases hModel : c.getModel id with
  | none =>
      rw [Catalog.renameModel, hModel] at hRename
      cases hRename
  | some current =>
      rcases Catalog.renameModel_cases h hModel hRename with ⟨-, rfl⟩ | ⟨hRenames, rfl⟩
      · exact h
      · exact h.renamed hRenames

end

/-! ### What the writes go by -/

/-- The answer that a name is no alias. -/
def sawNoAlias (name : Str) : (q : Query) × q.Answer :=
  ⟨.store (.aliasOwner name), (Except.ok none : Except Error (Option Id))⟩

/-- A model is made once its name was seen to be no alias. -/
def Checked (seen : Seen) : Query → Prop
  | .store (.upsertModel _ name) => sawNoAlias name ∈ seen
  | _ => True

/-- What a write goes by still stands: no alias has come to bear the name of a
new model since it was looked for, and no model bears that of an alias. -/
def Unclaimed (seen : Seen) (db : Db) : Query → Prop
  | .store (.upsertModel _ name) => sawNoAlias name ∈ seen → db.catalog.aliasOwner name = none
  | .store (.upsertAlias name _) => db.catalog.getModelByName name = none
  | _ => True

instance : Lenient Checked where
  plain seen q hPlain := by
    unfold Checked
    split
    · cases hPlain
    · trivial
  ensureModel name := by
    intro seen
    apply wary_store.mpr
    refine ⟨trivial, fun owner => ?_⟩
    cases owner with
    | none =>
        apply wary_fresh trivial
        intro id
        apply wary_query.mpr
        refine ⟨?_, fun r => asks_ofExcept r _⟩
        exact List.mem_append_left _ (List.mem_append_right _ (List.mem_singleton_self _))
    | some owner => exact wary_store.mpr ⟨trivial, fun _ => trivial⟩

/-- The statements that write names of models or aliases. -/
def naming : Statement → Bool
  | .upsertModel _ _ | .renameModel _ _ | .upsertAlias _ _ | .deleteAlias _ => true
  | _ => false

theorem names_execute (now : Timestamp) (db : Db) {s : Statement} (h : naming s = false) :
    (s.execute now db).2.catalog.models = db.catalog.models ∧
      (s.execute now db).2.catalog.aliases = db.catalog.aliases := by
  cases s with
  | upsertModel id name | renameModel id newName | upsertAlias name modelId | deleteAlias name =>
      cases h
  | createUser user =>
      show (db.createUser user).2.catalog.models = _ ∧ (db.createUser user).2.catalog.aliases = _
      unfold Db.createUser
      split
      · exact ⟨rfl, rfl⟩
      · split <;> exact ⟨rfl, rfl⟩
  | createSession session =>
      show (db.createSession session).2.catalog.models = _ ∧
        (db.createSession session).2.catalog.aliases = _
      unfold Db.createSession
      split <;> exact ⟨rfl, rfl⟩
  | createApiKey key =>
      show (db.createApiKey key).2.catalog.models = _ ∧ (db.createApiKey key).2.catalog.aliases = _
      unfold Db.createApiKey
      split
      · exact ⟨rfl, rfl⟩
      · split <;> exact ⟨rfl, rfl⟩
  | createTeam team =>
      show (db.createTeam team).2.catalog.models = _ ∧ (db.createTeam team).2.catalog.aliases = _
      unfold Db.createTeam
      split <;> exact ⟨rfl, rfl⟩
  | upsertMembership m =>
      show (db.upsertMembership m).2.catalog.models = _ ∧
        (db.upsertMembership m).2.catalog.aliases = _
      unfold Db.upsertMembership
      split
      · exact ⟨rfl, rfl⟩
      · split <;> exact ⟨rfl, rfl⟩
  | upsertBudget budget =>
      show (db.upsertBudget budget).catalog.models = _ ∧ (db.upsertBudget budget).catalog.aliases = _
      unfold Db.upsertBudget
      split <;> exact ⟨rfl, rfl⟩
  | upsertProvider id name =>
      show (db.upsertProvider id name).2.catalog.models = _ ∧
        (db.upsertProvider id name).2.catalog.aliases = _
      unfold Db.upsertProvider Catalog.upsertProvider
      split
      · next hProvider =>
          split at hProvider
          · cases hProvider
            exact ⟨rfl, rfl⟩
          · split at hProvider <;> cases hProvider
            exact ⟨rfl, rfl⟩
      · exact ⟨rfl, rfl⟩
  | writeProvider id name apiBase apiKey extra =>
      show (db.writeProvider id name apiBase apiKey extra).2.catalog.models = _ ∧
        (db.writeProvider id name apiBase apiKey extra).2.catalog.aliases = _
      unfold Db.writeProvider Catalog.writeProvider
      split
      · exact ⟨rfl, rfl⟩
      · next hWritten =>
          split
          · exact ⟨rfl, rfl⟩
          · split at hWritten <;> cases hWritten
            exact ⟨rfl, rfl⟩
  | insertDeployment row =>
      show (db.catalog.insertDeployment row).2.models = _ ∧
        (db.catalog.insertDeployment row).2.aliases = _
      unfold Catalog.insertDeployment
      split
      · exact ⟨rfl, rfl⟩
      · split <;> exact ⟨rfl, rfl⟩
  | recordHealth row =>
      show (db.recordHealth row).2.catalog.models = _ ∧ (db.recordHealth row).2.catalog.aliases = _
      unfold Db.recordHealth
      split
      · exact ⟨rfl, rfl⟩
      · split <;> exact ⟨rfl, rfl⟩
  | _ => exact ⟨rfl, rfl⟩

/-- One answer leaves the catalogue sound. -/
theorem valid_answered {seen : Seen} {q : Query} {db db' : Db} {a : q.Answer}
    (hChecked : Checked seen q) (hUnclaimed : Unclaimed seen db q) (h : db.catalog.Valid)
    (answered : Answers q db a db') : db'.catalog.Valid := by
  cases q with
  | store s =>
      rcases answered.store with ⟨e, -, rfl⟩ | ⟨now, hExecute⟩
      · exact h
      · have hAfter : (s.execute now db).2 = db' := congrArg Prod.snd hExecute
        subst hAfter
        by_cases hNaming : naming s = false
        · obtain ⟨hModels, hAliases⟩ := names_execute now db hNaming
          exact valid_congr hModels hAliases h
        · cases s with
          | upsertModel id name => exact valid_upsertModel h (hUnclaimed hChecked)
          | upsertAlias name modelId => exact valid_putAlias h hUnclaimed
          | deleteAlias name => exact valid_deleteAlias h name
          | renameModel id newName =>
              show (db.renameModel id newName).2.catalog.Valid
              unfold Db.renameModel
              split
              · next hRename => exact valid_renameModel h hRename
              · exact h
          | _ => exact absurd rfl hNaming
  | _ =>
      obtain ⟨env, hAnswer⟩ := answered
      cases hAnswer
      exact h

/-! ### Imports and calls -/

section

variable {ok : Seen → Query → Prop} [Lenient ok]

theorem asks_seedProviders (providers : List ProviderConfig) : Asks ok (seedProviders providers) := by
  induction providers with
  | nil => exact asks_done ()
  | cons pc rest ih =>
      exact .bind (asks_require _ _) fun _ => .bind (asks_ensureProvider _) fun _ =>
        .bind (asks_updateProvider _ _ _ _ _) fun _ => ih

theorem asks_hoist (hoisted : List Str) (dc : DeploymentConfig) : Asks ok (hoist hoisted dc) := by
  unfold hoist
  split
  · exact asks_done hoisted
  · apply Asks.bind (asks_ensureProvider _)
    intro provider
    split
    · exact asks_done hoisted
    · exact .bind (asks_updateProvider _ _ _ _ _) fun _ => asks_done _

theorem asks_hoistAll (hoisted : List Str) (ds : List DeploymentConfig) :
    Asks ok (hoistAll hoisted ds) := by
  induction ds generalizing hoisted with
  | nil => exact asks_done hoisted
  | cons dc rest ih => exact .bind (asks_hoist hoisted dc) fun hoisted => ih hoisted

theorem asks_seedDeployments (modelName : Str) (inserted : Nat) (ds : List DeploymentConfig) :
    Asks ok (seedDeployments modelName inserted ds) := by
  induction ds generalizing inserted with
  | nil => exact asks_done inserted
  | cons dc rest ih => exact .bind (asks_seedDeployment _) fun new => ih _

theorem asks_seedModels (inserted : Nat) (models : List ModelConfig) :
    Asks ok (seedModels inserted models) := by
  induction models generalizing inserted with
  | nil => exact asks_done inserted
  | cons mc rest ih =>
      exact .bind (asks_ensureModel _) fun _ => .bind (asks_seedDeployments _ _ _) fun inserted =>
        ih inserted

theorem asks_writeAliases (modelId : Id) (names : List Str) : Asks ok (writeAliases modelId names) := by
  induction names with
  | nil => exact asks_done ()
  | cons name rest ih => exact .bind (asks_upsertAlias name modelId) fun _ => ih

theorem asks_seedAliases (count : Nat) (models : List ModelConfig) :
    Asks ok (seedAliases count models) := by
  induction models generalizing count with
  | nil => exact asks_done count
  | cons mc rest ih =>
      unfold seedAliases
      split
      · exact ih count
      · exact .bind (asks_ensureModel _) fun model => .bind (asks_writeAliases _ _) fun _ => ih _

theorem asks_runImport (file : ModelsFile) : Asks ok (runImport file) := by
  unfold runImport
  dsimp only
  split
  · exact asks_done none
  · exact .bind (asks_seedProviders _) fun _ => .bind (asks_hoistAll _ _) fun _ =>
      .bind (asks_seedModels _ _) fun _ => .bind (asks_seedAliases _ _) fun _ => asks_done _

theorem asks_createKey (hKey : ∀ seen key, ok seen (.store (.createApiKey key))) (state : AppState)
    (p : Principal) (body : CreateKeyBody) : Asks ok (createKey state p body) :=
  .bind (asks_ofExcept _) fun _ => .bind (asks_require _ _) fun _ => .bind asks_fresh fun _ =>
    .bind asks_fresh fun _ => .bind asks_fresh fun _ => .bind asks_now fun _ =>
      .bind (.bind (asks_ask fun seen => hKey seen _) asks_ofExcept) fun _ => asks_done _

end

/-- Operations of the store, imports, and calls of the admin API. -/
inductive CatalogueWork (state : AppState) (db : Db) : Handler Unit → Prop where
  /-- An operation of one statement. A model is never made in one. -/
  | statement {s : Statement} (h : ∀ id name, s ≠ .upsertModel id name) :
      CatalogueWork state db (discard (store s))
  | ensureModel (name : Str) : CatalogueWork state db (discard (ensureModel name))
  | renameModel (id : Id) (newName : Str) : CatalogueWork state db (discard (renameModel id newName))
  | ensureProvider (name : Str) : CatalogueWork state db (discard (ensureProvider name))
  | updateProvider (id : Id) (name : Str) (apiBase apiKey : Option Str) (extra : Extra) :
      CatalogueWork state db (discard (updateProvider id name apiBase apiKey extra))
  | deleteProvider (id : Id) : CatalogueWork state db (deleteProvider id)
  | createDeployment (dep : NewDeployment) : CatalogueWork state db (discard (createDeployment dep))
  | seedDeployment (dep : NewDeployment) : CatalogueWork state db (discard (seedDeployment dep))
  | upsertAlias (name : Str) (modelId : Id) : CatalogueWork state db (discard (upsertAlias name modelId))
  | verifyApiKey (hash : Str) : CatalogueWork state db (discard (verifyApiKey hash))
  | runImport (file : ModelsFile) : CatalogueWork state db (discard (runImport file))
  | serve (c : Credentials) (req : Request) : CatalogueWork state db (discard (serve state c req))
  | signIn (c : Credentials) (s : SignIn) : CatalogueWork state db (discard (signIn state c s))

theorem CatalogueWork.asks {state : AppState} {db : Db} {work : Handler Unit}
    (h : CatalogueWork state db work) : Asks Checked work := by
  cases h with
  | statement hOther =>
      refine asks_discard (.bind (asks_ask fun seen => ?_) asks_ofExcept)
      unfold Checked
      split
      · next hSame => exact absurd (Query.store.inj hSame) (hOther _ _)
      · trivial
  | ensureModel name => exact asks_discard (asks_ensureModel name)
  | renameModel id newName => exact asks_discard (asks_renameModel id newName)
  | ensureProvider name => exact asks_discard (asks_ensureProvider name)
  | updateProvider id name apiBase apiKey extra =>
      exact asks_discard (asks_updateProvider id name apiBase apiKey extra)
  | deleteProvider id => exact asks_deleteProvider id
  | createDeployment dep => exact asks_discard (asks_createDeployment dep)
  | seedDeployment dep => exact asks_discard (asks_seedDeployment dep)
  | upsertAlias name modelId => exact asks_discard (asks_upsertAlias name modelId)
  | verifyApiKey hash => exact asks_discard (asks_verifyApiKey hash)
  | runImport file => exact asks_discard (asks_runImport file)
  | serve c req =>
      refine asks_discard (.bind (asks_fromRequestParts state c) fun p => ?_)
      by_cases hCreate : ∃ body, req = .createKey body
      · obtain ⟨body, rfl⟩ := hCreate
        exact asks_createKey (fun _ _ => trivial) state p body
      · exact asks_handle state p fun body h => hCreate ⟨body, h⟩
  | signIn c s => exact asks_discard (asks_signIn state c s)

/-- No name is a model's and an alias's at once, in every run of operations,
imports and calls in any order whose writes are made while what they go by
still stands. -/
theorem names_apart (state : AppState) {db : Db} (hValid : db.catalog.Valid)
    {pool : Pool Query Query.Answer Error Unit Db}
    (run : Relation.ReflTransGen (Pool.Step Answers (CatalogueWork state) Unclaimed) ⟨db, 0⟩ pool) :
    ∀ a ∈ pool.state.catalog.aliases, a.name ∉ pool.state.catalog.models.map ModelRow.name := by
  have hStep : ∀ seen db q a db', Checked seen q → Unclaimed seen db q → db.catalog.Valid →
      Answers q db a db' → db'.catalog.Valid :=
    fun _ _ _ _ _ hChecked hUnclaimed h answered => valid_answered hChecked hUnclaimed h answered
  have hAfter : pool.state.catalog.Valid :=
    (Pool.invariant (fun _ _ h => h.asks []) hStep run hValid (by simp)).1
  exact hAfter.namesApart

/-! ### A model and an alias -/

/-- A model called `b`. -/
def modelB : Db where
  catalog := { models := [⟨"1".toList, "b".toList⟩] }

theorem modelB_valid : modelB.catalog.Valid := by
  constructor <;> decide

/-- The names of a catalogue are apart. -/
def NamesApart (c : Catalog) : Prop := ∀ a ∈ c.aliases, a.name ∉ c.models.map ModelRow.name

/-- Another alias leaves the names apart. -/
theorem alias_of_b : NamesApart
    ((discard (upsertAlias "c".toList "1".toList)).run calm.answer modelB).2.catalog := by
  have hMeets : (discard (upsertAlias "c".toList "1".toList)).Meets Unclaimed calm.answer []
      modelB := ⟨rfl, trivial, trivial⟩
  have hRun : Relation.ReflTransGen
      (Pool.Step Answers (CatalogueWork ssoServer) Unclaimed) ⟨modelB, 0⟩
      ⟨((discard (upsertAlias "c".toList "1".toList)).run calm.answer modelB).2, 0⟩ :=
    Pool.alone (fun _ _ => ⟨calm, rfl⟩) (.upsertAlias _ _) hMeets 0
  exact names_apart ssoServer modelB_valid hRun

/-- A file with a model `a`, which it also calls `b`. -/
def clashingFile : ModelsFile where
  models :=
    [{ modelName := "a".toList
       deployments :=
         [{ provider := "p".toList
            upstreamModel := "u".toList
            upstreamFormat := .chat .openaiChat }]
       aliases := ["b".toList] }]

/-- An import gives a model's name to an alias of another. -/
theorem alias_clashes :
    ¬ ∀ (state : AppState) (db : Db) (pool : Pool Query Query.Answer Error Unit Db),
      db.catalog.Valid →
        Relation.ReflTransGen (Pool.Step Answers (CatalogueWork state) fun _ _ _ => True)
          ⟨db, 0⟩ pool →
        ∀ a ∈ pool.state.catalog.aliases, a.name ∉ pool.state.catalog.models.map ModelRow.name := by
  intro h
  have hMeets : ∀ (work : Handler Unit) seen db,
      work.Meets (fun _ _ _ => True) calm.answer seen db := by
    intro work
    induction work with
    | done a => exact fun _ _ => trivial
    | fail e => exact fun _ _ => trivial
    | query q next ih => exact fun _ _ => ⟨trivial, ih _ _ _⟩
  have hRun : Relation.ReflTransGen
      (Pool.Step Answers (CatalogueWork ssoServer) fun _ _ _ => True) ⟨modelB, 0⟩
      ⟨((discard (runImport clashingFile)).run calm.answer modelB).2, 0⟩ :=
    Pool.alone (fun _ _ => ⟨calm, rfl⟩) (.runImport _) (hMeets _ _ _) 0
  have hApart := h ssoServer modelB _ modelB_valid hRun
  exact absurd hApart (by decide +kernel)

end Gateway.Server
