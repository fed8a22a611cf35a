import Gateway.Server.ProviderRows
import Gateway.Service.Rename

/-! What loading a file leaves, operation by operation. An operation may run into
trouble, or it is undisturbed: no statement fails. -/
namespace Gateway.Server

open Json Store Program Handler

/-- An answer that a query may get, where no statement fails when it is
undisturbed. -/
def AnswersIf (undisturbed : Bool) (q : Query) (db : Db) (a : q.Answer) (db' : Db) : Prop :=
  ∃ env : Env, (undisturbed = true → ∀ s, env.outage s = none) ∧ env.answer q db = (a, db')

/-- A program that ends well leaves `R`. Undisturbed, it ends well. -/
def Loads (undisturbed : Bool) {α : Type} (p : Handler α) (R : α → Db → Prop) (db : Db) : Prop :=
  p.wp (fun _ _ => True) (AnswersIf undisturbed)
    (fun r db' => match r with
      | .ok a => R a db'
      | .error _ => undisturbed = false) db

section

variable {undisturbed : Bool} {α β : Type} {R : α → Db → Prop} {db : Db}

theorem loads_done {a : α} (h : R a db) : Loads undisturbed (done a : Handler α) R db := h

theorem loads_bind {p : Handler β} {f : β → Handler α} {P : β → Db → Prop}
    (h : Loads undisturbed p P db) (hNext : ∀ b db', P b db' → Loads undisturbed (f b) R db') :
    Loads undisturbed (p >>= f) R db := by
  refine wp_bind.mpr (wp_mono h ?_)
  rintro (e | b) db' hFirst
  · exact hFirst
  · exact hNext b db' hFirst

theorem loads_mono {p : Handler α} {P : α → Db → Prop} (h : Loads undisturbed p P db)
    (hNext : ∀ a db', P a db' → R a db') : Loads undisturbed p R db := by
  refine wp_mono h ?_
  rintro (e | a) db' hFirst
  · exact hFirst
  · exact hNext a db' hFirst

theorem loads_fresh {R : Str → Db → Prop} (h : ∀ id, R id db) : Loads undisturbed fresh R db := by
  refine ⟨trivial, ?_⟩
  rintro id db' ⟨env, -, hAnswer⟩
  cases hAnswer
  exact h _

theorem loads_require {c : Bool} {e : Error} {R : Unit → Db → Prop}
    (hHolds : undisturbed = true → c = true) (h : c = true → R () db) :
    Loads undisturbed (require c e) R db := by
  cases c with
  | true => exact h rfl
  | false =>
      cases undisturbed with
      | true => cases hHolds rfl
      | false => rfl

theorem loads_store {s : Statement} {R : s.Result → Db → Prop}
    (hWorks : undisturbed = true → ∀ now e db', s.execute now db ≠ (.error e, db'))
    (h : ∀ now v db', s.execute now db = (.ok v, db') → R v db') :
    Loads undisturbed (store s) R db := by
  refine ⟨trivial, ?_⟩
  rintro a db' ⟨env, hOutage, hAnswer⟩
  unfold Env.answer at hAnswer
  dsimp only at hAnswer
  cases hOut : env.outage s with
  | some message =>
      rw [hOut] at hAnswer
      cases hAnswer
      cases undisturbed with
      | true => exact absurd (hOutage rfl s) (by rw [hOut]; exact Option.some_ne_none _)
      | false => rfl
  | none =>
      rw [hOut] at hAnswer
      cases a with
      | ok v => exact h env.now v db' hAnswer
      | error e =>
          cases undisturbed with
          | true => exact absurd hAnswer (hWorks rfl _ _ _)
          | false => rfl

/-- A statement with one outcome. -/
theorem loads_run {s : Statement} {f : s.Result → Handler α} {v : s.Result} {db' : Db}
    (hRun : ∀ now, s.execute now db = (.ok v, db')) (hNext : Loads undisturbed (f v) R db') :
    Loads undisturbed (store s >>= f) R db := by
  refine loads_bind (P := fun w db'' => v = w ∧ db' = db'') (loads_store ?_ ?_) ?_
  · intro _ now e db'' hExecute
    rw [hRun] at hExecute
    cases hExecute
  · intro now w db'' hExecute
    rw [hRun] at hExecute
    cases hExecute
    exact ⟨rfl, rfl⟩
  · rintro _ _ ⟨rfl, rfl⟩
    exact hNext

theorem loads_found {what : Str} {r : Option α} (hFound : undisturbed = true → r.isSome = true)
    (h : ∀ a, r = some a → R a db) : Loads undisturbed (found what r) R db := by
  cases r with
  | some a => exact h a rfl
  | none =>
      cases undisturbed with
      | true => cases hFound rfl
      | false => rfl

end

/-! ### Providers -/

section

variable {undisturbed : Bool} {db : Db}

def knownProviders (db : Db) : List Str := db.catalog.providers.map ProviderRow.name

theorem Provides.names {db db' : Db} (h : Provides db db') {n : Str} (hn : n ∈ knownProviders db) :
    n ∈ knownProviders db' := by
  unfold knownProviders at hn ⊢
  rw [← map_snd_providerKey] at hn ⊢
  exact (h.keys.map Prod.snd).subset hn

/-- Where the provider is there, undisturbed or not, nothing changes. -/
theorem ensureProvider_loads (h : Intact db) {name : Str}
    (hKnown : undisturbed = true → name ∈ knownProviders db) :
    Loads undisturbed (ensureProvider name) (fun record db' =>
      Provides db db' ∧ (∀ n, settings db' n = settings db n) ∧
        (name ∈ knownProviders db → db' = db) ∧
        ∃ p, db'.catalog.getProviderByName name = some p ∧ record = db'.providerRecord p) db := by
  have hSame : name ∈ knownProviders db → ∀ id, ∃ p, db.catalog.getProviderByName name = some p ∧
      db.upsertProvider id name = (.ok (db.providerRecord p), db) := by
    intro hName id
    cases hFound : db.catalog.getProviderByName name with
    | none => exact absurd hName (getProviderByName_eq_none.mp hFound)
    | some p => exact ⟨p, rfl, by simp [Db.upsertProvider, Catalog.upsertProvider, hFound]⟩
  refine loads_bind (P := fun _ db' => db = db') (loads_fresh fun _ => rfl) ?_
  rintro id _ rfl
  refine loads_store ?_ ?_
  · intro hCalm now e db' hExecute
    obtain ⟨p, -, hRun⟩ := hSame (hKnown hCalm) id
    have hBoth : (Except.ok (db.providerRecord p), db) = (Except.error e, db') := hRun.symm.trans hExecute
    cases hBoth
  · intro now record db' hExecute
    obtain ⟨hProvides, hSettings, hRecord⟩ := upsertProvider_ok h hExecute
    refine ⟨hProvides, hSettings, fun hName => ?_, hRecord⟩
    obtain ⟨p, -, hRun⟩ := hSame hName id
    have hBoth : (Except.ok (db.providerRecord p), db) = (Except.ok record, db') :=
      hRun.symm.trans hExecute
    cases hBoth
    rfl

theorem updateProvider_loads (h : Intact db) {p : ProviderRow} (hp : p ∈ db.catalog.providers)
    (apiBase apiKey : Option Str) (extra : Extra) :
    Loads undisturbed (updateProvider p.id p.name apiBase apiKey extra)
      (fun _ db' => written db p apiBase apiKey extra = db') db := by
  have hAfter := (provides_written apiBase apiKey extra h hp).sound
  have hMoved : rewritten p.id p.name extra.vision p ∈
      (written db p apiBase apiKey extra).catalog.providers := List.mem_map_of_mem hp
  have hId : (rewritten p.id p.name extra.vision p).id = p.id :=
    congrArg Prod.fst (h.key_rewritten hp hp extra.vision)
  have hFound := hAfter.getProvider hMoved
  rw [hId] at hFound
  refine loads_run (fun _ => rfl) ?_
  rw [not_nameTaken h hp]
  refine loads_run (fun _ => writeProvider_ok apiBase apiKey extra h hp) ?_
  refine loads_run (fun _ => rfl) ?_
  rw [hFound]
  exact loads_done rfl

/-! ### Blocks of providers -/

/-- The settings of a provider after its blocks. -/
def blocked (name : Str) (providers : List ProviderConfig) (s : Settings) : Settings :=
  providers.foldl
    (fun s pc => if pc.name = name then s.write pc.apiBase pc.apiKey pc.extra else s) s

theorem seedProviders_loads (h : Intact db) (providers : List ProviderConfig)
    (hNames : undisturbed = true → ∀ pc ∈ providers, KeyScope.trim pc.name ≠ [])
    (hKnown : undisturbed = true → ∀ pc ∈ providers, pc.name ∈ knownProviders db) :
    Loads undisturbed (seedProviders providers) (fun _ db' =>
      Provides db db' ∧ (∀ n, settings db' n = blocked n providers (settings db n)) ∧
        (∀ pc ∈ providers, pc.name ∈ knownProviders db' ∧ KeyScope.trim pc.name ≠ []) ∧
        ((∀ pc ∈ providers, pc.name ∈ knownProviders db) →
          db'.catalog.providers.map providerKey = db.catalog.providers.map providerKey)) db := by
  induction providers generalizing db with
  | nil => exact loads_done ⟨.refl h, fun _ => rfl, by simp, fun _ => rfl⟩
  | cons pc rest ih =>
      refine loads_bind (P := fun _ db' => db = db' ∧ KeyScope.trim pc.name ≠ [])
        (loads_require ?_ ?_) ?_
      · exact fun hCalm => by simpa using hNames hCalm pc List.mem_cons_self
      · exact fun hName => ⟨rfl, by simpa using hName⟩
      rintro _ _ ⟨rfl, hName⟩
      refine loads_bind (ensureProvider_loads h fun hCalm => hKnown hCalm pc List.mem_cons_self) ?_
      rintro record db₁ ⟨hProvides, hSettings, hSame, p, hFound, rfl⟩
      obtain ⟨hMem, hP⟩ := mem_of_getProviderByName hFound
      have hWrite : Loads undisturbed _ _ db₁ := updateProvider_loads hProvides.sound hMem
        pc.apiBase pc.apiKey pc.extra
      rw [hP] at hWrite
      refine loads_bind hWrite ?_
      rintro _ _ rfl
      have hWritten := provides_written pc.apiBase pc.apiKey pc.extra hProvides.sound hMem
      have hBoth := hProvides.trans hWritten
      refine loads_mono (ih hWritten.sound ?_ ?_) ?_
      · exact fun hCalm q hq => hNames hCalm q (List.mem_cons_of_mem pc hq)
      · exact fun hCalm q hq => hBoth.names (hKnown hCalm q (List.mem_cons_of_mem pc hq))
      rintro _ db₂ ⟨hRest, hLater, hThere, hKeys⟩
      refine ⟨hBoth.trans hRest, ?_, ?_, ?_⟩
      · intro n
        rw [hLater, settings_written pc.apiBase pc.apiKey pc.extra hProvides.sound hMem, hSettings,
          hP]
        simp only [blocked, List.foldl_cons, eq_comm]
      · intro q hq
        rcases List.mem_cons.mp hq with rfl | hq
        · refine ⟨hRest.names ?_, hName⟩
          rw [← hP]
          exact hWritten.names (List.mem_map_of_mem hMem)
        · exact hThere q hq
      · intro hKnown
        rw [hKeys fun q hq => hBoth.names (hKnown q (List.mem_cons_of_mem pc hq)),
          keys_written _ _ _ hProvides.sound hMem, hSame (hKnown pc List.mem_cons_self)]

/-! ### Settings on deployments -/

/-- A deployment with settings of its own. -/
def carries (dc : DeploymentConfig) : Bool :=
  !(dc.apiBase.isNone && dc.apiKey.isNone && extraIsEmpty dc.extra)

/-- A deployment gives its settings to its provider, if that has neither a base
nor a key. -/
def donate (name : Str) (s : Settings) (dc : DeploymentConfig) : Settings :=
  if dc.provider = name ∧ carries dc = true ∧ s.apiBase = none ∧ s.apiKey = none then
    s.write dc.apiBase dc.apiKey dc.extra
  else s

theorem hoist_loads (h : Intact db) (hoisted : List Str) (dc : DeploymentConfig)
    (hKnown : undisturbed = true → carries dc = true → dc.provider ∈ knownProviders db) :
    Loads undisturbed (hoist hoisted dc) (fun _ db' =>
      Provides db db' ∧ (∀ n, settings db' n = donate n (settings db n) dc) ∧
        ((carries dc = true → dc.provider ∈ knownProviders db) →
          db'.catalog.providers.map providerKey = db.catalog.providers.map providerKey)) db := by
  unfold hoist
  by_cases hCarries : carries dc = true
  · have hNot : (dc.apiBase.isNone && dc.apiKey.isNone && extraIsEmpty dc.extra) = false :=
      (Bool.not_eq_true' _).mp hCarries
    rw [hNot, if_neg Bool.false_ne_true]
    refine loads_bind (ensureProvider_loads h fun hCalm => hKnown hCalm hCarries) ?_
    rintro record db₁ ⟨hProvides, hSettings, hSame, p, hFound, rfl⟩
    obtain ⟨hMem, hP⟩ := mem_of_getProviderByName hFound
    have hRow : settings db₁ dc.provider = rowSettings db₁ p := by
      rw [← hP, hProvides.sound.settings_name hMem]
    have hBase : (settings db dc.provider).apiBase = (db₁.providerRecord p).apiBase := by
      rw [← hSettings, hRow]
      rfl
    have hKey : (settings db dc.provider).apiKey = (db₁.providerRecord p).apiKey := by
      rw [← hSettings, hRow]
      rfl
    by_cases hTaken : (db₁.providerRecord p).apiBase.isSome || (db₁.providerRecord p).apiKey.isSome
    · rw [if_pos hTaken]
      refine loads_done ⟨hProvides, fun n => ?_, fun hThere => by rw [hSame (hThere hCarries)]⟩
      rw [hSettings, donate, if_neg]
      rintro ⟨rfl, -, hNoBase, hNoKey⟩
      rw [← hBase, ← hKey, hNoBase, hNoKey] at hTaken
      cases hTaken
    · rw [if_neg hTaken]
      have hWrite : Loads undisturbed _ _ db₁ := updateProvider_loads hProvides.sound hMem
        dc.apiBase dc.apiKey dc.extra
      rw [hP] at hWrite
      refine loads_bind hWrite ?_
      rintro _ _ rfl
      refine loads_done ⟨hProvides.trans (provides_written _ _ _ hProvides.sound hMem),
        fun n => ?_, fun hThere => ?_⟩
      · have hNone : (settings db dc.provider).apiBase = none ∧
            (settings db dc.provider).apiKey = none := by
          rw [hBase, hKey]
          simpa using hTaken
        rw [settings_written _ _ _ hProvides.sound hMem, hSettings, hP, donate]
        by_cases hName : dc.provider = n
        · subst hName
          rw [if_pos rfl, if_pos ⟨rfl, hCarries, hNone⟩]
        · rw [if_neg (Ne.symm hName), if_neg fun hAll => hName hAll.1]
      · rw [keys_written _ _ _ hProvides.sound hMem, hSame (hThere hCarries)]
  · rw [if_pos (by simpa [carries] using hCarries)]
    refine loads_done ⟨.refl h, fun n => ?_, fun _ => rfl⟩
    rw [donate, if_neg fun hAll => hCarries hAll.2.1]

theorem hoistAll_loads (h : Intact db) (hoisted : List Str) (ds : List DeploymentConfig)
    (hKnown : undisturbed = true →
      ∀ dc ∈ ds, carries dc = true → dc.provider ∈ knownProviders db) :
    Loads undisturbed (hoistAll hoisted ds) (fun _ db' =>
      Provides db db' ∧ (∀ n, settings db' n = ds.foldl (donate n) (settings db n)) ∧
        ((∀ dc ∈ ds, carries dc = true → dc.provider ∈ knownProviders db) →
          db'.catalog.providers.map providerKey = db.catalog.providers.map providerKey)) db := by
  induction ds generalizing db hoisted with
  | nil => exact loads_done ⟨.refl h, fun _ => rfl, fun _ => rfl⟩
  | cons dc rest ih =>
      refine loads_bind (hoist_loads h hoisted dc fun hCalm => hKnown hCalm dc List.mem_cons_self) ?_
      rintro hoisted db₁ ⟨hProvides, hSettings, hKeys⟩
      refine loads_mono (ih hProvides.sound hoisted ?_) ?_
      · exact fun hCalm q hq hCarries =>
          hProvides.names (hKnown hCalm q (List.mem_cons_of_mem dc hq) hCarries)
      rintro hoisted db₂ ⟨hRest, hLater, hKeys'⟩
      refine ⟨hProvides.trans hRest, fun n => by rw [hLater, hSettings]; rfl, fun hThere => ?_⟩
      rw [hKeys' fun q hq hCarries =>
        hProvides.names (hThere q (List.mem_cons_of_mem dc hq) hCarries)]
      exact hKeys (hThere dc List.mem_cons_self)

/-! ### Models and deployments -/

def knownModels (db : Db) : List Str := db.catalog.models.map ModelRow.name

/-- Rows are added, and aliases stay. -/
structure Grows (db db' : Db) : Prop where
  sound : Intact db'
  models : db.catalog.models <+: db'.catalog.models
  keys : db.catalog.providers.map providerKey <+: db'.catalog.providers.map providerKey
  deployments : db.catalog.deployments <+: db'.catalog.deployments
  aliases : db'.catalog.aliases = db.catalog.aliases

theorem Grows.refl (h : Intact db) : Grows db db :=
  ⟨h, List.prefix_rfl, List.prefix_rfl, List.prefix_rfl, rfl⟩

theorem Grows.trans {db' db'' : Db} (h : Grows db db') (h' : Grows db' db'') : Grows db db'' :=
  ⟨h'.sound, h.models.trans h'.models, h.keys.trans h'.keys, h.deployments.trans h'.deployments,
    h'.aliases.trans h.aliases⟩

theorem Provides.grows {db' : Db} (h : Provides db db') : Grows db db' := by
  have hRest := h.rest
  refine ⟨h.sound, ?_, h.keys, ?_, ?_⟩ <;> rw [hRest]

theorem Intact.getModelByName (h : Intact db) {m : ModelRow} (hm : m ∈ db.catalog.models) :
    db.catalog.getModelByName m.name = some m := by
  obtain ⟨q, hFound⟩ : ∃ q, db.catalog.getModelByName m.name = some q :=
    Option.isSome_iff_exists.mp (List.find?_isSome.mpr ⟨m, hm, by simp⟩)
  have hName : q.name = m.name := by simpa using List.find?_some hFound
  rw [hFound, List.inj_on_of_nodup_map h.modelNames (List.mem_of_find?_eq_some hFound) hm hName]

theorem Intact.getModel (h : Intact db) {m : ModelRow} (hm : m ∈ db.catalog.models) :
    db.catalog.getModel m.id = some m := by
  obtain ⟨q, hFound⟩ : ∃ q, db.catalog.getModel m.id = some q :=
    Option.isSome_iff_exists.mp (List.find?_isSome.mpr ⟨m, hm, by simp⟩)
  have hId : q.id = m.id := by simpa using List.find?_some hFound
  rw [hFound, List.inj_on_of_nodup_map h.modelIds (List.mem_of_find?_eq_some hFound) hm hId]

/-- A name that is no alias, with a model that there is or that is made. -/
theorem ensureModel_loads (h : Intact db) {name : Str}
    (hKnown : undisturbed = true → db.catalog.aliasOwner name = none ∧ name ∈ knownModels db) :
    Loads undisturbed (ensureModel name) (fun model db' =>
      db.catalog.aliasOwner name = none ∧ Grows db db' ∧ (∀ n, settings db' n = settings db n) ∧
        (name ∈ knownModels db → db' = db) ∧ model ∈ db'.catalog.models ∧ model.name = name) db := by
  refine loads_run (fun _ => rfl) ?_
  cases hOwner : db.catalog.aliasOwner name with
  | some owner =>
      have hTrouble : undisturbed = false := by
        cases undisturbed with
        | false => rfl
        | true =>
            have hNone := (hKnown rfl).1
            rw [hOwner] at hNone
            cases hNone
      exact loads_run (fun _ => rfl) hTrouble
  | none =>
      refine loads_bind (P := fun _ db' => db = db') (loads_fresh fun _ => rfl) ?_
      rintro id _ rfl
      have hExecute : ∀ now, (Statement.upsertModel id name).execute now db =
          ((db.catalog.upsertModel id name).1,
            { db with catalog := (db.catalog.upsertModel id name).2 }) := fun _ => rfl
      unfold Catalog.upsertModel at hExecute
      cases hFound : db.catalog.getModelByName name with
      | some m =>
          rw [hFound] at hExecute
          have hMem : m ∈ db.catalog.models := List.mem_of_find?_eq_some hFound
          have hName : m.name = name := by simpa using List.find?_some hFound
          refine loads_store ?_ ?_
          · intro _ now e db' hRun
            rw [hExecute] at hRun
            cases hRun
          · intro now v db' hRun
            rw [hExecute] at hRun
            cases hRun
            exact ⟨rfl, .refl h, fun _ => rfl, fun _ => rfl, hMem, hName⟩
      | none =>
          have hNew : name ∉ knownModels db := by
            simpa [knownModels, Catalog.getModelByName] using hFound
          rw [hFound] at hExecute
          dsimp only at hExecute
          refine loads_store (fun hCalm => absurd (hKnown hCalm).2 hNew) ?_
          intro now v db' hRun
          rw [hExecute] at hRun
          by_cases hTaken : db.catalog.models.any (·.id == id) = true
          · rw [if_pos hTaken] at hRun
            cases hRun
          · have hId : id ∉ db.catalog.models.map ModelRow.id := by simpa using hTaken
            rw [if_neg hTaken] at hRun
            cases hRun
            refine ⟨rfl, ⟨?_, List.prefix_append _ _, List.prefix_rfl, List.prefix_rfl, rfl⟩,
              fun _ => rfl, fun hThere => absurd hThere hNew, by simp, rfl⟩
            refine ⟨?_, ?_, h.aliasNames, ?_, h.providerIds, h.providerNames, h.endpoints⟩
            · rw [List.map_append]
              exact h.modelIds.append (List.nodup_singleton _) (by simpa using hId)
            · rw [List.map_append]
              exact h.modelNames.append (List.nodup_singleton _) (by simpa [knownModels] using hNew)
            · intro a ha
              rw [List.map_append]
              exact List.mem_append_left _ (h.aliasModels a ha)

/-- A model has a live deployment of a model at a provider. -/
def Placed (db : Db) (modelName provider upstreamModel : Str) : Prop :=
  ∃ m ∈ db.catalog.models, m.name = modelName ∧
    ∃ id, (id, provider) ∈ db.catalog.providers.map providerKey ∧
      db.catalog.deploymentExists m.id id upstreamModel = true

theorem Grows.placed {db' : Db} (h : Grows db db') {modelName provider upstreamModel : Str}
    (hPlaced : Placed db modelName provider upstreamModel) :
    Placed db' modelName provider upstreamModel := by
  obtain ⟨m, hm, hName, id, hKey, hExists⟩ := hPlaced
  refine ⟨m, h.models.subset hm, hName, id, h.keys.subset hKey, ?_⟩
  unfold Catalog.deploymentExists at hExists ⊢
  obtain ⟨d, hd, hSame⟩ := List.any_eq_true.mp hExists
  exact List.any_eq_true.mpr ⟨d, h.deployments.subset hd, hSame⟩

theorem Grows.modelNames {db' : Db} (h : Grows db db') {n : Str} (hn : n ∈ knownModels db) :
    n ∈ knownModels db' :=
  (h.models.map ModelRow.name).subset hn

theorem Grows.aliasOwner {db' : Db} (h : Grows db db') (name : Str) :
    db'.catalog.aliasOwner name = db.catalog.aliasOwner name := by
  unfold Catalog.aliasOwner
  rw [h.aliases]

theorem key_mem {name : Str} {p : ProviderRow} (hp : p ∈ db.catalog.providers)
    (hName : p.name = name) : (p.id, name) ∈ db.catalog.providers.map providerKey :=
  List.mem_map.mpr ⟨p, hp, by rw [providerKey, hName]⟩

theorem Intact.eq_of_key (h : Intact db) {p : ProviderRow} (hp : p ∈ db.catalog.providers) {id : Id}
    (hKey : (id, p.name) ∈ db.catalog.providers.map providerKey) : id = p.id := by
  obtain ⟨q, hq, hSame⟩ := List.mem_map.mp hKey
  have hName : q.name = p.name := congrArg Prod.snd hSame
  rw [List.inj_on_of_nodup_map h.providerNames hq hp hName] at hSame
  exact (congrArg Prod.fst hSame).symm

theorem insertDeployment_ok {c : Catalog} {row : DeploymentRow} {v : Unit}
    (h : (c.insertDeployment row).1 = .ok v) :
    (c.insertDeployment row).2 = { c with deployments := c.deployments ++ [row] } := by
  unfold Catalog.insertDeployment at h ⊢
  split at h
  · cases h
  · next hKeys =>
      rw [if_neg hKeys]
      split at h
      · cases h
      · next hNew => rw [if_neg hNew]

/-- A deployment that is not there yet is made. -/
theorem createDeployment_loads (h : Intact db) (dep : NewDeployment) :
    Loads false (createDeployment dep) (fun _ db' =>
      Grows db db' ∧ (∀ n, settings db' n = settings db n) ∧
        Placed db' dep.modelName dep.providerName dep.upstreamModel) db := by
  refine loads_bind (ensureModel_loads h (by rintro ⟨⟩)) ?_
  rintro model db₁ ⟨-, hModel, hSettings, -, hMem, hName⟩
  refine loads_bind (ensureProvider_loads hModel.sound (by rintro ⟨⟩)) ?_
  rintro record db₂ ⟨hProvider, hSettings', -, p, hFound, rfl⟩
  obtain ⟨hP, hPName⟩ := mem_of_getProviderByName hFound
  refine loads_bind (P := fun _ db' => db₂ = db') (loads_fresh fun _ => rfl) ?_
  rintro id _ rfl
  have hGrown := hModel.trans hProvider.grows
  refine loads_bind (P := fun _ db' => Grows db db' ∧ (∀ n, settings db' n = settings db n) ∧
    Placed db' dep.modelName dep.providerName dep.upstreamModel) (loads_store (by rintro ⟨⟩) ?_) ?_
  · intro now v db' hRun
    obtain ⟨hOk, rfl⟩ := Prod.mk.inj hRun
    rw [insertDeployment_ok hOk]
    have hSound := hProvider.sound
    refine ⟨hGrown.trans ⟨?_, List.prefix_rfl, List.prefix_rfl, List.prefix_append _ _, rfl⟩,
      fun n => (hSettings' n).trans (hSettings n), model, hProvider.grows.models.subset hMem, hName,
      p.id, key_mem hP hPName, ?_⟩
    · exact ⟨hSound.modelIds, hSound.modelNames, hSound.aliasNames, hSound.aliasModels,
        hSound.providerIds, hSound.providerNames, hSound.endpoints⟩
    · unfold Catalog.deploymentExists
      rw [List.any_append]
      simp [Db.providerRecord]
  · rintro _ db₃ hDone
    refine loads_bind (P := fun _ db' => db₃ = db') (loads_store (by rintro ⟨⟩) ?_) ?_
    · intro now v db' hRun
      cases hRun
      rfl
    · rintro found _ rfl
      exact loads_found (by rintro ⟨⟩) fun _ _ => hDone

theorem seedDeployment_loads (h : Intact db) (dep : NewDeployment)
    (hKnown : undisturbed = true → db.catalog.aliasOwner dep.modelName = none ∧
      Placed db dep.modelName dep.providerName dep.upstreamModel) :
    Loads undisturbed (seedDeployment dep) (fun _ db' =>
      db.catalog.aliasOwner dep.modelName = none ∧ Grows db db' ∧
        (∀ n, settings db' n = settings db n) ∧
        Placed db' dep.modelName dep.providerName dep.upstreamModel ∧
        (Placed db dep.modelName dep.providerName dep.upstreamModel → db' = db)) db := by
  have hThere : Placed db dep.modelName dep.providerName dep.upstreamModel →
      dep.modelName ∈ knownModels db ∧ dep.providerName ∈ knownProviders db := by
    rintro ⟨m, hm, hName, id, hKey, -⟩
    refine ⟨hName ▸ List.mem_map_of_mem hm, ?_⟩
    unfold knownProviders
    rw [← map_snd_providerKey]
    exact List.mem_map_of_mem hKey
  refine loads_bind (ensureModel_loads h fun hCalm =>
    ⟨(hKnown hCalm).1, (hThere (hKnown hCalm).2).1⟩) ?_
  rintro model db₁ ⟨hFree, hModel, hSettings, hSame, hMem, hName⟩
  refine loads_bind (ensureProvider_loads hModel.sound fun hCalm => ?_) ?_
  · obtain ⟨hM, hP⟩ := hThere (hKnown hCalm).2
    rwa [hSame hM]
  rintro record db₂ ⟨hProvider, hSettings', hSame', p, hFound, rfl⟩
  obtain ⟨hP, hPName⟩ := mem_of_getProviderByName hFound
  have hGrown := hModel.trans hProvider.grows
  have hBoth : ∀ n, settings db₂ n = settings db n := fun n => (hSettings' n).trans (hSettings n)
  have hUnchanged : Placed db dep.modelName dep.providerName dep.upstreamModel → db₂ = db := by
    intro hPlaced
    obtain ⟨hM, hN⟩ := hThere hPlaced
    have hFirst := hSame hM
    subst hFirst
    exact hSame' hN
  refine loads_run (fun _ => rfl) ?_
  cases hExists : db₂.catalog.deploymentExists model.id (db₂.providerRecord p).id
      dep.upstreamModel with
  | true =>
      rw [if_pos rfl]
      exact loads_done ⟨hFree, hGrown, hBoth, ⟨model, hProvider.grows.models.subset hMem, hName, p.id,
        key_mem hP hPName, hExists⟩, hUnchanged⟩
  | false =>
      have hNot : ¬ Placed db dep.modelName dep.providerName dep.upstreamModel := by
        intro hPlaced
        obtain ⟨m, hm, hSameName, id, hKey, hThis⟩ := hGrown.placed hPlaced
        have hId : id = (db₂.providerRecord p).id := by
          apply hProvider.sound.eq_of_key hP
          rwa [hPName]
        have hM : m = model := List.inj_on_of_nodup_map hProvider.sound.modelNames hm
          (hProvider.grows.models.subset hMem) (hSameName.trans hName.symm)
        rw [hM, hId, hExists] at hThis
        cases hThis
      cases undisturbed with
      | true => exact absurd (hKnown rfl).2 hNot
      | false =>
          rw [if_neg Bool.false_ne_true]
          refine loads_bind (P := fun _ db' => Grows db₂ db' ∧
            (∀ n, settings db' n = settings db₂ n) ∧
            Placed db' dep.modelName dep.providerName dep.upstreamModel)
            (loads_bind (createDeployment_loads hProvider.sound dep) fun _ _ hDone => loads_done hDone) ?_
          rintro _ db₃ ⟨hMade, hSettings'', hPlaced⟩
          exact loads_done ⟨hFree, hGrown.trans hMade, fun n => (hSettings'' n).trans (hBoth n), hPlaced,
            fun hOld => absurd hOld hNot⟩

theorem seedDeployments_loads (h : Intact db) (modelName : Str) (inserted : Nat)
    (ds : List DeploymentConfig)
    (hKnown : undisturbed = true → db.catalog.aliasOwner modelName = none ∧
      ∀ dc ∈ ds, Placed db modelName dc.provider dc.upstreamModel) :
    Loads undisturbed (seedDeployments modelName inserted ds) (fun _ db' =>
      Grows db db' ∧ (∀ n, settings db' n = settings db n) ∧
        (∀ dc ∈ ds, Placed db' modelName dc.provider dc.upstreamModel) ∧
        ((∀ dc ∈ ds, Placed db modelName dc.provider dc.upstreamModel) → db' = db)) db := by
  induction ds generalizing db inserted with
  | nil => exact loads_done ⟨.refl h, fun _ => rfl, by simp, fun _ => rfl⟩
  | cons dc rest ih =>
      refine loads_bind (seedDeployment_loads h _ fun hCalm =>
        ⟨(hKnown hCalm).1, (hKnown hCalm).2 dc List.mem_cons_self⟩) ?_
      rintro new db₁ ⟨-, hGrown, hSettings, hPlaced, hSame⟩
      refine loads_mono (ih hGrown.sound _ fun hCalm => ⟨?_, fun q hq => ?_⟩) ?_
      · rw [hGrown.aliasOwner]
        exact (hKnown hCalm).1
      · exact hGrown.placed ((hKnown hCalm).2 q (List.mem_cons_of_mem dc hq))
      rintro _ db₂ ⟨hRest, hSettings', hAll, hSame'⟩
      refine ⟨hGrown.trans hRest, fun n => (hSettings' n).trans (hSettings n), ?_, fun hThere => ?_⟩
      · intro q hq
        rcases List.mem_cons.mp hq with rfl | hq
        · exact hRest.placed hPlaced
        · exact hAll q hq
      · have hFirst := hSame (hThere dc List.mem_cons_self)
        subst hFirst
        exact hSame' fun q hq => hThere q (List.mem_cons_of_mem dc hq)

/-- A model of the file is there with its deployments. -/
def Ready (db : Db) (mc : ModelConfig) : Prop :=
  mc.modelName ∈ knownModels db ∧ ∀ dc ∈ mc.deployments, Placed db mc.modelName dc.provider dc.upstreamModel

theorem Grows.ready {db' : Db} (h : Grows db db') {mc : ModelConfig} (hReady : Ready db mc) :
    Ready db' mc :=
  ⟨h.modelNames hReady.1, fun dc hdc => h.placed (hReady.2 dc hdc)⟩

theorem seedModels_loads (h : Intact db) (inserted : Nat) (models : List ModelConfig)
    (hKnown : undisturbed = true →
      ∀ mc ∈ models, db.catalog.aliasOwner mc.modelName = none ∧ Ready db mc) :
    Loads undisturbed (seedModels inserted models) (fun _ db' =>
      Grows db db' ∧ (∀ n, settings db' n = settings db n) ∧
        (∀ mc ∈ models, db.catalog.aliasOwner mc.modelName = none ∧ Ready db' mc) ∧
        ((∀ mc ∈ models, Ready db mc) → db' = db)) db := by
  induction models generalizing db inserted with
  | nil => exact loads_done ⟨.refl h, fun _ => rfl, by simp, fun _ => rfl⟩
  | cons mc rest ih =>
      refine loads_bind (ensureModel_loads h fun hCalm => ⟨(hKnown hCalm mc List.mem_cons_self).1,
        (hKnown hCalm mc List.mem_cons_self).2.1⟩) ?_
      rintro model db₁ ⟨hFree, hModel, hSettings, hSame, hMem, hName⟩
      refine loads_bind (seedDeployments_loads hModel.sound _ _ _ fun hCalm => ⟨?_, ?_⟩) ?_
      · rw [hModel.aliasOwner]
        exact hFree
      · exact fun dc hdc => hModel.placed ((hKnown hCalm mc List.mem_cons_self).2.2 dc hdc)
      rintro count db₂ ⟨hDeployed, hSettings', hPlaced, hSame'⟩
      have hGrown := hModel.trans hDeployed
      refine loads_mono (ih hDeployed.sound _ fun hCalm q hq => ⟨?_, ?_⟩) ?_
      · rw [hGrown.aliasOwner]
        exact (hKnown hCalm q (List.mem_cons_of_mem mc hq)).1
      · exact hGrown.ready (hKnown hCalm q (List.mem_cons_of_mem mc hq)).2
      rintro _ db₃ ⟨hRest, hSettings'', hAll, hSame''⟩
      refine ⟨hGrown.trans hRest, fun n => ?_, ?_, fun hThere => ?_⟩
      · rw [hSettings'', hSettings', hSettings]
      · intro q hq
        rcases List.mem_cons.mp hq with rfl | hq
        · exact ⟨hFree, hRest.ready ⟨hDeployed.modelNames (hName ▸ List.mem_map_of_mem hMem), hPlaced⟩⟩
        · obtain ⟨hOther, hReady⟩ := hAll q hq
          rw [hGrown.aliasOwner] at hOther
          exact ⟨hOther, hReady⟩
      · have hFirst := hSame (hThere mc List.mem_cons_self).1
        subst hFirst
        have hSecond := hSame' (hThere mc List.mem_cons_self).2
        subst hSecond
        exact hSame'' fun q hq => hThere q (List.mem_cons_of_mem mc hq)

/-! ### Aliases -/

theorem find_upsertAlias (aliases : List AliasRow) (name : Str) (modelId : Id) (n : Str) :
    (Catalog.upsertAlias aliases name modelId).find? (·.name == n) =
      if n = name then some ⟨name, modelId⟩ else aliases.find? (·.name == n) := by
  unfold Catalog.upsertAlias
  by_cases hThere : aliases.any (·.name == name) = true
  · have hNames : ((fun a : AliasRow => a.name == n) ∘ fun a =>
        if a.name == name then { a with modelId := modelId } else a) = fun a => a.name == n := by
      funext a
      dsimp only [Function.comp]
      split <;> rfl
    rw [if_pos hThere, List.find?_map, hNames]
    by_cases hSame : n = name
    · subst hSame
      obtain ⟨a, hFound⟩ := Option.isSome_iff_exists.mp (List.find?_isSome.mpr (List.any_eq_true.mp hThere))
      have hName : a.name = n := by simpa using List.find?_some hFound
      rw [hFound, if_pos rfl]
      simp [hName]
    · rw [if_neg hSame]
      cases hFound : aliases.find? (·.name == n) with
      | none => rfl
      | some a =>
          have hName : a.name = n := by simpa using List.find?_some hFound
          simp [hName, hSame]
  · rw [if_neg hThere, List.find?_append]
    by_cases hSame : n = name
    · have hNone : aliases.find? (·.name == n) = none := by
        rw [List.find?_eq_none]
        intro a ha hName
        exact hThere (List.any_eq_true.mpr ⟨a, ha, hSame ▸ hName⟩)
      rw [hNone, if_pos hSame]
      simp [hSame]
    · rw [if_neg hSame]
      simp [Ne.symm hSame]

theorem upsertAlias_same {aliases : List AliasRow} (hNames : (aliases.map AliasRow.name).Nodup)
    {name : Str} {modelId : Id} (hThere : aliases.find? (·.name == name) = some ⟨name, modelId⟩) :
    Catalog.upsertAlias aliases name modelId = aliases := by
  have hMem := List.mem_of_find?_eq_some hThere
  unfold Catalog.upsertAlias
  rw [if_pos (List.any_eq_true.mpr ⟨_, hMem, by simp⟩)]
  refine (List.map_congr_left fun a ha => ?_).trans (List.map_id _)
  by_cases hName : a.name = name
  · rw [List.inj_on_of_nodup_map hNames ha hMem hName]
    simp
  · rw [if_neg (by simpa using hName)]
    rfl

theorem nodup_upsertAlias {aliases : List AliasRow} (hNames : (aliases.map AliasRow.name).Nodup)
    (name : Str) (modelId : Id) :
    ((Catalog.upsertAlias aliases name modelId).map AliasRow.name).Nodup := by
  unfold Catalog.upsertAlias
  split
  · have hSame : (aliases.map fun a => if a.name == name then { a with modelId := modelId }
        else a).map AliasRow.name = aliases.map AliasRow.name := by
      rw [List.map_map]
      refine List.map_congr_left fun a _ => ?_
      dsimp only [Function.comp]
      split <;> rfl
    rw [hSame]
    exact hNames
  · next hNew =>
      rw [List.map_append]
      exact hNames.append (List.nodup_singleton _) (by simpa using hNew)

theorem mem_upsertAlias {aliases : List AliasRow} {name : Str} {modelId : Id} {a : AliasRow}
    (ha : a ∈ Catalog.upsertAlias aliases name modelId) :
    a.modelId = modelId ∨ a ∈ aliases := by
  unfold Catalog.upsertAlias at ha
  split at ha
  · obtain ⟨b, hb, rfl⟩ := List.mem_map.mp ha
    split
    · exact Or.inl rfl
    · exact Or.inr hb
  · rcases List.mem_append.mp ha with ha | ha
    · exact Or.inr ha
    · rw [List.mem_singleton.mp ha]
      exact Or.inl rfl

/-- Only aliases change. -/
structure Aliases (db db' : Db) : Prop where
  sound : Intact db'
  rest : db' = { db with catalog := { db.catalog with aliases := db'.catalog.aliases } }

theorem Aliases.trans {db db' db'' : Db} (h : Aliases db db') (h' : Aliases db' db'') :
    Aliases db db'' := by
  refine ⟨h'.sound, ?_⟩
  rw [h'.rest, h.rest]

/-- The alias stands for the model from then on. -/
theorem upsertAlias_loads (h : Intact db) {m : ModelRow} (hm : m ∈ db.catalog.models) (name : Str) :
    Loads undisturbed (upsertAlias name m.id) (fun _ db' =>
      Aliases db db' ∧
        (∀ n, db'.catalog.aliasTarget n =
          if n = name then some m.name else db.catalog.aliasTarget n) ∧
        (db.catalog.aliasTarget name = some m.name → db' = db)) db := by
  have hModel := h.getModel hm
  have hRun : ∀ now, (Statement.upsertAlias name m.id).execute now db = (.ok (),
      { db with catalog :=
        { db.catalog with aliases := Catalog.upsertAlias db.catalog.aliases name m.id } }) := by
    intro now
    show ((db.catalog.putAlias name m.id).1,
      { db with catalog := (db.catalog.putAlias name m.id).2 }) = _
    rw [Catalog.putAlias, hModel]
    rfl
  refine loads_run hRun ?_
  refine loads_run (fun _ => rfl) ?_
  dsimp only
  rw [find_upsertAlias, if_pos rfl]
  have hRecord : (Catalog.aliasRecord { db.catalog with
      aliases := Catalog.upsertAlias db.catalog.aliases name m.id } ⟨name, m.id⟩) =
        some ⟨name, m.id, m.name⟩ := by
    show (db.catalog.getModel m.id).map _ = _
    rw [hModel]
    rfl
  rw [Option.bind_some, hRecord]
  refine loads_done ⟨⟨?_, rfl⟩, fun n => ?_, fun hThere => ?_⟩
  · refine ⟨h.modelIds, h.modelNames, nodup_upsertAlias h.aliasNames _ _, ?_, h.providerIds,
      h.providerNames, h.endpoints⟩
    intro a ha
    rcases mem_upsertAlias ha with hId | ha
    · rw [hId]
      exact List.mem_map_of_mem hm
    · exact h.aliasModels a ha
  · show ((Catalog.upsertAlias db.catalog.aliases name m.id).find? (·.name == n)).bind
        (fun a => (db.catalog.getModel a.modelId).map ModelRow.name) = _
    rw [find_upsertAlias]
    by_cases hSame : n = name
    · rw [if_pos hSame, if_pos hSame, Option.bind_some, hModel]
      rfl
    · rw [if_neg hSame, if_neg hSame]
      rfl
  · obtain ⟨a, hFound, hTarget⟩ := Option.bind_eq_some_iff.mp hThere
    obtain ⟨q, hOwner, hName⟩ := Option.map_eq_some_iff.mp hTarget
    obtain ⟨hq, hId⟩ := Catalog.mem_of_getModel hOwner
    have hQ := List.inj_on_of_nodup_map h.modelNames hq hm hName
    have hAlias : a = ⟨name, m.id⟩ := by
      have hOwn : a.name = name := by simpa using List.find?_some hFound
      rw [← hOwn, ← hQ, hId]
    rw [hAlias] at hFound
    rw [upsertAlias_same h.aliasNames hFound]

theorem Aliases.models {db' : Db} (h : Aliases db db') :
    db'.catalog.models = db.catalog.models := by
  rw [h.rest]

theorem writeAliases_loads (h : Intact db) {m : ModelRow} (hm : m ∈ db.catalog.models)
    (names : List Str) :
    Loads undisturbed (writeAliases m.id names) (fun _ db' =>
      Aliases db db' ∧
        (∀ n, db'.catalog.aliasTarget n =
          if n ∈ names then some m.name else db.catalog.aliasTarget n) ∧
        ((∀ n ∈ names, db.catalog.aliasTarget n = some m.name) → db' = db)) db := by
  induction names generalizing db with
  | nil => exact loads_done ⟨⟨h, rfl⟩, fun _ => by simp, fun _ => rfl⟩
  | cons name rest ih =>
      refine loads_bind (upsertAlias_loads h hm name) ?_
      rintro _ db₁ ⟨hAliases, hTarget, hSame⟩
      refine loads_mono (ih hAliases.sound (hAliases.models ▸ hm)) ?_
      rintro _ db₂ ⟨hRest, hTarget', hSame'⟩
      refine ⟨hAliases.trans hRest, fun n => ?_, fun hThere => ?_⟩
      · rw [hTarget', hTarget]
        by_cases hIn : n ∈ rest <;> by_cases hName : n = name <;> simp [hIn, hName]
      · have hFirst := hSame (hThere name List.mem_cons_self)
        subst hFirst
        exact hSame' fun n hn => hThere n (List.mem_cons_of_mem name hn)

/-- The name that an alias stands for after the aliases of a model. -/
def declare (n : Str) (target : Option Str) (mc : ModelConfig) : Option Str :=
  if n ∈ mc.aliases then some mc.modelName else target

/-- The aliases of a model stand for it, and its name is none. -/
def Settled (db : Db) (mc : ModelConfig) : Prop :=
  db.catalog.aliasOwner mc.modelName = none ∧
    ∀ n ∈ mc.aliases, db.catalog.aliasTarget n = some mc.modelName

theorem seedAliases_loads (h : Intact db) (count : Nat) (models : List ModelConfig)
    (hModels : ∀ mc ∈ models, mc.modelName ∈ knownModels db)
    (hKnown : undisturbed = true → ∀ mc ∈ models, Settled db mc) :
    Loads undisturbed (seedAliases count models) (fun _ db' =>
      Aliases db db' ∧
        (∀ n, db'.catalog.aliasTarget n = models.foldl (declare n) (db.catalog.aliasTarget n)) ∧
        ((∀ mc ∈ models, Settled db mc) → db' = db)) db := by
  induction models generalizing db count with
  | nil => exact loads_done ⟨⟨h, rfl⟩, fun _ => rfl, fun _ => rfl⟩
  | cons mc rest ih =>
      rw [seedAliases]
      by_cases hNone : mc.aliases.isEmpty = true
      · rw [if_pos hNone]
        refine loads_mono (ih h count (fun q hq => hModels q (List.mem_cons_of_mem mc hq))
          fun hCalm q hq => hKnown hCalm q (List.mem_cons_of_mem mc hq)) ?_
        rintro _ db₁ ⟨hAliases, hTarget, hSame⟩
        refine ⟨hAliases, fun n => ?_, fun hAll =>
          hSame fun q hq => hAll q (List.mem_cons_of_mem mc hq)⟩
        rw [hTarget, List.foldl_cons, declare, List.isEmpty_iff.mp hNone]
        simp
      · rw [if_neg hNone]
        have hThere := hModels mc List.mem_cons_self
        refine loads_bind (ensureModel_loads h fun hCalm =>
          ⟨(hKnown hCalm mc List.mem_cons_self).1, hThere⟩) ?_
        rintro model db₁ ⟨-, -, -, hSame, hMem, hName⟩
        have hFirst := hSame hThere
        subst hFirst
        refine loads_bind (writeAliases_loads h hMem mc.aliases) ?_
        rintro _ db₂ ⟨hAliases, hTarget, hSame'⟩
        rw [hName] at hTarget hSame'
        refine loads_mono (ih hAliases.sound _ ?_ fun hCalm => ?_) ?_
        · intro q hq
          rw [knownModels, hAliases.models]
          exact hModels q (List.mem_cons_of_mem mc hq)
        · rw [hSame' (hKnown hCalm mc List.mem_cons_self).2]
          exact fun q hq => hKnown hCalm q (List.mem_cons_of_mem mc hq)
        rintro _ db₃ ⟨hRest, hTarget', hSame''⟩
        refine ⟨hAliases.trans hRest, fun n => ?_, fun hAll => ?_⟩
        · rw [hTarget', hTarget, List.foldl_cons, declare]
        · have hSecond := hSame' (hAll mc List.mem_cons_self).2
          subst hSecond
          exact hSame'' fun q hq => hAll q (List.mem_cons_of_mem mc hq)

end

end Gateway.Server
