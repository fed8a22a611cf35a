import Gateway.Server.Import

/-! The rows of providers while a file is loaded: what a provider is set to under
its name, and what the store's operations leave of it. -/
namespace Gateway.Server

open Json Store Program Handler

/-- The constraints of the tables that a file is loaded into. -/
structure Intact (db : Db) : Prop where
  modelIds : (db.catalog.models.map ModelRow.id).Nodup
  modelNames : (db.catalog.models.map ModelRow.name).Nodup
  aliasNames : (db.catalog.aliases.map AliasRow.name).Nodup
  aliasModels : ∀ a ∈ db.catalog.aliases, a.modelId ∈ db.catalog.models.map ModelRow.id
  providerIds : (db.catalog.providers.map ProviderRow.id).Nodup
  providerNames : (db.catalog.providers.map ProviderRow.name).Nodup
  endpoints : ∀ e ∈ db.endpoints.rows, e.providerId ∈ db.catalog.providers.map ProviderRow.id

/-- What a provider is set to. -/
@[ext] structure Settings where
  vision : Bool := false
  apiBase : Option Str := none
  apiKey : Option Str := none
  extra : Extra := {}

/-- No key leaves the key that is there. -/
def Settings.write (s : Settings) (apiBase apiKey : Option Str) (extra : Extra) : Settings where
  vision := extra.vision
  apiBase := apiBase
  apiKey := apiKey.or s.apiKey
  extra := extra

def rowSettings (db : Db) (p : ProviderRow) : Settings where
  vision := p.vision
  apiBase := (db.providerRecord p).apiBase
  apiKey := (db.providerRecord p).apiKey
  extra := (db.providerRecord p).extra

/-- The settings under a name. A provider that is not there yet comes without. -/
def settings (db : Db) (name : Str) : Settings :=
  match db.catalog.getProviderByName name with
  | some p => rowSettings db p
  | none => {}

def providerKey (p : ProviderRow) : Id × Str := (p.id, p.name)

/-- Only providers change: there may be more of them, and with other settings. -/
structure Provides (db db' : Db) : Prop where
  sound : Intact db'
  keys : db.catalog.providers.map providerKey <+: db'.catalog.providers.map providerKey
  rest : db' =
    { db with
      catalog := { db.catalog with providers := db'.catalog.providers }
      endpoints := db'.endpoints }

theorem Provides.refl {db : Db} (h : Intact db) : Provides db db := ⟨h, List.prefix_rfl, rfl⟩

theorem Provides.trans {db db' db'' : Db} (h : Provides db db') (h' : Provides db' db'') :
    Provides db db'' := by
  refine ⟨h'.sound, h.keys.trans h'.keys, ?_⟩
  rw [h'.rest, h.rest]

section

variable {db : Db}

theorem Intact.getProviderByName (h : Intact db) {p : ProviderRow} (hp : p ∈ db.catalog.providers) :
    db.catalog.getProviderByName p.name = some p := by
  obtain ⟨q, hFound⟩ : ∃ q, db.catalog.getProviderByName p.name = some q :=
    Option.isSome_iff_exists.mp (List.find?_isSome.mpr ⟨p, hp, by simp⟩)
  have hName : q.name = p.name := by simpa using List.find?_some hFound
  rw [hFound, List.inj_on_of_nodup_map h.providerNames (List.mem_of_find?_eq_some hFound) hp hName]

theorem Intact.settings_name (h : Intact db) {p : ProviderRow} (hp : p ∈ db.catalog.providers) :
    settings db p.name = rowSettings db p := by
  rw [settings, h.getProviderByName hp]

theorem mem_of_getProviderByName {name : Str} {p : ProviderRow}
    (h : db.catalog.getProviderByName name = some p) :
    p ∈ db.catalog.providers ∧ p.name = name :=
  ⟨List.mem_of_find?_eq_some h, by simpa using List.find?_some h⟩

theorem getProviderByName_eq_none {name : Str} :
    db.catalog.getProviderByName name = none ↔ name ∉ db.catalog.providers.map ProviderRow.name := by
  unfold Catalog.getProviderByName
  simp

theorem Intact.getProvider (h : Intact db) {p : ProviderRow} (hp : p ∈ db.catalog.providers) :
    db.catalog.getProvider p.id = some p := by
  obtain ⟨q, hFound⟩ : ∃ q, db.catalog.getProvider p.id = some q :=
    Option.isSome_iff_exists.mp (List.find?_isSome.mpr ⟨p, hp, by simp⟩)
  have hId : q.id = p.id := by simpa using List.find?_some hFound
  rw [hFound, List.inj_on_of_nodup_map h.providerIds (List.mem_of_find?_eq_some hFound) hp hId]

/-! ### A provider of a name is made -/

/-- A new row comes without an endpoint. -/
theorem settings_append (h : Intact db) {id name : Str}
    (hId : id ∉ db.catalog.providers.map ProviderRow.id) (n : Str) :
    settings { db with catalog :=
      { db.catalog with providers := db.catalog.providers ++ [{ id := id, name := name }] } } n =
        settings db n := by
  have hNone : db.endpoints.get id = none := by
    cases hGet : db.endpoints.get id with
    | none => rfl
    | some e =>
        obtain ⟨he, rfl⟩ := Table.get_eq_some hGet
        exact absurd (h.endpoints e he) hId
  unfold settings Catalog.getProviderByName
  dsimp only
  rw [List.find?_append]
  cases hFound : db.catalog.providers.find? (·.name == n) with
  | some p => rfl
  | none =>
      by_cases hSame : name = n
      · simp [hSame, rowSettings, Db.providerRecord, hNone]
      · simp [hSame]

theorem upsertProvider_ok (h : Intact db) {id name : Str} {record : ProviderRecord} {db' : Db}
    (hRun : db.upsertProvider id name = (.ok record, db')) :
    Provides db db' ∧ (∀ n, settings db' n = settings db n) ∧
      ∃ p, db'.catalog.getProviderByName name = some p ∧ record = db'.providerRecord p := by
  unfold Db.upsertProvider Catalog.upsertProvider at hRun
  cases hFound : db.catalog.getProviderByName name with
  | some p =>
      rw [hFound] at hRun
      cases hRun
      exact ⟨.refl h, fun _ => rfl, p, hFound, rfl⟩
  | none =>
      have hName := getProviderByName_eq_none.mp hFound
      rw [hFound] at hRun
      dsimp only at hRun
      by_cases hTaken : db.catalog.providers.any (·.id == id) = true
      · rw [if_pos hTaken] at hRun
        cases hRun
      · have hId : id ∉ db.catalog.providers.map ProviderRow.id := by simpa using hTaken
        rw [if_neg hTaken] at hRun
        cases hRun
        refine ⟨⟨?_, ?_, rfl⟩, settings_append h hId, ⟨id, name, false⟩, ?_, rfl⟩
        · refine ⟨h.modelIds, h.modelNames, h.aliasNames, h.aliasModels, ?_, ?_, ?_⟩
          · rw [List.map_append]
            exact h.providerIds.append (List.nodup_singleton _) (by simpa using hId)
          · rw [List.map_append]
            exact h.providerNames.append (List.nodup_singleton _) (by simpa using hName)
          · intro e he
            rw [List.map_append]
            exact List.mem_append_left _ (h.endpoints e he)
        · rw [List.map_append]
          exact List.prefix_append _ _
        · have hNone : db.catalog.providers.find? (·.name == name) = none := hFound
          simp [Catalog.getProviderByName, hNone]

/-! ### A provider is written -/

theorem get_putEndpoint (row : EndpointRow) (id : Id) :
    (db.putEndpoint row).get id = if id = row.providerId then some row else db.endpoints.get id := by
  unfold Db.putEndpoint
  cases hInsert : db.endpoints.insert row with
  | some endpoints => exact Table.get_insert hInsert id
  | none =>
      have hSome : row.providerId ∈ db.endpoints.rows.map EndpointRow.providerId := by
        by_contra hNew
        obtain ⟨_, hRow, -⟩ := Table.insert_of_new (t := db.endpoints) hNew
        rw [hRow] at hInsert
        cases hInsert
      obtain ⟨e, he, hId⟩ := List.mem_map.mp hSome
      dsimp only
      rw [Table.get_update]
      by_cases hSame : id = row.providerId
      · have hGet : db.endpoints.get id = some e := by
          rw [hSame, ← hId]
          exact Table.get_key he
        rw [if_pos hSame, hGet]
        simp [hId]
      · rw [if_neg hSame]
        cases hGet : db.endpoints.get id with
        | none => rfl
        | some other =>
            have hOther : other.providerId = id := (Table.get_eq_some hGet).2
            simp [hOther, hSame]

/-- A row after another one, or itself, is written. -/
def rewritten (id name : Str) (vision : Bool) (q : ProviderRow) : ProviderRow :=
  if q.id == id then { q with name := name, vision := vision } else q

theorem Intact.key_rewritten (h : Intact db) {p q : ProviderRow} (hp : p ∈ db.catalog.providers)
    (hq : q ∈ db.catalog.providers) (vision : Bool) :
    providerKey (rewritten p.id p.name vision q) = providerKey q := by
  unfold rewritten
  by_cases hId : q.id = p.id
  · rw [if_pos (beq_iff_eq.mpr hId), List.inj_on_of_nodup_map h.providerIds hq hp hId]
    rfl
  · rw [if_neg (by simpa using hId)]

theorem map_fst_providerKey (ps : List ProviderRow) :
    (ps.map providerKey).map Prod.fst = ps.map ProviderRow.id := by
  rw [List.map_map]
  rfl

theorem map_snd_providerKey (ps : List ProviderRow) :
    (ps.map providerKey).map Prod.snd = ps.map ProviderRow.name := by
  rw [List.map_map]
  rfl

theorem not_nameTaken (h : Intact db) {p : ProviderRow} (hp : p ∈ db.catalog.providers) :
    db.catalog.providerNameTaken p.name p.id = false := by
  unfold Catalog.providerNameTaken
  rw [List.any_eq_false]
  intro q hq hBoth
  obtain ⟨hName, hOther⟩ := Bool.and_eq_true_iff.mp hBoth
  have hSame := List.inj_on_of_nodup_map h.providerNames hq hp (beq_iff_eq.mp hName)
  rw [hSame] at hOther
  simp at hOther

/-- The tables after a provider that is there is written. -/
def written (db : Db) (p : ProviderRow) (apiBase apiKey : Option Str) (extra : Extra) : Db :=
  { db with
    catalog :=
      { db.catalog with
        providers := db.catalog.providers.map (rewritten p.id p.name extra.vision) }
    endpoints := db.putEndpoint
      ⟨p.id, apiBase, apiKey.or ((db.endpoints.get p.id).bind EndpointRow.apiKey), extra⟩ }

variable {p : ProviderRow} (apiBase apiKey : Option Str) (extra : Extra)

theorem writeProvider_ok (h : Intact db) (hp : p ∈ db.catalog.providers) :
    db.writeProvider p.id p.name apiBase apiKey extra =
      (.ok (), written db p apiBase apiKey extra) := by
  unfold Db.writeProvider Catalog.writeProvider
  rw [not_nameTaken h hp, Bool.false_and, if_neg Bool.false_ne_true]
  dsimp only
  rw [h.getProvider hp]
  rfl

theorem keys_written (h : Intact db) (hp : p ∈ db.catalog.providers) :
    (written db p apiBase apiKey extra).catalog.providers.map providerKey =
      db.catalog.providers.map providerKey := by
  show (db.catalog.providers.map (rewritten p.id p.name extra.vision)).map providerKey = _
  rw [List.map_map]
  exact List.map_congr_left fun q hq => h.key_rewritten hp hq extra.vision

theorem provides_written (h : Intact db) (hp : p ∈ db.catalog.providers) :
    Provides db (written db p apiBase apiKey extra) := by
  have hKeys := keys_written apiBase apiKey extra h hp
  have hIds : (written db p apiBase apiKey extra).catalog.providers.map ProviderRow.id =
      db.catalog.providers.map ProviderRow.id := by
    rw [← map_fst_providerKey, hKeys, map_fst_providerKey]
  have hNames : (written db p apiBase apiKey extra).catalog.providers.map ProviderRow.name =
      db.catalog.providers.map ProviderRow.name := by
    rw [← map_snd_providerKey, hKeys, map_snd_providerKey]
  refine ⟨⟨h.modelIds, h.modelNames, h.aliasNames, h.aliasModels, ?_, ?_, ?_⟩, ?_, rfl⟩
  · rw [hIds]
    exact h.providerIds
  · rw [hNames]
    exact h.providerNames
  · intro e he
    rw [hIds]
    have hGet : (db.putEndpoint ⟨p.id, apiBase,
        apiKey.or ((db.endpoints.get p.id).bind EndpointRow.apiKey), extra⟩).get e.providerId =
          some e := Table.get_key he
    rw [get_putEndpoint] at hGet
    split at hGet
    · next hSame =>
        rw [hSame]
        exact List.mem_map_of_mem hp
    · obtain ⟨hMem, -⟩ := Table.get_eq_some hGet
      exact h.endpoints e hMem
  · rw [hKeys]

theorem settings_written (h : Intact db) (hp : p ∈ db.catalog.providers) (n : Str) :
    settings (written db p apiBase apiKey extra) n =
      if n = p.name then (settings db n).write apiBase apiKey extra else settings db n := by
  have hAfter := (provides_written apiBase apiKey extra h hp).sound
  have hNames : ∀ q ∈ db.catalog.providers, (rewritten p.id p.name extra.vision q).name = q.name :=
    fun q hq => congrArg Prod.snd (h.key_rewritten hp hq extra.vision)
  cases hFound : db.catalog.getProviderByName n with
  | none =>
      have hNone := getProviderByName_eq_none.mp hFound
      have hOther : n ≠ p.name := fun hSame => hNone (hSame ▸ List.mem_map_of_mem hp)
      have hStill : (written db p apiBase apiKey extra).catalog.getProviderByName n = none := by
        rw [getProviderByName_eq_none, ← map_snd_providerKey, keys_written apiBase apiKey extra h hp,
          map_snd_providerKey]
        exact hNone
      rw [if_neg hOther, settings, hStill, settings, hFound]
  | some q =>
      obtain ⟨hq, rfl⟩ := mem_of_getProviderByName hFound
      have hMoved : rewritten p.id p.name extra.vision q ∈
          (written db p apiBase apiKey extra).catalog.providers := List.mem_map_of_mem hq
      rw [← hNames q hq, hAfter.settings_name hMoved, hNames q hq, h.settings_name hq]
      by_cases hSame : q.name = p.name
      · have hOne := List.inj_on_of_nodup_map h.providerNames hq hp hSame
        subst hOne
        rw [if_pos rfl]
        have hGet : (db.putEndpoint ⟨q.id, apiBase,
            apiKey.or ((db.endpoints.get q.id).bind EndpointRow.apiKey), extra⟩).get q.id = _ :=
          get_putEndpoint _ q.id
        rw [if_pos rfl] at hGet
        have hKey : ((db.endpoints.get q.id).getD { providerId := q.id }).apiKey =
            (db.endpoints.get q.id).bind EndpointRow.apiKey := by
          cases db.endpoints.get q.id <;> rfl
        simp [rowSettings, Db.providerRecord, Settings.write, written, rewritten, hGet, hKey]
      · have hOther : q.id ≠ p.id := fun hId =>
          hSame (congrArg _ (List.inj_on_of_nodup_map h.providerIds hq hp hId))
        have hGet : (db.putEndpoint ⟨p.id, apiBase,
            apiKey.or ((db.endpoints.get p.id).bind EndpointRow.apiKey), extra⟩).get q.id = _ :=
          get_putEndpoint _ q.id
        rw [if_neg hOther] at hGet
        rw [if_neg hSame]
        simp [rowSettings, Db.providerRecord, written, rewritten, hOther, hGet]

end

end Gateway.Server
