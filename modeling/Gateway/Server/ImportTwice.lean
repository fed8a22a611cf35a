import Gateway.Server.Loading
import Gateway.Server.Admin.Api

/-! What a models file leaves in the store, and what importing it again does. -/
namespace Gateway.Server

open Json Store Program Handler

/-! ### Settings -/

theorem blocked_append (n : Str) (l : List ProviderConfig) (pc : ProviderConfig) (s : Settings) :
    blocked n (l ++ [pc]) s =
      if pc.name = n then (blocked n l s).write pc.apiBase pc.apiKey pc.extra else blocked n l s := by
  rw [blocked, List.foldl_append]
  rfl

/-- No block of the file is there for another one of its name to go against. -/
def Agree (providers : List ProviderConfig) : Prop :=
  ∀ pc ∈ providers, ∀ pc' ∈ providers, pc.name = pc'.name →
    pc.apiBase = pc'.apiBase ∧ pc.extra = pc'.extra ∧
      ∀ k k', pc.apiKey = some k → pc'.apiKey = some k' → k = k'

section

variable {providers : List ProviderConfig} {n : Str} {s : Settings}

/-- Blocks without a key leave the key. -/
theorem apiKey_blocked (hNone : ∀ pc ∈ providers, pc.name = n → pc.apiKey = none) :
    (blocked n providers s).apiKey = s.apiKey := by
  induction providers using List.reverseRecOn with
  | nil => rfl
  | append_singleton l q ih =>
      have hRest := ih fun pc hpc => hNone pc (List.mem_append_left _ hpc)
      rw [blocked_append]
      by_cases hName : q.name = n
      · rw [if_pos hName, Settings.write, hNone q (by simp) hName]
        exact hRest
      · rw [if_neg hName]
        exact hRest

/-- The provider of a block is set as the block says, where the blocks agree. -/
theorem blocked_agree (hAgree : Agree providers) {pc : ProviderConfig} (hpc : pc ∈ providers) :
    (blocked pc.name providers s).apiBase = pc.apiBase ∧
      (blocked pc.name providers s).extra = pc.extra ∧
      (blocked pc.name providers s).vision = pc.extra.vision ∧
      ∀ k, pc.apiKey = some k → (blocked pc.name providers s).apiKey = some k := by
  induction providers using List.reverseRecOn with
  | nil => cases hpc
  | append_singleton l q ih =>
      rw [blocked_append]
      have hLater : pc ∈ l → _ := ih fun a ha b hb =>
        hAgree a (List.mem_append_left _ ha) b (List.mem_append_left _ hb)
      by_cases hName : q.name = pc.name
      · obtain ⟨hBase, hExtra, hKeys⟩ := hAgree q (by simp) pc hpc hName
        rw [if_pos hName]
        refine ⟨hBase, hExtra, congrArg Extra.vision hExtra, fun k hKey => ?_⟩
        cases hOwn : q.apiKey with
        | some k' => exact congrArg some (hKeys k' k hOwn hKey)
        | none =>
            rcases List.mem_append.mp hpc with hIn | hIn
            · exact (hLater hIn).2.2.2 k hKey
            · rw [List.mem_singleton.mp hIn, hOwn] at hKey
              cases hKey
      · rw [if_neg hName]
        rcases List.mem_append.mp hpc with hIn | hIn
        · exact hLater hIn
        · exact absurd (congrArg _ (List.mem_singleton.mp hIn)).symm hName

end

/-- The deployment whose settings a provider gets: the first with a base or a key,
else the last with any. -/
def donor (n : Str) : List DeploymentConfig → Option DeploymentConfig
  | [] => none
  | dc :: rest =>
      if dc.provider = n ∧ carries dc = true then
        if dc.apiBase.isSome || dc.apiKey.isSome then some dc else (donor n rest).or (some dc)
      else donor n rest

section

variable {n : Str} {ds : List DeploymentConfig} {s : Settings}

theorem donate_of_set (h : ¬ (s.apiBase = none ∧ s.apiKey = none)) :
    ds.foldl (donate n) s = s := by
  induction ds with
  | nil => rfl
  | cons dc rest ih =>
      rw [List.foldl_cons, donate, if_neg fun hAll => h hAll.2.2]
      exact ih

/-- What the deployments give. -/
theorem donate_all (hBase : s.apiBase = none) (hKey : s.apiKey = none) :
    ds.foldl (donate n) s =
      ((donor n ds).map fun dc => s.write dc.apiBase dc.apiKey dc.extra).getD s := by
  induction ds generalizing s with
  | nil => rfl
  | cons dc rest ih =>
      rw [List.foldl_cons, donor, donate]
      by_cases hGives : dc.provider = n ∧ carries dc = true
      · rw [if_pos ⟨hGives.1, hGives.2, hBase, hKey⟩, if_pos hGives]
        cases hSet : dc.apiBase.isSome || dc.apiKey.isSome with
        | true =>
            rw [if_pos rfl, donate_of_set]
            · rfl
            · rintro ⟨hNoBase, hNoKey⟩
              have hNone : dc.apiKey = none := (Option.or_eq_none_iff.mp hNoKey).1
              rw [show dc.apiBase = none from hNoBase, hNone] at hSet
              cases hSet
        | false =>
            obtain ⟨hNoBase, hNoKey⟩ : dc.apiBase = none ∧ dc.apiKey = none := by simpa using hSet
            rw [if_neg Bool.false_ne_true, ih hNoBase (by rw [Settings.write, hNoKey]; exact hKey)]
            cases donor n rest with
            | none => rfl
            | some d => simp [Settings.write, hNoKey]
      · rw [if_neg fun hAll => hGives ⟨hAll.1, hAll.2.1⟩, if_neg hGives]
        exact ih hBase hKey

/-- Given once, the settings are given again. -/
theorem donate_twice : ds.foldl (donate n) (ds.foldl (donate n) s) = ds.foldl (donate n) s := by
  by_cases hFree : s.apiBase = none ∧ s.apiKey = none
  · obtain ⟨hBase, hKey⟩ := hFree
    rw [donate_all hBase hKey]
    cases hDonor : donor n ds with
    | none =>
        rw [Option.map_none, Option.getD_none, donate_all hBase hKey, hDonor]
        rfl
    | some d =>
        rw [Option.map_some, Option.getD_some]
        by_cases hStill : (s.write d.apiBase d.apiKey d.extra).apiBase = none ∧
            (s.write d.apiBase d.apiKey d.extra).apiKey = none
        · rw [donate_all hStill.1 hStill.2, hDonor]
          have hNone : d.apiKey = none := (Option.or_eq_none_iff.mp hStill.2).1
          simp [Settings.write, hNone]
        · rw [donate_of_set hStill]
  · rw [donate_of_set hFree, donate_of_set hFree]

end

/-! ### Aliases -/

section

variable {n : Str} {models : List ModelConfig} {target : Option Str}

theorem declare_none (h : ∀ mc ∈ models, n ∉ mc.aliases) :
    models.foldl (declare n) target = target := by
  induction models with
  | nil => rfl
  | cons mc rest ih =>
      rw [List.foldl_cons, declare, if_neg (h mc List.mem_cons_self)]
      exact ih fun q hq => h q (List.mem_cons_of_mem mc hq)

theorem declare_one {name : Str} (hOne : ∀ mc ∈ models, n ∈ mc.aliases → mc.modelName = name)
    (hSome : ∃ mc ∈ models, n ∈ mc.aliases) : models.foldl (declare n) target = some name := by
  induction models using List.reverseRecOn with
  | nil =>
      obtain ⟨mc, hmc, -⟩ := hSome
      cases hmc
  | append_singleton l q ih =>
      rw [List.foldl_append, List.foldl_cons, List.foldl_nil, declare]
      by_cases hLast : n ∈ q.aliases
      · rw [if_pos hLast, hOne q (by simp) hLast]
      · rw [if_neg hLast]
        apply ih fun mc hmc => hOne mc (List.mem_append_left _ hmc)
        obtain ⟨mc, hmc, hIn⟩ := hSome
        rcases List.mem_append.mp hmc with hmc | hmc
        · exact ⟨mc, hmc, hIn⟩
        · rw [List.mem_singleton.mp hmc] at hIn
          exact absurd hIn hLast

end

/-! ### One import -/

section

variable {db db' : Db}

theorem Grows.aliasTarget (h : Intact db) (hGrows : Grows db db') (n : Str) :
    db'.catalog.aliasTarget n = db.catalog.aliasTarget n := by
  unfold Catalog.aliasTarget
  rw [hGrows.aliases]
  cases hFound : db.catalog.aliases.find? (·.name == n) with
  | none => rfl
  | some a =>
      obtain ⟨m, hm, hId⟩ := List.mem_map.mp (h.aliasModels a (List.mem_of_find?_eq_some hFound))
      rw [Option.bind_some, Option.bind_some, ← hId, h.getModel hm,
        hGrows.sound.getModel (hGrows.models.subset hm)]

theorem Intact.aliasOwner_none (h : Intact db) {n : Str} (hNone : db.catalog.aliasTarget n = none) :
    db.catalog.aliasOwner n = none := by
  unfold Catalog.aliasTarget at hNone
  unfold Catalog.aliasOwner
  cases hFound : db.catalog.aliases.find? (·.name == n) with
  | none => rfl
  | some a =>
      obtain ⟨m, hm, hId⟩ := List.mem_map.mp (h.aliasModels a (List.mem_of_find?_eq_some hFound))
      rw [hFound, Option.bind_some, ← hId, h.getModel hm] at hNone
      cases hNone

theorem aliasTarget_none {n : Str} (hNone : db.catalog.aliasOwner n = none) :
    db.catalog.aliasTarget n = none := by
  unfold Catalog.aliasOwner at hNone
  unfold Catalog.aliasTarget
  rw [Option.map_eq_none_iff.mp hNone]
  rfl

theorem Grows.providerNames {n : Str} (h : Grows db db') (hn : n ∈ knownProviders db) :
    n ∈ knownProviders db' := by
  unfold knownProviders at hn ⊢
  rw [← map_snd_providerKey] at hn ⊢
  exact (h.keys.map Prod.snd).subset hn

theorem Aliases.settings (h : Aliases db db') (n : Str) :
    Server.settings db' n = Server.settings db n := by
  rw [h.rest]
  rfl

end

def fileDeployments (file : ModelsFile) : List DeploymentConfig :=
  file.models.flatMap ModelConfig.deployments

/-- The settings of a provider after an import. -/
def imported (file : ModelsFile) (n : Str) (s : Settings) : Settings :=
  (fileDeployments file).foldl (donate n) (blocked n file.providers s)

/-- What an import has done. -/
structure Imported (file : ModelsFile) (db db' : Db) : Prop where
  sound : Intact db'
  blocks : ∀ pc ∈ file.providers, pc.name ∈ knownProviders db' ∧ KeyScope.trim pc.name ≠ []
  settings : ∀ n, settings db' n = imported file n (settings db n)
  models : ∀ mc ∈ file.models, db.catalog.aliasOwner mc.modelName = none ∧ Ready db' mc
  aliases : ∀ n, db'.catalog.aliasTarget n = file.models.foldl (declare n) (db.catalog.aliasTarget n)

/-- The same tables. A provider's two rows may be kept in another way that reads
the same. -/
structure Unchanged (db db' : Db) : Prop where
  records : ∀ p ∈ db.catalog.providers, db'.providerRecord p = db.providerRecord p
  rest : db' = { db with endpoints := db'.endpoints }

theorem providers_eq {db : Db} (h : Intact db) :
    db.catalog.providers = (db.catalog.providers.map providerKey).map
      fun k => ⟨k.1, k.2, (settings db k.2).vision⟩ := by
  rw [List.map_map]
  refine (List.map_id _).symm.trans (List.map_congr_left fun p hp => ?_)
  rw [Function.comp_apply, providerKey, h.settings_name hp]
  rfl

theorem Provides.unchanged {db db' : Db} (h : Intact db) (hProvides : Provides db db')
    (hKeys : db'.catalog.providers.map providerKey = db.catalog.providers.map providerKey)
    (hSettings : ∀ n, settings db' n = settings db n) : Unchanged db db' := by
  have hRows : db'.catalog.providers = db.catalog.providers := by
    rw [providers_eq hProvides.sound, hKeys, funext hSettings]
    exact (providers_eq h).symm
  constructor
  · intro p hp
    have hSame := hSettings p.name
    rw [h.settings_name hp, hProvides.sound.settings_name (hRows ▸ hp)] at hSame
    unfold rowSettings at hSame
    injection hSame with _ hBase hKey hExtra
    unfold Db.providerRecord at hBase hKey hExtra ⊢
    dsimp only at hBase hKey hExtra ⊢
    rw [hBase, hKey, hExtra]
  · have hRest := hProvides.rest
    rwa [hRows] at hRest

section

variable {undisturbed : Bool} {file : ModelsFile} {db : Db}

/-- The first import of a file with deployments. -/
theorem runImport_loads (h : Intact db)
    (hSome : (file.models.map fun mc => mc.deployments.length).sum ≠ 0) :
    Loads false (runImport file) (fun _ db' => Imported file db db') db := by
  unfold runImport
  dsimp only
  rw [if_neg hSome]
  refine loads_bind (seedProviders_loads h file.providers (by rintro ⟨⟩) (by rintro ⟨⟩)) ?_
  rintro _ db₁ ⟨hBlocks, hBlocked, hNames, -⟩
  refine loads_bind (hoistAll_loads hBlocks.sound [] _ (by rintro ⟨⟩)) ?_
  rintro hoisted db₂ ⟨hHoisted, hDonated, -⟩
  refine loads_bind (seedModels_loads hHoisted.sound 0 file.models (by rintro ⟨⟩)) ?_
  rintro inserted db₃ ⟨hGrown, hSettings, hReady, -⟩
  refine loads_bind (seedAliases_loads hGrown.sound 0 file.models
    (fun mc hmc => (hReady mc hmc).2.1) (by rintro ⟨⟩)) ?_
  rintro count db₄ ⟨hAliases, hTarget, -⟩
  have hProvides := hBlocks.trans hHoisted
  refine loads_done ⟨hAliases.sound, fun pc hpc => ⟨?_, (hNames pc hpc).2⟩, fun n => ?_,
    fun mc hmc => ⟨?_, ?_⟩, fun n => ?_⟩
  · rw [hAliases.rest]
    exact hGrown.providerNames (hHoisted.names (hNames pc hpc).1)
  · rw [hAliases.settings, hSettings, hDonated, hBlocked]
    rfl
  · rw [← hProvides.grows.aliasOwner]
    exact (hReady mc hmc).1
  · rw [hAliases.rest]
    exact (hReady mc hmc).2
  · rw [hTarget, hGrown.aliasTarget hHoisted.sound, hProvides.grows.aliasTarget h]

theorem Placed.provider {modelName provider upstreamModel : Str}
    (h : Placed db modelName provider upstreamModel) : provider ∈ knownProviders db := by
  obtain ⟨-, -, -, id, hKey, -⟩ := h
  unfold knownProviders
  rw [← map_snd_providerKey]
  exact List.mem_map_of_mem hKey

/-- An import into tables that hold all of the file already. -/
theorem runImport_again (h : Intact db)
    (hSome : (file.models.map fun mc => mc.deployments.length).sum ≠ 0)
    (hBlocks : ∀ pc ∈ file.providers, pc.name ∈ knownProviders db ∧ KeyScope.trim pc.name ≠ [])
    (hSettings : ∀ n, imported file n (settings db n) = settings db n)
    (hModels : ∀ mc ∈ file.models, Ready db mc) (hSettled : ∀ mc ∈ file.models, Settled db mc) :
    Loads true (runImport file) (fun _ db' => Unchanged db db') db := by
  have hDonors : ∀ dc ∈ fileDeployments file, dc.provider ∈ knownProviders db := by
    intro dc hdc
    obtain ⟨mc, hmc, hIn⟩ := List.mem_flatMap.mp hdc
    exact ((hModels mc hmc).2 dc hIn).provider
  unfold runImport
  dsimp only
  rw [if_neg hSome]
  refine loads_bind (seedProviders_loads h file.providers (fun _ pc hpc => (hBlocks pc hpc).2)
    fun _ pc hpc => (hBlocks pc hpc).1) ?_
  rintro _ db₁ ⟨hFirst, hBlocked, -, hKeys⟩
  refine loads_bind (hoistAll_loads hFirst.sound [] _
    fun _ dc hdc _ => hFirst.names (hDonors dc hdc)) ?_
  rintro hoisted db₂ ⟨hHoisted, hDonated, hKeys'⟩
  have hProvides := hFirst.trans hHoisted
  have hSame : Unchanged db db₂ := by
    apply hProvides.unchanged h
    · rw [hKeys' fun dc hdc _ => hFirst.names (hDonors dc hdc), hKeys fun pc hpc => (hBlocks pc hpc).1]
    · intro n
      rw [hDonated, hBlocked]
      exact hSettings n
  have hReady : ∀ mc ∈ file.models, Ready db₂ mc :=
    fun mc hmc => hProvides.grows.ready (hModels mc hmc)
  have hStill : ∀ mc ∈ file.models, Settled db₂ mc := by
    intro mc hmc
    obtain ⟨hFree, hTargets⟩ := hSettled mc hmc
    refine ⟨by rw [hProvides.grows.aliasOwner]; exact hFree, fun n hn => ?_⟩
    rw [hProvides.grows.aliasTarget h]
    exact hTargets n hn
  refine loads_bind (seedModels_loads hProvides.sound 0 file.models
    fun _ mc hmc => ⟨(hStill mc hmc).1, hReady mc hmc⟩) ?_
  rintro inserted db₃ ⟨-, -, -, hNoModel⟩
  have hThird := hNoModel hReady
  subst hThird
  refine loads_bind (seedAliases_loads hProvides.sound 0 file.models
    (fun mc hmc => (hReady mc hmc).1) fun _ => hStill) ?_
  rintro count db₄ ⟨-, -, hNoAlias⟩
  rw [hNoAlias hStill]
  exact loads_done hSame

end

/-! ### What the file declares -/

/-- The store holds what the file declares. -/
structure Holds (file : ModelsFile) (db : Db) : Prop where
  providers : ∀ pc ∈ file.providers, ∃ p, db.catalog.getProviderByName pc.name = some p ∧
    (db.providerRecord p).apiBase = pc.apiBase ∧ (db.providerRecord p).extra = pc.extra ∧
      ∀ k, pc.apiKey = some k → (db.providerRecord p).apiKey = some k
  models : ∀ mc ∈ file.models, mc.modelName ∈ db.catalog.models.map ModelRow.name
  aliases : ∀ mc ∈ file.models, ∀ n ∈ mc.aliases, db.catalog.aliasTarget n = some mc.modelName
  fileAliases : ∀ a ∈ file.aliases, db.catalog.aliasTarget a.1 = some a.2

/-- Undisturbed, another import ends well and changes nothing. -/
def AgainUnchanged (file : ModelsFile) (db : Db) : Prop :=
  ∀ r db', Runs (AnswersIf true) (runImport file) db r db' →
    (∃ report, r = .ok report) ∧ Unchanged db db'

/-- A file with deployments keeps to itself: blocks of a name agree, no deployment
goes against a block without a base and a key, no alias has two models or the name
of one, and an alias of the file is one of its model, or in the store already. -/
structure Fits (file : ModelsFile) (db : Db) : Prop where
  agree : Agree file.providers
  donors : ∀ pc ∈ file.providers, pc.apiBase.isSome = true ∨
    (∃ pc' ∈ file.providers, pc'.name = pc.name ∧ pc'.apiKey.isSome = true) ∨
    (settings db pc.name).apiKey.isSome = true ∨
    ∀ dc, donor pc.name (fileDeployments file) = some dc → dc.apiBase = none ∧ dc.extra = pc.extra
  aliases : ∀ mc ∈ file.models, ∀ mc' ∈ file.models, ∀ n ∈ mc.aliases, n ∈ mc'.aliases →
    mc.modelName = mc'.modelName
  names : ∀ mc ∈ file.models, ∀ mc' ∈ file.models, mc.modelName ∉ mc'.aliases
  fileAliases : ∀ a ∈ file.aliases,
    (∃ mc ∈ file.models, a.1 ∈ mc.aliases ∧ mc.modelName = a.2) ∨
      ((∀ mc ∈ file.models, a.1 ∉ mc.aliases) ∧ db.catalog.aliasTarget a.1 = some a.2)

/-! ### When the file is left in the store -/

theorem blocked_none {n : Str} {providers : List ProviderConfig} {s : Settings}
    (h : ∀ pc ∈ providers, pc.name ≠ n) : blocked n providers s = s := by
  induction providers using List.reverseRecOn with
  | nil => rfl
  | append_singleton l q ih =>
      rw [blocked_append, if_neg (h q (by simp))]
      exact ih fun pc hpc => h pc (List.mem_append_left _ hpc)

theorem vision_donate {n : Str} {ds : List DeploymentConfig} {s : Settings}
    (h : s.vision = s.extra.vision) :
    (ds.foldl (donate n) s).vision = (ds.foldl (donate n) s).extra.vision := by
  induction ds generalizing s with
  | nil => exact h
  | cons dc rest ih =>
      rw [List.foldl_cons]
      apply ih
      unfold donate
      split
      · rfl
      · exact h

/-- A provider is set as its block says. -/
structure SetAs (pc : ProviderConfig) (s : Settings) : Prop where
  apiBase : s.apiBase = pc.apiBase
  extra : s.extra = pc.extra
  apiKey : ∀ k, pc.apiKey = some k → s.apiKey = some k

section

variable {file : ModelsFile} {db : Db} {s : Settings} {pc : ProviderConfig}

theorem holds_provider (hName : pc.name ∈ knownProviders db) :
    (∃ p, db.catalog.getProviderByName pc.name = some p ∧
      (db.providerRecord p).apiBase = pc.apiBase ∧ (db.providerRecord p).extra = pc.extra ∧
        ∀ k, pc.apiKey = some k → (db.providerRecord p).apiKey = some k) ↔
      SetAs pc (settings db pc.name) := by
  cases hFound : db.catalog.getProviderByName pc.name with
  | none => exact absurd hName (getProviderByName_eq_none.mp hFound)
  | some p =>
      have hSettings : settings db pc.name = rowSettings db p := by rw [settings, hFound]
      rw [hSettings]
      constructor
      · rintro ⟨_, ⟨⟩, hBase, hExtra, hKey⟩
        exact ⟨hBase, hExtra, hKey⟩
      · rintro ⟨hBase, hExtra, hKey⟩
        exact ⟨p, rfl, hBase, hExtra, hKey⟩

/-- A block stands if it agrees with the others of its name and no deployment goes
against it. -/
theorem setAs_imported (hAgree : Agree file.providers) (hpc : pc ∈ file.providers)
    (hDonor : pc.apiBase.isSome = true ∨
      (∃ pc' ∈ file.providers, pc'.name = pc.name ∧ pc'.apiKey.isSome = true) ∨
      s.apiKey.isSome = true ∨
      ∀ dc, donor pc.name (fileDeployments file) = some dc →
        dc.apiBase = none ∧ dc.extra = pc.extra) :
    SetAs pc (imported file pc.name s) := by
  obtain ⟨hBase, hExtra, -, hKey⟩ := blocked_agree (s := s) hAgree hpc
  unfold imported
  by_cases hFree : (blocked pc.name file.providers s).apiBase = none ∧
      (blocked pc.name file.providers s).apiKey = none
  · have hNoKeys : ∀ pc' ∈ file.providers, pc'.name = pc.name → pc'.apiKey = none := by
      intro pc' hpc' hName
      cases hOwn : pc'.apiKey with
      | none => rfl
      | some k =>
          have hSet := (blocked_agree (s := s) hAgree hpc').2.2.2 k hOwn
          rw [hName, hFree.2] at hSet
          cases hSet
    have hNone : s.apiKey = none := (apiKey_blocked hNoKeys).symm.trans hFree.2
    rw [donate_all hFree.1 hFree.2]
    cases hGives : donor pc.name (fileDeployments file) with
    | none => exact ⟨hBase, hExtra, hKey⟩
    | some dc =>
        have hSame : dc.apiBase = none ∧ dc.extra = pc.extra := by
          rcases hDonor with hSet | ⟨pc', hpc', hName, hSet⟩ | hSet | hAll
          · rw [← hBase, hFree.1] at hSet
            cases hSet
          · rw [hNoKeys pc' hpc' hName] at hSet
            cases hSet
          · rw [hNone] at hSet
            cases hSet
          · exact hAll dc hGives
        refine ⟨?_, hSame.2, fun k hOwn => ?_⟩
        · exact hSame.1.trans (hFree.1.symm.trans hBase)
        · rw [hNoKeys pc hpc rfl] at hOwn
          cases hOwn
  · rw [donate_of_set hFree]
    exact ⟨hBase, hExtra, hKey⟩

/-- Where the blocks stand, the settings are the same after another import. -/
theorem imported_twice (hAgree : Agree file.providers) {n : Str}
    (hStand : ∀ pc ∈ file.providers, pc.name = n → SetAs pc (imported file n s)) :
    imported file n (imported file n s) = imported file n s := by
  have hBlocked : blocked n file.providers (imported file n s) = imported file n s := by
    by_cases hBlock : ∃ pc ∈ file.providers, pc.name = n
    · obtain ⟨pc, hpc, rfl⟩ := hBlock
      have hSet := hStand pc hpc rfl
      obtain ⟨hBase, hExtra, hVision, -⟩ := blocked_agree (s := imported file pc.name s) hAgree hpc
      have hFirst := blocked_agree (s := s) hAgree hpc
      apply Settings.ext
      · have hKept : (imported file pc.name s).vision = (imported file pc.name s).extra.vision :=
          vision_donate (hFirst.2.2.1.trans (congrArg Extra.vision hFirst.2.1).symm)
        rw [hVision, hKept, hSet.extra]
      · rw [hBase, hSet.apiBase]
      · by_cases hKeys : ∃ pc' ∈ file.providers, pc'.name = pc.name ∧ pc'.apiKey ≠ none
        · obtain ⟨pc', hpc', hName, hSome⟩ := hKeys
          obtain ⟨k, hOwn⟩ := Option.ne_none_iff_exists'.mp hSome
          have hAgain := (blocked_agree (s := imported file pc.name s) hAgree hpc').2.2.2 k hOwn
          rw [hName] at hAgain
          rw [hAgain, (hStand pc' hpc' hName).apiKey k hOwn]
        · apply apiKey_blocked
          intro pc' hpc' hName
          by_contra hSome
          exact hKeys ⟨pc', hpc', hName, hSome⟩
      · rw [hExtra, hSet.extra]
    · exact blocked_none fun pc hpc hName => hBlock ⟨pc, hpc, hName⟩
  rw [imported, hBlocked]
  exact donate_twice

end

/-- The run with calm surroundings. -/
theorem run_calm (undisturbed : Bool) {α : Type} (p : Handler α) (db : Db) :
    Runs (AnswersIf undisturbed) p db (p.run calm.answer db).1 (p.run calm.answer db).2 :=
  run_runs (fun _ _ => ⟨calm, fun _ _ => rfl, rfl⟩) _ _

theorem aliasTarget_isSome {db : Db} {n target : Str} (h : db.catalog.aliasTarget n = some target) :
    db.catalog.aliasOwner n ≠ none := by
  intro hNone
  rw [aliasTarget_none hNone] at h
  cases h

section

variable {file : ModelsFile} {db db' : Db}

theorem holds_of_fits (hDone : Imported file db db') (h : Fits file db) : Holds file db' := by
  refine ⟨fun pc hpc => ?_, fun mc hmc => (hDone.models mc hmc).2.1, fun mc hmc n hn => ?_,
    fun a ha => ?_⟩
  · rw [holds_provider (hDone.blocks pc hpc).1, hDone.settings]
    exact setAs_imported h.agree hpc (h.donors pc hpc)
  · rw [hDone.aliases]
    exact declare_one (fun mc' hmc' hIn => h.aliases mc' hmc' mc hmc n hIn hn) ⟨mc, hmc, hn⟩
  · rw [hDone.aliases]
    rcases h.fileAliases a ha with ⟨mc, hmc, hIn, hName⟩ | ⟨hNone, hThere⟩
    · rw [← hName]
      exact declare_one (fun mc' hmc' hIn' => h.aliases mc' hmc' mc hmc a.1 hIn' hIn) ⟨mc, hmc, hIn⟩
    · rw [declare_none hNone]
      exact hThere

theorem again_of_fits (hSome : (file.models.map fun mc => mc.deployments.length).sum ≠ 0)
    (hDone : Imported file db db') (h : Fits file db) : AgainUnchanged file db' := by
  have hHolds := holds_of_fits hDone h
  have hLoads : Loads true (runImport file) (fun _ db'' => Unchanged db' db'') db' := by
    apply runImport_again hDone.sound hSome hDone.blocks
    · intro n
      rw [hDone.settings]
      apply imported_twice h.agree
      rintro pc hpc rfl
      exact setAs_imported h.agree hpc (h.donors pc hpc)
    · exact fun mc hmc => (hDone.models mc hmc).2
    · intro mc hmc
      refine ⟨?_, hHolds.aliases mc hmc⟩
      -- the name is no alias of the file, and was none before
      apply hDone.sound.aliasOwner_none
      rw [hDone.aliases, declare_none fun mc' hmc' => h.names mc hmc mc' hmc']
      exact aliasTarget_none (hDone.models mc hmc).1
  intro r db'' run
  have hEnd := run.of_wp hLoads
  cases r with
  | ok report => exact ⟨⟨report, rfl⟩, hEnd⟩
  | error e => cases hEnd

theorem fits_of_holds (hSome : (file.models.map fun mc => mc.deployments.length).sum ≠ 0)
    (hDone : Imported file db db') (hHolds : Holds file db') (hAgain : AgainUnchanged file db') :
    Fits file db := by
  have hSet : ∀ pc ∈ file.providers, SetAs pc (imported file pc.name (settings db pc.name)) := by
    intro pc hpc
    have hHeld := hHolds.providers pc hpc
    rwa [holds_provider (hDone.blocks pc hpc).1, hDone.settings] at hHeld
  have hAgree : Agree file.providers := by
    intro pc hpc pc' hpc' hName
    have hFirst := hSet pc hpc
    have hSecond := hSet pc' hpc'
    rw [← hName] at hSecond
    refine ⟨hFirst.apiBase.symm.trans hSecond.apiBase, hFirst.extra.symm.trans hSecond.extra, ?_⟩
    intro k k' hKey hKey'
    have hBoth := (hFirst.apiKey k hKey).symm.trans (hSecond.apiKey k' hKey')
    exact Option.some.inj hBoth
  refine ⟨hAgree, fun pc hpc => ?_, fun mc hmc mc' hmc' n hn hn' => ?_, fun mc hmc mc' hmc' hIn => ?_,
    fun a ha => ?_⟩
  · by_cases hBase : pc.apiBase.isSome = true
    · exact Or.inl hBase
    by_cases hKeys : ∃ pc' ∈ file.providers, pc'.name = pc.name ∧ pc'.apiKey.isSome = true
    · exact Or.inr (Or.inl hKeys)
    by_cases hKey : (settings db pc.name).apiKey.isSome = true
    · exact Or.inr (Or.inr (Or.inl hKey))
    refine Or.inr (Or.inr (Or.inr fun dc hDonor => ?_))
    obtain ⟨hBlockBase, -, -, -⟩ := blocked_agree (s := settings db pc.name) hAgree hpc
    have hNoBase : pc.apiBase = none := Option.not_isSome_iff_eq_none.mp hBase
    have hNoKey : (blocked pc.name file.providers (settings db pc.name)).apiKey = none := by
      rw [apiKey_blocked]
      · exact Option.not_isSome_iff_eq_none.mp hKey
      · intro pc' hpc' hName
        exact Option.not_isSome_iff_eq_none.mp fun hOwn => hKeys ⟨pc', hpc', hName, hOwn⟩
    have hGiven := hSet pc hpc
    unfold imported at hGiven
    rw [donate_all (hBlockBase.trans hNoBase) hNoKey, hDonor] at hGiven
    have hDonorBase : dc.apiBase = pc.apiBase := hGiven.apiBase
    exact ⟨hDonorBase.trans hNoBase, hGiven.extra⟩
  · exact Option.some.inj ((hHolds.aliases mc hmc n hn).symm.trans (hHolds.aliases mc' hmc' n hn'))
  · -- the next import would find the model's name to be an alias
    have hAlias := aliasTarget_isSome (hHolds.aliases mc' hmc' _ hIn)
    obtain ⟨⟨report, hOk⟩, -⟩ := hAgain _ _ (run_calm true (runImport file) db')
    have hEnd := (run_calm false (runImport file) db').of_wp (runImport_loads hDone.sound hSome)
    rw [hOk] at hEnd
    have hNext : Imported file db' _ := hEnd
    exact hAlias (hNext.models mc hmc).1
  · have hTarget := hHolds.fileAliases a ha
    by_cases hDeclared : ∃ mc ∈ file.models, a.1 ∈ mc.aliases
    · obtain ⟨mc, hmc, hIn⟩ := hDeclared
      exact Or.inl ⟨mc, hmc, hIn,
        Option.some.inj ((hHolds.aliases mc hmc a.1 hIn).symm.trans hTarget)⟩
    · have hNone : ∀ mc ∈ file.models, a.1 ∉ mc.aliases :=
        fun mc hmc hIn => hDeclared ⟨mc, hmc, hIn⟩
      rw [hDone.aliases, declare_none hNone] at hTarget
      exact Or.inr ⟨hNone, hTarget⟩

end

/-- An import that ends well leaves the store with what the file declares, and
another one changes nothing, just if the file keeps to itself. A file without
deployments is not imported. -/
theorem import_holds_iff {file : ModelsFile} {db db' : Db} (h : Intact db)
    {report : Option ImportReport}
    (run : Runs (AnswersIf false) (runImport file) db (.ok report) db') :
    (Holds file db' ∧ AgainUnchanged file db') ↔
      if (file.models.map fun mc => mc.deployments.length).sum = 0 then Holds file db
      else Fits file db := by
  by_cases hSome : (file.models.map fun mc => mc.deployments.length).sum = 0
  · have hNothing : runImport file = done none := by
      unfold runImport
      exact if_pos hSome
    rw [if_pos hSome]
    rw [hNothing] at run
    cases run
    refine and_iff_left ?_
    intro r db'' run
    rw [hNothing] at run
    cases run
    exact ⟨⟨none, rfl⟩, fun _ _ => rfl, rfl⟩
  · rw [if_neg hSome]
    have hDone : Imported file db db' := run.of_wp (runImport_loads h hSome)
    exact ⟨fun hBoth => fits_of_holds hSome hDone hBoth.1 hBoth.2,
      fun hFits => ⟨holds_of_fits hDone hFits, again_of_fits hSome hDone hFits⟩⟩

/-- A model at a provider, with an alias of its own. -/
def tidyFile : ModelsFile where
  providers := [{ name := ['p'], apiBase := some ['b'] }]
  models := [
    { modelName := ['m']
      deployments := [{ provider := ['p'], upstreamModel := ['u'], upstreamFormat := .chat .openaiChat }]
      aliases := [['a']] }]

theorem intact_empty : Intact {} := by
  constructor <;> simp [Table.empty]

theorem tidyFile_holds :
    (Holds tidyFile ((runImport tidyFile).run calm.answer {}).2 ∧
        AgainUnchanged tidyFile ((runImport tidyFile).run calm.answer {}).2) ↔
      if (tidyFile.models.map fun mc => mc.deployments.length).sum = 0 then Holds tidyFile {}
      else Fits tidyFile {} :=
  import_holds_iff intact_empty (run_calm false (runImport tidyFile) {})

/-- The same with the alias at the top of the file. -/
def topAlias : ModelsFile where
  models := [
    { modelName := ['m']
      deployments := [{ provider := ['p'], upstreamModel := ['u'], upstreamFormat := .chat .openaiChat }] }]
  aliases := [(['a'], ['m'])]

/-- The alias is not written. -/
theorem topAlias_lost :
    (∃ report, Runs (AnswersIf true) (runImport topAlias) {} (.ok report)
        ((runImport topAlias).run calm.answer {}).2) ∧
      ¬ Holds topAlias ((runImport topAlias).run calm.answer {}).2 := by
  constructor
  · exact ⟨some ⟨1, 0, 0, 0, 0⟩, run_calm true (runImport topAlias) {}⟩
  · intro h
    have hAlias := h.fileAliases (['a'], ['m']) List.mem_cons_self
    revert hAlias
    decide +kernel

end Gateway.Server
