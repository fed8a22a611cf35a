import Gateway.Service.RoutingTable

/-! What a name leads to after its model is renamed. The old name stays behind
as an alias, but the fallback chains of the configuration keep the names that
they were written with. -/
namespace Gateway

open Json

/-- The new name of a model in place of the old one. -/
def swapName (old new name : Str) : Str := if name = old then new else name

@[simp] theorem swapName_old (old new : Str) : swapName old new old = new := if_pos rfl

theorem swapName_of_ne {old new name : Str} (h : name ≠ old) : swapName old new name = name :=
  if_neg h

namespace Store.Catalog

variable {c : Catalog}

/-! ### Rows -/

theorem mem_of_getModel {id : Id} {m : ModelRow} (h : c.getModel id = some m) :
    m ∈ c.models ∧ m.id = id :=
  ⟨List.mem_of_find?_eq_some h, by simpa using List.find?_some h⟩

theorem Valid.eq_of_id (h : c.Valid) {m m' : ModelRow} (hm : m ∈ c.models) (hm' : m' ∈ c.models)
    (hId : m.id = m'.id) : m = m' :=
  List.inj_on_of_nodup_map h.modelIds hm hm' hId

theorem Valid.eq_of_name (h : c.Valid) {m m' : ModelRow} (hm : m ∈ c.models)
    (hm' : m' ∈ c.models) (hName : m.name = m'.name) : m = m' :=
  List.inj_on_of_nodup_map h.modelNames hm hm' hName

theorem mem_listDeployments {d : Deployment} :
    d ∈ c.listDeployments ↔ ∃ row ∈ c.deployments, c.deployment row = some d := by
  rw [listDeployments, (List.perm_insertionSort _ _).mem_iff, List.mem_filterMap]

theorem deployment_eq_some {row : DeploymentRow} {d : Deployment}
    (h : c.deployment row = some d) :
    ∃ m, c.getModel row.modelId = some m ∧ d.modelId = m.id ∧ d.modelName = m.name := by
  unfold deployment at h
  split at h
  · next model _ _ hModel _ =>
      cases h
      exact ⟨model, hModel, (mem_of_getModel hModel).2.symm, rfl⟩
  · cases h

/-- A stored deployment's model has one name and one id. -/
theorem Valid.name_iff_id (h : c.Valid) {d d' : Deployment} (hd : d ∈ c.listDeployments)
    (hd' : d' ∈ c.listDeployments) : d.modelName = d'.modelName ↔ d.modelId = d'.modelId := by
  obtain ⟨row, -, hRow⟩ := mem_listDeployments.mp hd
  obtain ⟨row', -, hRow'⟩ := mem_listDeployments.mp hd'
  obtain ⟨m, hModel, hId, hName⟩ := deployment_eq_some hRow
  obtain ⟨m', hModel', hId', hName'⟩ := deployment_eq_some hRow'
  rw [hId, hName, hId', hName']
  constructor
  · exact fun hSame =>
      congrArg _ (h.eq_of_name (mem_of_getModel hModel).1 (mem_of_getModel hModel').1 hSame)
  · exact fun hSame =>
      congrArg _ (h.eq_of_id (mem_of_getModel hModel).1 (mem_of_getModel hModel').1 hSame)

theorem Valid.getModel_alias (h : c.Valid) {a : AliasRow} (ha : a ∈ c.aliases) :
    ∃ m, c.getModel a.modelId = some m := by
  obtain ⟨m, hm, hId⟩ := List.mem_map.mp (h.aliasModels a ha)
  apply Option.isSome_iff_exists.mp
  rw [getModel, List.find?_isSome]
  exact ⟨m, hm, by simp [hId]⟩

private theorem lookup_filterMap (target : AliasRow → Option Str) (aliases : List AliasRow)
    (hAll : ∀ a ∈ aliases, ∃ t, target a = some t) (name : Str) :
    (aliases.filterMap fun a => (target a).map fun t => (a.name, t)).lookup name =
      (aliases.find? (·.name == name)).bind target := by
  induction aliases with
  | nil => rfl
  | cons a rest ih =>
      obtain ⟨t, hTarget⟩ := hAll a List.mem_cons_self
      have hRest := ih fun b hb => hAll b (List.mem_cons_of_mem a hb)
      rw [List.filterMap_cons_some (b := (a.name, t)) (by rw [hTarget]; rfl), List.lookup_cons,
        List.find?_cons]
      by_cases hName : a.name = name
      · subst hName
        simp [hTarget]
      · have hNot : (name == a.name) = false := beq_eq_false_iff_ne.mpr (Ne.symm hName)
        have hNot' : (a.name == name) = false := beq_eq_false_iff_ne.mpr hName
        rw [hNot, hNot']
        exact hRest

/-- Where an alias leads. -/
def aliasTarget (c : Catalog) (name : Str) : Option Str :=
  (c.aliases.find? (·.name == name)).bind fun a => (c.getModel a.modelId).map ModelRow.name

theorem Valid.lookup_listAliases (h : c.Valid) (name : Str) :
    c.listAliases.lookup name = c.aliasTarget name := by
  have hAll : ∀ a ∈ c.aliases, ∃ t, (c.getModel a.modelId).map ModelRow.name = some t := by
    intro a ha
    obtain ⟨m, hModel⟩ := h.getModel_alias ha
    exact ⟨m.name, by rw [hModel]; rfl⟩
  have hLookup := lookup_filterMap (fun a => (c.getModel a.modelId).map ModelRow.name)
    c.aliases hAll name
  have hMap : (fun a : AliasRow => ((c.getModel a.modelId).map ModelRow.name).map
      fun t => (a.name, t)) = fun a => (c.getModel a.modelId).map fun m => (a.name, m.name) := by
    funext a
    rw [Option.map_map]
    rfl
  rwa [hMap] at hLookup

/-- A model's name is no alias. -/
theorem Valid.aliasTarget_eq_none (h : c.Valid) {m : ModelRow} (hm : m ∈ c.models) :
    c.aliasTarget m.name = none := by
  have hNone : c.aliases.find? (·.name == m.name) = none := by
    rw [List.find?_eq_none]
    intro a ha hName
    apply h.namesApart a ha
    rw [beq_iff_eq.mp hName]
    exact List.mem_map_of_mem hm
  rw [aliasTarget, hNone]
  rfl

theorem aliasTarget_mem {name target : Str} (h : c.aliasTarget name = some target) :
    ∃ m ∈ c.models, m.name = target := by
  obtain ⟨a, -, hTarget⟩ := Option.bind_eq_some_iff.mp h
  obtain ⟨m, hModel, rfl⟩ := Option.map_eq_some_iff.mp hTarget
  exact ⟨m, (mem_of_getModel hModel).1, rfl⟩

/-! ### The tables after a rename -/

/-- A rename that changes the tables: the new name is nobody else's. -/
structure Renames (c : Catalog) (current : ModelRow) (newName : Str) : Prop where
  mem : current ∈ c.models
  changes : current.name ≠ newName
  free : ∀ m ∈ c.models, m.name ≠ newName
  own : ∀ a ∈ c.aliases, a.name = newName → a.modelId = current.id

theorem renameModel_cases (h : c.Valid) {id : Id} {newName : Str} {c' : Catalog}
    {current : ModelRow} (hModel : c.getModel id = some current)
    (hRename : c.renameModel id newName = .ok c') :
    (current.name = newName ∧ c' = c) ∨
      (c.Renames current newName ∧ c' = c.renamed current newName) := by
  obtain ⟨hMem, rfl⟩ := mem_of_getModel hModel
  rw [renameModel, hModel] at hRename
  dsimp only at hRename
  split at hRename
  · next hSame =>
      cases hRename
      exact Or.inl ⟨beq_iff_eq.mp hSame, rfl⟩
  · next hChanges =>
      split at hRename
      · cases hRename
      · next hFree =>
          split at hRename
          · cases hRename
          · next hOwn =>
              cases hRename
              have hNew : current.name ≠ newName := fun hSame => hChanges (beq_iff_eq.mpr hSame)
              refine Or.inr ⟨⟨hMem, hNew, ?_, ?_⟩, rfl⟩
              · intro m hm hName
                have hOther : m.id ≠ current.id := by
                  intro hId
                  exact hNew ((congrArg _ (h.eq_of_id hm hMem hId)).symm.trans hName)
                exact hFree (List.any_eq_true.mpr ⟨m, hm, by simp [hName, hOther]⟩)
              · intro a ha hName
                by_contra hOther
                exact hOwn (List.any_eq_true.mpr ⟨a, ha, by simp [hName, hOther]⟩)

section

variable {current : ModelRow} {newName : Str}

/-- The renamed row, and the others as they were. -/
def relabel (current : ModelRow) (newName : Str) (m : ModelRow) : ModelRow :=
  if m.id == current.id then { m with name := newName } else m

theorem relabel_id (m : ModelRow) : (relabel current newName m).id = m.id := by
  unfold relabel
  split <;> rfl

theorem Valid.relabel_name (h : c.Valid) (hCurrent : current ∈ c.models) {m : ModelRow}
    (hm : m ∈ c.models) :
    (relabel current newName m).name = swapName current.name newName m.name := by
  unfold relabel
  by_cases hId : m.id = current.id
  · have hSame := h.eq_of_id hm hCurrent hId
    subst hSame
    simp
  · have hOther : m.name ≠ current.name := by
      intro hName
      exact hId (congrArg _ (h.eq_of_name hm hCurrent hName))
    rw [swapName_of_ne hOther, if_neg (by simpa using hId)]

theorem getModel_renamed (id : Id) :
    (c.renamed current newName).getModel id = (c.getModel id).map (relabel current newName) := by
  have hIds : (fun m : ModelRow => m.id == id) ∘ relabel current newName =
      fun m => m.id == id := by
    funext m
    rw [Function.comp_apply, relabel_id]
  show (c.models.map (relabel current newName)).find? _ = _
  rw [List.find?_map, hIds]
  rfl

/-- A deployment under the new name of its model. -/
def relabelled (old newName : Str) (d : Deployment) : Deployment :=
  { d with modelName := swapName old newName d.modelName }

theorem Valid.deployment_renamed (h : c.Valid) (hCurrent : current ∈ c.models)
    (row : DeploymentRow) :
    (c.renamed current newName).deployment row =
      (c.deployment row).map (relabelled current.name newName) := by
  have hProvider : (c.renamed current newName).getProvider row.providerId =
      c.getProvider row.providerId := rfl
  unfold deployment
  rw [getModel_renamed, hProvider]
  cases hModel : c.getModel row.modelId with
  | none => cases row.deletedAt <;> rfl
  | some m =>
      have hName : (relabel current newName m).name = swapName current.name newName m.name :=
        h.relabel_name hCurrent (mem_of_getModel hModel).1
      cases row.deletedAt with
      | some _ => rfl
      | none =>
          cases c.getProvider row.providerId with
          | none => rfl
          | some p => simp [relabelled, hName]

theorem Valid.mem_listDeployments_renamed (h : c.Valid) (hCurrent : current ∈ c.models)
    {d : Deployment} :
    d ∈ (c.renamed current newName).listDeployments ↔
      ∃ old ∈ c.listDeployments, d = relabelled current.name newName old := by
  rw [mem_listDeployments]
  constructor
  · rintro ⟨row, hRow, hd⟩
    rw [h.deployment_renamed hCurrent] at hd
    obtain ⟨old, hOld, rfl⟩ := Option.map_eq_some_iff.mp hd
    exact ⟨old, mem_listDeployments.mpr ⟨row, hRow, hOld⟩, rfl⟩
  · rintro ⟨old, hOld, rfl⟩
    obtain ⟨row, hRow, hd⟩ := mem_listDeployments.mp hOld
    exact ⟨row, hRow, by rw [h.deployment_renamed hCurrent, hd]; rfl⟩

/-- The alias rows after a rename. -/
theorem Valid.aliases_renamed (h : c.Valid) (hCurrent : current ∈ c.models) :
    (c.renamed current newName).aliases =
      c.aliases.filter (·.name != newName) ++ [⟨current.name, current.id⟩] := by
  have hNew : ((c.aliases.filter (·.name != newName)).any (·.name == current.name)) = false := by
    rw [List.any_eq_false]
    intro a ha hName
    apply h.namesApart a (List.mem_of_mem_filter ha)
    rw [beq_iff_eq.mp hName]
    exact List.mem_map_of_mem hCurrent
  show upsertAlias _ _ _ = _
  rw [upsertAlias, hNew]
  rfl

/-- A rename keeps the tables valid. -/
theorem Valid.renamed (h : c.Valid) (hRename : c.Renames current newName) :
    (c.renamed current newName).Valid := by
  have hIds : (c.renamed current newName).models.map ModelRow.id = c.models.map ModelRow.id := by
    show (c.models.map (relabel current newName)).map ModelRow.id = _
    rw [List.map_map]
    exact List.map_congr_left fun m _ => relabel_id m
  have hNames : (c.renamed current newName).models.map ModelRow.name =
      (c.models.map ModelRow.name).map (swapName current.name newName) := by
    show (c.models.map (relabel current newName)).map ModelRow.name = _
    rw [List.map_map, List.map_map]
    exact List.map_congr_left fun m hm => h.relabel_name hRename.mem hm
  have hFree : newName ∉ c.models.map ModelRow.name := by
    intro hName
    obtain ⟨m, hm, hSame⟩ := List.mem_map.mp hName
    exact hRename.free m hm hSame
  have hSwap : ∀ name ∈ c.models.map ModelRow.name,
      swapName current.name newName name = newName → name = current.name := by
    intro name hName hNew
    by_contra hOther
    rw [swapName_of_ne hOther] at hNew
    exact hFree (hNew ▸ hName)
  have hAliases : (c.renamed current newName).aliases =
      c.aliases.filter (·.name != newName) ++ [⟨current.name, current.id⟩] :=
    h.aliases_renamed hRename.mem
  refine ⟨by rw [hIds]; exact h.modelIds, ?_, ?_, ?_, ?_⟩
  · rw [hNames]
    apply h.modelNames.map_on
    intro x hx y hy hSame
    by_cases hX : x = current.name
    · rw [hX, swapName_old] at hSame
      rw [hX, hSwap y hy hSame.symm]
    · by_cases hY : y = current.name
      · rw [hY, swapName_old] at hSame
        exact absurd (hSwap x hx hSame) hX
      · rwa [swapName_of_ne hX, swapName_of_ne hY] at hSame
  · rw [hAliases, List.map_append, List.nodup_append]
    refine ⟨h.aliasNames.sublist (List.filter_sublist.map _), List.nodup_singleton _, ?_⟩
    rintro x hx y hy rfl
    obtain ⟨a, ha, hName⟩ := List.mem_map.mp hx
    apply h.namesApart a (List.mem_of_mem_filter ha)
    rw [hName, List.mem_singleton.mp hy]
    exact List.mem_map_of_mem hRename.mem
  · intro a ha
    rw [hIds]
    rw [hAliases] at ha
    rcases List.mem_append.mp ha with ha | ha
    · exact h.aliasModels a (List.mem_of_mem_filter ha)
    · rw [List.mem_singleton.mp ha]
      exact List.mem_map_of_mem hRename.mem
  · intro a ha hName
    rw [hNames] at hName
    obtain ⟨name, hIn, hSame⟩ := List.mem_map.mp hName
    rw [hAliases] at ha
    rcases List.mem_append.mp ha with ha | ha
    · have hNot : a.name ≠ newName := by simpa using (List.mem_filter.mp ha).2
      have hOther : name ≠ current.name := by
        rintro rfl
        exact hNot (hSame.symm.trans (swapName_old _ _))
      rw [swapName_of_ne hOther] at hSame
      exact h.namesApart a (List.mem_of_mem_filter ha) (hSame ▸ hIn)
    · rw [List.mem_singleton.mp ha] at hSame
      by_cases hOld : name = current.name
      · rw [hOld, swapName_old] at hSame
        exact hRename.changes hSame.symm
      · rw [swapName_of_ne hOld] at hSame
        exact hOld hSame

/-- Aliases lead to the new name, and so does the old name. -/
theorem Valid.aliasTarget_renamed (h : c.Valid) (hRename : c.Renames current newName)
    (name : Str) :
    (c.renamed current newName).aliasTarget name =
      if name = current.name then some newName
      else if name = newName then none
      else (c.aliasTarget name).map (swapName current.name newName) := by
  have hModel : c.getModel current.id = some current := by
    cases hFind : c.getModel current.id with
    | none =>
        rw [getModel, List.find?_eq_none] at hFind
        exact absurd (beq_self_eq_true _) (hFind current hRename.mem)
    | some m =>
        obtain ⟨hm, hId⟩ := mem_of_getModel hFind
        rw [h.eq_of_id hm hRename.mem hId]
  have hKept : (c.aliases.filter (·.name != newName)).find? (·.name == name) =
      c.aliases.find? fun a => a.name != newName && a.name == name := by
    rw [List.find?_filter]
    simp only [Bool.decide_and, Bool.decide_eq_true]
  unfold aliasTarget
  rw [h.aliases_renamed hRename.mem, List.find?_append, hKept]
  by_cases hOld : name = current.name
  · subst hOld
    have hNone : c.aliases.find? (fun a => a.name != newName && a.name == current.name) = none := by
      rw [List.find?_eq_none]
      intro a ha hBoth
      have hName : a.name = current.name := by simpa using (Bool.and_eq_true_iff.mp hBoth).2
      exact h.namesApart a ha (hName ▸ List.mem_map_of_mem hRename.mem)
    rw [hNone, if_pos rfl]
    simp [getModel_renamed, hModel, relabel]
  · rw [if_neg hOld]
    have hLast : [(⟨current.name, current.id⟩ : AliasRow)].find? (·.name == name) = none := by
      simp [Ne.symm hOld]
    rw [hLast, Option.or_none]
    by_cases hNew : name = newName
    · subst hNew
      have hNone : c.aliases.find? (fun a => a.name != name && a.name == name) = none := by
        rw [List.find?_eq_none]
        intro a _ hBoth
        simp at hBoth
      rw [hNone, if_pos rfl]
      rfl
    · have hSame : (fun a : AliasRow => a.name != newName && a.name == name) =
          fun a => a.name == name := by
        funext a
        by_cases hName : a.name = name
        · simp [hName, hNew]
        · simp [hName]
      rw [hSame, if_neg hNew]
      cases c.aliases.find? (·.name == name) with
      | none => rfl
      | some a =>
          show ((c.renamed current newName).getModel a.modelId).map ModelRow.name =
            ((c.getModel a.modelId).map ModelRow.name).map (swapName current.name newName)
          rw [getModel_renamed]
          cases hOwner : c.getModel a.modelId with
          | none => rfl
          | some m =>
              exact congrArg some (h.relabel_name hRename.mem (mem_of_getModel hOwner).1)

end

end Store.Catalog

namespace Service

open Store

namespace Snapshot

variable (s : Snapshot)

/-- The fallbacks of a name. -/
def chain (name : Str) : List Str := (s.fallbacks name).getD []

/-- The name of a model that has deployments. -/
def Live (name : Str) : Prop := s.deployments name ≠ []

instance (name : Str) : Decidable (s.Live name) := inferInstanceAs (Decidable (_ ≠ _))

/-- The fallback chains lead to the same models before and after a rename. -/
structure Steady (old new : Str) : Prop where
  /-- The chain written for the old name serves the same models as one written
  for the new name. -/
  own : (∃ name ∈ old :: s.chain old, s.Live name) →
    ∀ name, s.Live name → name ≠ old → (name ∈ s.chain old ↔ name ∈ s.chain new)
  /-- No other chain mentions just one of the two names. -/
  others : s.Live old → ∀ x, s.canonical x = x → x ≠ old →
    (∃ name ∈ x :: s.chain x, s.Live name) → (old ∈ s.chain x ↔ x = new ∨ new ∈ s.chain x)

/-- A model is tried for a name before the rename just if it is after it. -/
def Agrees (old new x : Str) : Prop :=
  ∀ name, s.Live name → (name ∈ x :: s.chain x ↔
    swapName old new name ∈ swapName old new x :: s.chain (swapName old new x))

theorem steady_iff {old new : Str} (hOld : s.canonical old = old) (hNew : ¬ s.Live new) :
    s.Steady old new ↔ ∀ x, s.canonical x = x → (∃ name ∈ x :: s.chain x, s.Live name) →
      s.Agrees old new x := by
  constructor
  · rintro ⟨hOwn, hOthers⟩ x hCanonical hSome name hLive
    have hNotNew : name ≠ new := fun hSame => hNew (hSame ▸ hLive)
    by_cases hX : x = old
    · subst hX
      rw [swapName_old]
      by_cases hName : name = x
      · simp [hName]
      · rw [swapName_of_ne hName]
        simp only [List.mem_cons, hName, hNotNew, false_or]
        exact hOwn hSome name hLive hName
    · rw [swapName_of_ne hX]
      by_cases hName : name = old
      · subst hName
        rw [swapName_old, List.mem_cons, List.mem_cons]
        have hOther := hOthers hLive x hCanonical hX hSome
        have hNot : name ≠ x := Ne.symm hX
        simp only [hNot, false_or]
        rw [hOther, eq_comm]
      · rw [swapName_of_ne hName]
  · intro hAgrees
    constructor
    · intro hSome name hLive hName
      have hAgree := hAgrees old hOld hSome name hLive
      have hNotNew : name ≠ new := fun hSame => hNew (hSame ▸ hLive)
      rw [swapName_old, swapName_of_ne hName, List.mem_cons, List.mem_cons] at hAgree
      simpa only [hName, hNotNew, false_or] using hAgree
    · intro hLive x hCanonical hX hSome
      have hAgree := hAgrees x hCanonical hSome old hLive
      have hNot : old ≠ x := Ne.symm hX
      rw [swapName_old, swapName_of_ne hX, List.mem_cons, List.mem_cons] at hAgree
      simp only [hNot, false_or] at hAgree
      rw [hAgree, eq_comm]

end Snapshot

variable {c : Catalog} {current : ModelRow} {newName : Str}
  (fallbacks : Str → Option (List Str)) (strategy : Strategy)

theorem deployments_load (c : Catalog) (name : Str) :
    (Snapshot.load c fallbacks strategy).deployments name =
      c.listDeployments.filter (·.modelName == name) :=
  deployments_build ..

theorem live_load (c : Catalog) (name : Str) :
    (Snapshot.load c fallbacks strategy).Live name ↔
      ∃ d ∈ c.listDeployments, d.modelName = name := by
  rw [Snapshot.Live, deployments_load, Ne, List.filter_eq_nil_iff]
  simp

theorem isSome_load (c : Catalog) (name : Str) :
    ((Snapshot.load c fallbacks strategy).models name).isSome = true ↔
      ∃ d ∈ c.listDeployments, d.modelName = name := by
  rw [Snapshot.load, models_build_isSome, List.any_eq_true]
  simp

/-- Aliases lead to models, which are no aliases. -/
theorem canonical_load (h : c.Valid) (name : Str) :
    (Snapshot.load c fallbacks strategy).canonical name =
      if ∃ d ∈ c.listDeployments, d.modelName = name then name
      else (c.aliasTarget name).getD name := by
  classical
  have hAliases : ∀ name, (Snapshot.load c fallbacks strategy).aliases name =
      c.aliasTarget name := h.lookup_listAliases
  have hOneHop : ∀ name target, (Snapshot.load c fallbacks strategy).aliases name = some target →
      (Snapshot.load c fallbacks strategy).aliases target = none := by
    intro name target hTarget
    rw [hAliases] at hTarget
    obtain ⟨m, hm, rfl⟩ := Catalog.aliasTarget_mem hTarget
    rw [hAliases, h.aliasTarget_eq_none hm]
  rw [Snapshot.canonical_eq hOneHop, hAliases]
  exact if_congr (isSome_load fallbacks strategy c name) rfl rfl

/-- No deployment has the new name before the rename. -/
theorem name_ne_new (hRename : c.Renames current newName) {d : Deployment}
    (hd : d ∈ c.listDeployments) : d.modelName ≠ newName := by
  obtain ⟨row, -, hRow⟩ := Catalog.mem_listDeployments.mp hd
  obtain ⟨m, hModel, -, hName⟩ := Catalog.deployment_eq_some hRow
  rw [hName]
  exact hRename.free m (Catalog.mem_of_getModel hModel).1

/-- Every name leads to the renamed model where it led to the model. -/
theorem canonical_renamed (h : c.Valid) (hRename : c.Renames current newName) (name : Str) :
    (Snapshot.load (c.renamed current newName) fallbacks strategy).canonical name =
      swapName current.name newName
        ((Snapshot.load c fallbacks strategy).canonical name) := by
  classical
  rw [canonical_load fallbacks strategy (h.renamed hRename), canonical_load fallbacks strategy h,
    h.aliasTarget_renamed hRename]
  have hLive : ∀ name, (∃ d ∈ (c.renamed current newName).listDeployments, d.modelName = name) ↔
      ∃ d ∈ c.listDeployments, swapName current.name newName d.modelName = name := by
    intro name
    constructor
    · rintro ⟨d, hd, rfl⟩
      obtain ⟨old, hOld, rfl⟩ := (h.mem_listDeployments_renamed hRename.mem).mp hd
      exact ⟨old, hOld, rfl⟩
    · rintro ⟨old, hOld, rfl⟩
      exact ⟨_, (h.mem_listDeployments_renamed hRename.mem).mpr ⟨old, hOld, rfl⟩, rfl⟩
  simp only [hLive]
  have hOldAlias := h.aliasTarget_eq_none hRename.mem
  by_cases hOld : name = current.name
  · subst hOld
    have hGone : ¬ ∃ d ∈ c.listDeployments,
        swapName current.name newName d.modelName = current.name := by
      rintro ⟨d, -, hd⟩
      by_cases hName : d.modelName = current.name
      · rw [hName, swapName_old] at hd
        exact hRename.changes hd.symm
      · rw [swapName_of_ne hName] at hd
        exact hName hd
    rw [if_neg hGone, if_pos rfl, hOldAlias, Option.getD_some, Option.getD_none, ite_self,
      swapName_old]
  · rw [if_neg hOld]
    by_cases hNew : name = newName
    · subst hNew
      have hNotLive : ¬ ∃ d ∈ c.listDeployments, d.modelName = name := by
        rintro ⟨d, hd, hName⟩
        exact name_ne_new hRename hd hName
      rw [if_pos rfl, if_neg hNotLive, Option.getD_none, ite_self]
      cases hAlias : c.aliasTarget name with
      | none => exact (swapName_of_ne hOld).symm
      | some target =>
          obtain ⟨a, hFind, hTarget⟩ := Option.bind_eq_some_iff.mp hAlias
          obtain ⟨m, hModel, rfl⟩ := Option.map_eq_some_iff.mp hTarget
          have hOwn := hRename.own a (List.mem_of_find?_eq_some hFind)
            (by simpa using List.find?_some hFind)
          rw [hOwn] at hModel
          obtain ⟨hm, hId⟩ := Catalog.mem_of_getModel hModel
          rw [h.eq_of_id hm hRename.mem hId, Option.getD_some, swapName_old]
    · have hSame : (∃ d ∈ c.listDeployments, swapName current.name newName d.modelName = name) ↔
          ∃ d ∈ c.listDeployments, d.modelName = name := by
        constructor
        · rintro ⟨d, hd, hName⟩
          refine ⟨d, hd, ?_⟩
          by_cases hModel : d.modelName = current.name
          · rw [hModel, swapName_old] at hName
            exact absurd hName.symm hNew
          · rwa [swapName_of_ne hModel] at hName
        · rintro ⟨d, hd, rfl⟩
          exact ⟨d, hd, swapName_of_ne hOld⟩
      rw [if_neg hNew]
      simp only [hSame]
      split
      · exact (swapName_of_ne hOld).symm
      · cases c.aliasTarget name with
        | none => exact (swapName_of_ne hOld).symm
        | some target => rfl

theorem canonical_idem (h : c.Valid) (name : Str) :
    (Snapshot.load c fallbacks strategy).canonical
        ((Snapshot.load c fallbacks strategy).canonical name) =
      (Snapshot.load c fallbacks strategy).canonical name := by
  classical
  have hCanonical := canonical_load fallbacks strategy h
  by_cases hLive : ∃ d ∈ c.listDeployments, d.modelName = name
  · have hSelf : (Snapshot.load c fallbacks strategy).canonical name = name := by
      rw [hCanonical, if_pos hLive]
    rw [hSelf, hSelf]
  · rw [hCanonical name, if_neg hLive]
    cases hAlias : c.aliasTarget name with
    | none => rw [Option.getD_none, hCanonical, if_neg hLive, hAlias, Option.getD_none]
    | some model =>
        obtain ⟨m, hm, rfl⟩ := Catalog.aliasTarget_mem hAlias
        rw [Option.getD_some, hCanonical, h.aliasTarget_eq_none hm, Option.getD_none, ite_self]

/-- The names that are tried for a model, as the new table has them. -/
def triedAfter (s : Snapshot) (old new x : Str) : List Str :=
  swapName old new x :: s.chain (swapName old new x)

/-- The targets before the rename. -/
theorem reaches_load (req : RouteRequest) (target : Id × Str × Id) :
    (Snapshot.load c fallbacks strategy).Reaches req target ↔
      ∃ d ∈ c.listDeployments,
        d.modelName ∈ (Snapshot.load c fallbacks strategy).names req.requestedModel ∧
          req.eligible d = true ∧ identity d = target := by
  simp only [Snapshot.Reaches, Snapshot.eligible, deployments_load, List.mem_filter, beq_iff_eq]
  constructor
  · rintro ⟨name, hName, d, ⟨⟨hd, rfl⟩, hEligible⟩, hTarget⟩
    exact ⟨d, hd, hName, hEligible, hTarget⟩
  · rintro ⟨d, hd, hName, hEligible, hTarget⟩
    exact ⟨_, hName, d, ⟨⟨hd, rfl⟩, hEligible⟩, hTarget⟩

/-- The targets after it. -/
theorem reaches_renamed (h : c.Valid) (hRename : c.Renames current newName) (req : RouteRequest)
    (target : Id × Str × Id) :
    (Snapshot.load (c.renamed current newName) fallbacks strategy).Reaches req target ↔
      ∃ d ∈ c.listDeployments, swapName current.name newName d.modelName ∈
          triedAfter (Snapshot.load c fallbacks strategy) current.name newName
            ((Snapshot.load c fallbacks strategy).canonical req.requestedModel) ∧
        req.eligible d = true ∧ identity d = target := by
  rw [reaches_load]
  have hNames : (Snapshot.load (c.renamed current newName) fallbacks strategy).names
        req.requestedModel =
      triedAfter (Snapshot.load c fallbacks strategy) current.name newName
        ((Snapshot.load c fallbacks strategy).canonical req.requestedModel) := by
    rw [Snapshot.names, canonical_renamed fallbacks strategy h hRename]
    rfl
  rw [hNames]
  constructor
  · rintro ⟨d, hd, hName, hEligible, hTarget⟩
    obtain ⟨old, hOld, rfl⟩ := (h.mem_listDeployments_renamed hRename.mem).mp hd
    exact ⟨old, hOld, hName, hEligible, hTarget⟩
  · rintro ⟨old, hOld, hName, hEligible, hTarget⟩
    exact ⟨Catalog.relabelled current.name newName old,
      (h.mem_listDeployments_renamed hRename.mem).mpr ⟨old, hOld, rfl⟩, hName, hEligible, hTarget⟩

/-- A request that had targets before the rename has the same after it. -/
def SameTargets (s s' : Snapshot) : Prop :=
  ∀ req, (∃ target, s.Reaches req target) →
    ∀ target, s'.Reaches req target ↔ s.Reaches req target

theorem sameTargets_iff_agrees (h : c.Valid) (hRename : c.Renames current newName) :
    SameTargets (Snapshot.load c fallbacks strategy)
        (Snapshot.load (c.renamed current newName) fallbacks strategy) ↔
      ∀ x, (Snapshot.load c fallbacks strategy).canonical x = x →
        (∃ name ∈ x :: (Snapshot.load c fallbacks strategy).chain x,
          (Snapshot.load c fallbacks strategy).Live name) →
        (Snapshot.load c fallbacks strategy).Agrees current.name newName x := by
  have hLive := live_load fallbacks strategy c
  constructor
  · intro hSame x hCanonical hSome name hName
    let req : RouteRequest := { requestedModel := x }
    have hAll := hSame req
    have hEligible : ∀ d, req.eligible d = true := fun d => rfl
    simp only [reaches_load, reaches_renamed fallbacks strategy h hRename, Snapshot.names, req,
      hCanonical, hEligible, true_and] at hAll
    obtain ⟨known, hKnown, hKnownLive⟩ := hSome
    obtain ⟨k, hk, rfl⟩ := (hLive known).mp hKnownLive
    obtain ⟨d, hd, rfl⟩ := (hLive name).mp hName
    have hTarget := hAll ⟨identity k, k, hk, hKnown, rfl⟩ (identity d)
    -- the identity of a target determines its model
    have hModel : ∀ {d'}, d' ∈ c.listDeployments → identity d' = identity d →
        d'.modelName = d.modelName := by
      intro d' hd' hIdentity
      exact (h.name_iff_id hd' hd).mpr (congrArg (fun k => k.2.2) hIdentity)
    constructor
    · intro hBefore
      obtain ⟨d', hd', hAfter, hIdentity⟩ := hTarget.mpr ⟨d, hd, hBefore, rfl⟩
      rwa [hModel hd' hIdentity] at hAfter
    · intro hAfter
      obtain ⟨d', hd', hBefore, hIdentity⟩ := hTarget.mp ⟨d, hd, hAfter, rfl⟩
      rwa [hModel hd' hIdentity] at hBefore
  · intro hAgrees req hSome target
    obtain ⟨known, hKnown⟩ := hSome
    obtain ⟨k, hk, hName, -, -⟩ := (reaches_load fallbacks strategy req known).mp hKnown
    have hAgree := hAgrees _ (canonical_idem fallbacks strategy h req.requestedModel)
      ⟨_, hName, (hLive _).mpr ⟨k, hk, rfl⟩⟩
    rw [reaches_renamed fallbacks strategy h hRename, reaches_load]
    constructor
    · rintro ⟨d, hd, hAfter, hRest⟩
      exact ⟨d, hd, (hAgree _ ((hLive _).mpr ⟨d, hd, rfl⟩)).mpr hAfter, hRest⟩
    · rintro ⟨d, hd, hBefore, hRest⟩
      exact ⟨d, hd, (hAgree _ ((hLive _).mpr ⟨d, hd, rfl⟩)).mp hBefore, hRest⟩

variable (powf : Rat → Rat → Rat)

/-- After a rename and a reload, every request that was served is still served,
by the same targets. -/
def TargetsKept (c c' : Catalog) : Prop :=
  ∀ (r : DeploymentRouter) (req : RouteRequest) (decision : Decision),
    (Snapshot.load c fallbacks strategy).Same r.snapshot →
    (r.resolve powf req).1 = .ok decision →
    ∃ later, ((r.reload c').resolve powf req).1 = .ok later ∧
      ∀ target, target ∈ later.candidates.map identity ↔
        target ∈ decision.candidates.map identity

theorem kept_iff_sameTargets (c c' : Catalog) :
    TargetsKept fallbacks strategy powf c c' ↔ SameTargets (Snapshot.load c fallbacks strategy)
      (Snapshot.load c' fallbacks strategy) := by
  constructor
  · intro hKept req hSome
    let r : DeploymentRouter := { snapshot := Snapshot.load c fallbacks strategy, rng := 0 }
    have hBefore := resolve_reaches powf r req
    cases hResolve : (r.resolve powf req).1 with
    | error e =>
        rw [hResolve] at hBefore
        obtain ⟨target, hTarget⟩ := hSome
        exact absurd hTarget (hBefore target)
    | ok decision =>
        rw [hResolve] at hBefore
        obtain ⟨later, hLater, hSame⟩ := hKept r req decision (.refl _) hResolve
        have hAfter := resolve_reaches powf (r.reload c') req
        rw [hLater] at hAfter
        intro target
        exact (hAfter.2 target).symm.trans ((hSame target).trans (hBefore.2 target))
  · intro hSame r req decision hTable hResolve
    have hBefore := resolve_reaches powf r req
    rw [hResolve] at hBefore
    have hReaches := hTable.reaches req
    have hLoad : (r.reload c').snapshot = Snapshot.load c' fallbacks strategy := by
      have hFallbacks : r.snapshot.fallbacks = fallbacks := hTable.fallbacks
      have hStrategy : r.snapshot.strategy = strategy := hTable.strategy
      rw [DeploymentRouter.reload, hFallbacks, hStrategy]
    have hSome : ∃ target, (Snapshot.load c fallbacks strategy).Reaches req target := by
      obtain ⟨d, hd⟩ := List.exists_mem_of_ne_nil _ hBefore.1
      exact ⟨identity d, (hReaches _).mp ((hBefore.2 _).mp (List.mem_map_of_mem hd))⟩
    have hTargets := hSame req hSome
    have hAfter := resolve_reaches powf (r.reload c') req
    rw [hLoad] at hAfter
    cases hLater : ((r.reload c').resolve powf req).1 with
    | error e =>
        rw [hLater] at hAfter
        obtain ⟨target, hTarget⟩ := hSome
        exact absurd ((hTargets target).mpr hTarget) (hAfter target)
    | ok later =>
        rw [hLater] at hAfter
        refine ⟨later, rfl, fun target => ?_⟩
        rw [hAfter.2, hTargets, ← hReaches, ← hBefore.2]

/-- Two models on one provider. -/
def twoModels : Catalog where
  models := [⟨"1".toList, "a".toList⟩, ⟨"2".toList, "c".toList⟩]
  providers := [{ id := "p".toList, name := "p".toList }]
  deployments :=
    [{ id := "d".toList, modelId := "1".toList, providerId := "p".toList,
       upstreamModel := "u".toList },
     { id := "e".toList, modelId := "2".toList, providerId := "p".toList,
       upstreamModel := "u".toList }]

theorem twoModels_valid : twoModels.Valid := by
  constructor <;> decide

theorem twoModels_renames : twoModels.Renames ⟨"1".toList, "a".toList⟩ "b".toList := by
  constructor <;> decide

end Service

end Gateway
