import Gateway.Service.Router
import Gateway.Store.Catalog

/-! The routing table as it is built from the database, and the targets that a
name leads to in it. -/
namespace Gateway.Service

open Json Store

namespace Snapshot

/-- The table of the stored deployments and aliases. -/
def load (c : Catalog) (fallbacks : Str → Option (List Str)) (strategy : Strategy) : Snapshot :=
  build c.listDeployments fallbacks (fun name => c.listAliases.lookup name) strategy

end Snapshot

/-- The table is built again, with the same fallbacks and strategy. -/
def DeploymentRouter.reload (r : DeploymentRouter) (c : Catalog) : DeploymentRouter :=
  { r with snapshot := Snapshot.load c r.snapshot.fallbacks r.snapshot.strategy }

/-! ### Building a table -/

section

variable (deployments : List Deployment) (fallbacks : Str → Option (List Str))
  (aliases : Str → Option Str) (strategy : Strategy)

/-- What one deployment adds to the models built so far. -/
private def insert (models : Str → Option ModelEntry) (d : Deployment) : Str → Option ModelEntry :=
  Function.update models d.modelName
    (some (((models d.modelName).getD ModelEntry.empty).push d))

private theorem insert_deployments (models : Str → Option ModelEntry) (d : Deployment) (name : Str) :
    ((insert models d name).map ModelEntry.deployments).getD [] =
      ((models name).map ModelEntry.deployments).getD [] ++ [d].filter (·.modelName == name) := by
  by_cases hName : d.modelName = name
  · subst hName
    cases hModel : models d.modelName <;>
      simp [insert, Function.update_self, hModel, ModelEntry.push, ModelEntry.empty]
  · simp [insert, Function.update_of_ne (Ne.symm hName), hName]

private theorem insert_isSome (models : Str → Option ModelEntry) (d : Deployment) (name : Str) :
    (insert models d name).isSome = ((models name).isSome || d.modelName == name) := by
  by_cases hName : d.modelName = name
  · subst hName
    simp [insert, Function.update_self]
  · simp [insert, Function.update_of_ne (Ne.symm hName), hName]

private theorem foldl_insert (models : Str → Option ModelEntry) (name : Str) :
    ((deployments.foldl insert models name).map ModelEntry.deployments).getD [] =
        ((models name).map ModelEntry.deployments).getD [] ++
          deployments.filter (·.modelName == name) ∧
      (deployments.foldl insert models name).isSome =
        ((models name).isSome || deployments.any (·.modelName == name)) := by
  induction deployments generalizing models with
  | nil => simp
  | cons d rest ih =>
      obtain ⟨hDeployments, hSome⟩ := ih (insert models d)
      rw [List.foldl_cons, hDeployments, hSome, insert_deployments, insert_isSome]
      constructor
      · rw [List.append_assoc, ← List.filter_append, List.singleton_append]
      · rw [List.any_cons, Bool.or_assoc]

/-- A model's entry holds its deployments. -/
theorem deployments_build (name : Str) :
    (Snapshot.build deployments fallbacks aliases strategy).deployments name =
      deployments.filter (·.modelName == name) := by
  have hFold := (foldl_insert deployments (fun _ => none) name).1
  exact hFold

theorem models_build_isSome (name : Str) :
    ((Snapshot.build deployments fallbacks aliases strategy).models name).isSome =
      deployments.any (·.modelName == name) := by
  have hFold := (foldl_insert deployments (fun _ => none) name).2
  exact hFold

end

/-! ### Aliases -/

namespace Snapshot

theorem Same.isSome {s s' : Snapshot} (h : s.Same s') (name : Str) :
    (s'.models name).isSome = (s.models name).isSome := by
  have hModel := congrArg Option.isSome (h.models name)
  rwa [Option.isSome_map, Option.isSome_map] at hModel

theorem Same.follow {s s' : Snapshot} (h : s.Same s') (n : Nat) (name : Str) :
    s'.follow n name = s.follow n name := by
  induction n generalizing name with
  | zero => rfl
  | succ n ih =>
      rw [Snapshot.follow, Snapshot.follow, h.isSome, h.aliases]
      cases s.aliases name with
      | none => rfl
      | some target => simp only [ih]

theorem Same.names {s s' : Snapshot} (h : s.Same s') (requested : Str) :
    s'.names requested = s.names requested := by
  simp only [Snapshot.names, canonical, h.follow, h.fallbacks]

/-- Where no alias leads to another one, a name is at most one step away from
its model. -/
theorem canonical_eq {s : Snapshot} (hOneHop : ∀ name target, s.aliases name = some target →
    s.aliases target = none) (name : Str) :
    s.canonical name =
      if (s.models name).isSome then name else (s.aliases name).getD name := by
  have hStops : ∀ n target, s.aliases target = none → s.follow n target = target := by
    intro n target hNone
    cases n with
    | zero => rfl
    | succ n => rw [follow, hNone, ite_self]
  rw [canonical, follow]
  split
  · rfl
  · cases hAlias : s.aliases name with
    | none => rfl
    | some target => exact hStops 7 target (hOneHop name target hAlias)

/-! ### Targets -/

/-- The request may be sent to this target. -/
def Reaches (s : Snapshot) (req : RouteRequest) (target : Id × Str × Id) : Prop :=
  ∃ name ∈ s.names req.requestedModel, ∃ d ∈ s.eligible req name, identity d = target

theorem Same.reaches {s s' : Snapshot} (h : s.Same s') (req : RouteRequest)
    (target : Id × Str × Id) : s'.Reaches req target ↔ s.Reaches req target := by
  simp only [Reaches, h.names, h.eligible]

end Snapshot

variable (powf : Rat → Rat → Rat)

/-- The candidates are the targets that the request reaches, and there is an
error when it reaches none. -/
theorem resolve_reaches (r : DeploymentRouter) (req : RouteRequest) :
    match (r.resolve powf req).1 with
    | .ok decision => decision.candidates ≠ [] ∧
        ∀ target, target ∈ decision.candidates.map identity ↔ r.snapshot.Reaches req target
    | .error _ => ∀ target, ¬ r.snapshot.Reaches req target := by
  obtain ⟨primary, rest, hPrimary, hRest, hResolve⟩ := resolve_spec powf r req
  have hReaches : ∀ target,
      target ∈ (Firsts.fresh identity [] (primary ++ rest.flatten)).map identity ↔
        r.snapshot.Reaches req target := by
    intro target
    rw [Firsts.mem_map_fresh, List.mem_map]
    simp only [mem_groups hPrimary hRest, List.not_mem_nil, not_false_eq_true, and_true]
    constructor
    · rintro ⟨d, ⟨name, hName, hd⟩, hTarget⟩
      exact ⟨name, hName, d, hd, hTarget⟩
    · rintro ⟨name, hName, d, hd, hTarget⟩
      exact ⟨d, ⟨name, hName, hd⟩, hTarget⟩
  dsimp only at hResolve
  by_cases hNone : Firsts.fresh identity [] (primary ++ rest.flatten) = []
  · rw [if_pos hNone] at hResolve
    rw [hResolve]
    intro target hTarget
    rw [← hReaches, hNone] at hTarget
    exact absurd hTarget List.not_mem_nil
  · rw [if_neg hNone] at hResolve
    rw [hResolve]
    exact ⟨hNone, hReaches⟩

/-- A candidate is an eligible deployment of one of the models that are tried. -/
theorem mem_candidates (r : DeploymentRouter) (req : RouteRequest) {decision : Decision}
    (hResolve : (r.resolve powf req).1 = .ok decision) {d : Deployment}
    (hd : d ∈ decision.candidates) :
    ∃ name ∈ r.snapshot.names req.requestedModel, d ∈ r.snapshot.eligible req name := by
  obtain ⟨primary, rest, hPrimary, hRest, hSpec⟩ := resolve_spec powf r req
  dsimp only at hSpec
  rw [hSpec] at hResolve
  split at hResolve
  · cases hResolve
  · cases hResolve
    exact (mem_groups hPrimary hRest).mp ((Firsts.fresh_sublist identity [] _).subset hd)

end Gateway.Service
