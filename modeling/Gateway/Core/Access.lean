import Gateway.Core.Routing

/-! Access policies: the lists of model and provider ids a key or a team
carries, how the gateway combines them, and where it consults the result. -/
namespace Gateway

open Json

/-! ### One pair of lists -/

section Lists

variable {α : Type} [DecidableEq α]

/-- The test both axes make: deny wins, and a non-empty allow-list is a
ceiling. -/
def permits (denied allowed : List α) (id : α) : Bool :=
  if denied.any (· == id) then false
  else if !allowed.isEmpty && !allowed.any (· == id) then false
  else true

def union (a b : List α) : List α :=
  b.foldl (fun out x => if !out.contains x then out ++ [x] else out) a

def intersectAllow (a b : List α) : List α :=
  if a.isEmpty then b
  else if b.isEmpty then a
  else a.filter (fun x => b.contains x)

/-- Two ceilings with no id in common. -/
def Clash (a b : List α) : Prop := a ≠ [] ∧ b ≠ [] ∧ ∀ x ∈ a, x ∉ b

instance (a b : List α) : Decidable (Clash a b) :=
  inferInstanceAs (Decidable (_ ∧ _ ∧ _))

theorem permits_iff (denied allowed : List α) (id : α) :
    permits denied allowed id = true ↔ id ∉ denied ∧ (allowed = [] ∨ id ∈ allowed) := by
  unfold permits
  by_cases hDenied : id ∈ denied
  · simp [hDenied]
  · by_cases hAllowed : allowed = [] <;> by_cases hMem : id ∈ allowed <;>
      simp_all

theorem mem_union (a b : List α) (x : α) : x ∈ union a b ↔ x ∈ a ∨ x ∈ b := by
  unfold union
  induction b generalizing a with
  | nil => simp
  | cons y ys ih =>
      rw [List.foldl_cons, ih]
      by_cases hMem : y ∈ a
      · rw [if_neg (by simp [hMem]), List.mem_cons]
        constructor
        · exact fun h => h.imp_right Or.inr
        · rintro (h | rfl | h)
          · exact Or.inl h
          · exact Or.inl hMem
          · exact Or.inr h
      · rw [if_pos (by simp [hMem])]
        simp [or_assoc]

theorem mem_intersectAllow {a b : List α} (ha : a ≠ []) (hb : b ≠ []) (x : α) :
    x ∈ intersectAllow a b ↔ x ∈ a ∧ x ∈ b := by
  simp [intersectAllow, ha, hb]

/-- The intersection of two ceilings is empty, which reads as no ceiling,
exactly when they clash; an absent ceiling defers to the other. -/
theorem intersectAllow_eq_nil_iff (a b : List α) :
    intersectAllow a b = [] ↔ (a = [] ∧ b = []) ∨ Clash a b := by
  by_cases ha : a = []
  · simp [intersectAllow, ha, Clash]
  · by_cases hb : b = []
    · simp [intersectAllow, ha, hb, Clash]
    · simp [intersectAllow, ha, hb, Clash, List.filter_eq_nil_iff]

/-- What one axis of a merged policy admits: an id that both sides admit, or,
where the ceilings clash, any id that neither side denies. -/
theorem permits_merged_iff (denied denied' allowed allowed' : List α) (id : α) :
    permits (union denied denied') (intersectAllow allowed allowed') id = true ↔
      (permits denied allowed id = true ∧ permits denied' allowed' id = true) ∨
        (Clash allowed allowed' ∧ id ∉ denied ∧ id ∉ denied') := by
  simp only [permits_iff, mem_union, intersectAllow_eq_nil_iff, not_or]
  by_cases ha : allowed = []
  · subst ha
    simp only [intersectAllow, List.isEmpty_nil, if_true, Clash]
    tauto
  · by_cases hb : allowed' = []
    · subst hb
      simp only [intersectAllow, List.isEmpty_iff, ha, if_false, List.isEmpty_nil, if_true, Clash]
      tauto
    · rw [mem_intersectAllow ha hb]
      simp only [ha, hb, false_and, false_or]
      tauto

/-- The ceilings of clashing lists admit no id together. -/
theorem not_permits_both_of_clash {denied denied' allowed allowed' : List α}
    (clash : Clash allowed allowed') (id : α) :
    ¬ (permits denied allowed id = true ∧ permits denied' allowed' id = true) := by
  obtain ⟨ha, hb, hDisjoint⟩ := clash
  simp only [permits_iff, ha, hb, false_or]
  exact fun h => hDisjoint id h.1.2 h.2.2

end Lists

/-! ### Policies -/

structure AccessPolicy where
  allowedModelIds : List Id := []
  deniedModelIds : List Id := []
  allowedProviderIds : List Id := []
  deniedProviderIds : List Id := []
  deriving DecidableEq

namespace AccessPolicy

variable (a b : AccessPolicy)

def isUnrestricted : Bool :=
  a.allowedModelIds.isEmpty && a.deniedModelIds.isEmpty &&
    a.allowedProviderIds.isEmpty && a.deniedProviderIds.isEmpty

def permitsModel (modelId : Id) : Bool :=
  permits a.deniedModelIds a.allowedModelIds modelId

def permitsProvider (providerId : Id) : Bool :=
  permits a.deniedProviderIds a.allowedProviderIds providerId

def merge : AccessPolicy where
  allowedModelIds := intersectAllow a.allowedModelIds b.allowedModelIds
  deniedModelIds := union a.deniedModelIds b.deniedModelIds
  allowedProviderIds := intersectAllow a.allowedProviderIds b.allowedProviderIds
  deniedProviderIds := union a.deniedProviderIds b.deniedProviderIds

/-- The pair of a deployment, on both axes. -/
def permitsPair (modelId providerId : Id) : Bool :=
  a.permitsModel modelId && a.permitsProvider providerId

/-- A model that the merged policy admits only because the model ceilings
clash. -/
def WidensModel (modelId : Id) : Prop :=
  Clash a.allowedModelIds b.allowedModelIds ∧
    modelId ∉ a.deniedModelIds ∧ modelId ∉ b.deniedModelIds

def WidensProvider (providerId : Id) : Prop :=
  Clash a.allowedProviderIds b.allowedProviderIds ∧
    providerId ∉ a.deniedProviderIds ∧ providerId ∉ b.deniedProviderIds

theorem merge_permitsModel_iff (m : Id) :
    (a.merge b).permitsModel m = true ↔
      (a.permitsModel m = true ∧ b.permitsModel m = true) ∨ a.WidensModel b m :=
  permits_merged_iff ..

theorem merge_permitsProvider_iff (p : Id) :
    (a.merge b).permitsProvider p = true ↔
      (a.permitsProvider p = true ∧ b.permitsProvider p = true) ∨ a.WidensProvider b p :=
  permits_merged_iff ..

/-- Merging never takes away what both sides grant. -/
theorem permitsPair_merge_of_both {m p : Id} (ha : a.permitsPair m p = true)
    (hb : b.permitsPair m p = true) : (a.merge b).permitsPair m p = true := by
  simp only [permitsPair, Bool.and_eq_true] at ha hb ⊢
  exact ⟨(merge_permitsModel_iff a b m).mpr (Or.inl ⟨ha.1, hb.1⟩),
    (merge_permitsProvider_iff a b p).mpr (Or.inl ⟨ha.2, hb.2⟩)⟩

/-- The merged policy is exact on a pair unless clashing ceilings admit the
pair: one of its two ids is widened in, and the other is widened in as well or
granted by both sides. -/
theorem merge_permitsPair_iff (m p : Id) :
    ((a.merge b).permitsPair m p = true ↔
        a.permitsPair m p = true ∧ b.permitsPair m p = true) ↔
      ¬ (a.WidensModel b m ∧
          (a.WidensProvider b p ∨ (a.permitsProvider p = true ∧ b.permitsProvider p = true))) ∧
        ¬ ((a.permitsModel m = true ∧ b.permitsModel m = true) ∧ a.WidensProvider b p) := by
  have hModel : a.WidensModel b m → ¬ (a.permitsModel m = true ∧ b.permitsModel m = true) :=
    fun h => not_permits_both_of_clash h.1 m
  have hProvider :
      a.WidensProvider b p → ¬ (a.permitsProvider p = true ∧ b.permitsProvider p = true) :=
    fun h => not_permits_both_of_clash h.1 p
  simp only [permitsPair, Bool.and_eq_true, merge_permitsModel_iff, merge_permitsProvider_iff]
  by_cases hModels : a.WidensModel b m
  · have hNone := hModel hModels
    by_cases hProviders : a.WidensProvider b p <;> simp only [hModels, hNone, hProviders] <;> grind
  · by_cases hProviders : a.WidensProvider b p
    · have hNone := hProvider hProviders
      simp only [hModels, hNone, hProviders]
      grind
    · simp only [hModels, hProviders]
      grind

/-- A key limited to one model in a team limited to another: the merged
policy has no ceiling left, and grants a model neither of them does. -/
theorem merge_disjoint_widens :
    ¬ ∀ (a b : AccessPolicy) (m p : Id),
      ((a.merge b).permitsPair m p = true ↔
        a.permitsPair m p = true ∧ b.permitsPair m p = true) := by
  intro h
  have := h { allowedModelIds := ["a".toList] } { allowedModelIds := ["b".toList] }
    "c".toList "p".toList
  revert this
  decide

/-- Policies whose ceilings never clash merge exactly. -/
theorem merge_exact_of_no_clash {a b : AccessPolicy}
    (models : ¬ Clash a.allowedModelIds b.allowedModelIds)
    (providers : ¬ Clash a.allowedProviderIds b.allowedProviderIds) (m p : Id) :
    (a.merge b).permitsPair m p = true ↔
      a.permitsPair m p = true ∧ b.permitsPair m p = true :=
  (merge_permitsPair_iff a b m p).mpr
    ⟨fun h => models h.1.1, fun h => providers h.2.1⟩

end AccessPolicy

/-! ### Where the merged policy is consulted -/

structure Team where
  access : AccessPolicy

structure ApiKey where
  access : AccessPolicy
  teamId : Option Id

/-- The key's own grant merged with its team's. A team that cannot be read, or
is gone, leaves the key's grant alone. -/
def effectiveAccess {ε : Type} (getTeam : Id → Except ε (Option Team)) (key : ApiKey) :
    AccessPolicy :=
  match key.teamId with
  | none => key.access
  | some teamId =>
      match getTeam teamId with
      | .ok (some team) => key.access.merge team.access
      | _ => key.access

structure RequestCtx where
  apiKeyId : Option Id := none
  userId : Option Id := none
  teamId : Option Id := none
  requestId : Str := []
  access : AccessPolicy
  excludedModelIds : List Id
  excludedProviderIds : List Id
  /-- Whether the turn's tokens are charged to a limit. -/
  tokenMeter : Bool := false

def filterAccess (candidates : List Deployment) (ctx : RequestCtx) : List Deployment :=
  candidates.filter fun d =>
    if !ctx.access.permitsModel d.modelId || !ctx.access.permitsProvider d.providerId then false
    else !ctx.excludedModelIds.contains d.modelId &&
      !ctx.excludedProviderIds.contains d.providerId

/-- Every candidate left is one the policy in force grants. -/
theorem permitsPair_of_mem_filterAccess {candidates : List Deployment} {ctx : RequestCtx}
    {d : Deployment} (h : d ∈ filterAccess candidates ctx) :
    ctx.access.permitsPair d.modelId d.providerId = true := by
  obtain ⟨-, h⟩ := List.mem_filter.mp h
  split_ifs at h with hDenied
  simpa [AccessPolicy.permitsPair, not_or] using hDenied

/-- With ceilings that do not clash, a key in a team is served only what both
the key and the team grant. -/
theorem filterAccess_effectiveAccess {ε : Type} {getTeam : Id → Except ε (Option Team)}
    {key : ApiKey} {teamId : Id} {team : Team} {ctx : RequestCtx} {candidates : List Deployment}
    (inTeam : key.teamId = some teamId) (found : getTeam teamId = .ok (some team))
    (effective : ctx.access = effectiveAccess getTeam key)
    (models : ¬ Clash key.access.allowedModelIds team.access.allowedModelIds)
    (providers : ¬ Clash key.access.allowedProviderIds team.access.allowedProviderIds) :
    ∀ d ∈ filterAccess candidates ctx,
      key.access.permitsPair d.modelId d.providerId = true ∧
        team.access.permitsPair d.modelId d.providerId = true := by
  intro d hd
  have h := permitsPair_of_mem_filterAccess hd
  rw [effective, effectiveAccess, inTeam] at h
  simp only [found] at h
  exact (AccessPolicy.merge_exact_of_no_clash models providers _ _).mp h

end Gateway
