import Gateway.Core.Access
import Gateway.Json.Parse

/-! Access policies as they are stored: as text, which may not be a policy. A
column that cannot be read is an unrestricted policy. -/
namespace Gateway.Store

open Json

structure KeyColumns where
  access : Str
  teamId : Option Id := none

structure TeamColumns where
  access : Str

section

-- The reader of a policy's text.
variable (decode : Str → Option AccessPolicy)

/-- Unrestricted on garbage. -/
def decAccess (s : Str) : AccessPolicy := (decode s).getD {}

def mapApiKey (row : KeyColumns) : ApiKey where
  access := decAccess decode row.access
  teamId := row.teamId

def mapTeam (row : TeamColumns) : Team where
  access := decAccess decode row.access

/-- The lookup of a team, which may fail. -/
def getTeam (teams : Id → Option TeamColumns) (outage : Option Error) (id : Id) :
    Except Error (Option Team) :=
  match outage with
  | some e => .error e
  | none => .ok ((teams id).map (mapTeam decode))

/-- The policy in force for a key. -/
def policyInForce (teams : Id → Option TeamColumns) (outage : Option Error) (key : KeyColumns) :
    AccessPolicy :=
  effectiveAccess (getTeam decode teams outage) (mapApiKey decode key)

/-- The ceilings of a key and its team have an id in common where both have
any. -/
def CeilingsMeet (teams : Id → Option TeamColumns) (key : KeyColumns) : Prop :=
  ∀ id team, key.teamId = some id → teams id = some team →
    ¬ Clash (decAccess decode key.access).allowedModelIds
        (decAccess decode team.access).allowedModelIds ∧
      ¬ Clash (decAccess decode key.access).allowedProviderIds
        (decAccess decode team.access).allowedProviderIds

/-- Where the lookup works and the ceilings meet, just what the key's policy and
its team's both permit is permitted; a column that cannot be read restricts
nothing, and neither does a team that is gone. -/
theorem policyInForce_iff (teams : Id → Option TeamColumns) {key : KeyColumns}
    (hMeet : CeilingsMeet decode teams key) (m p : Id) :
    (policyInForce decode teams none key).permitsPair m p = true ↔
      (decAccess decode key.access).permitsPair m p = true ∧
        ∀ id team, key.teamId = some id → teams id = some team →
          (decAccess decode team.access).permitsPair m p = true := by
  unfold policyInForce effectiveAccess mapApiKey getTeam
  dsimp only
  cases hTeam : key.teamId with
  | none => simp
  | some id =>
      dsimp only
      cases hFound : teams id with
      | none =>
          refine ⟨fun hKey => ⟨hKey, ?_⟩, fun h => h.1⟩
          rintro _ team ⟨⟩ hSome
          rw [hFound] at hSome
          cases hSome
      | some team =>
          obtain ⟨hModels, hProviders⟩ := hMeet id team hTeam hFound
          simp only [Option.map_some, mapTeam]
          rw [AccessPolicy.merge_exact_of_no_clash hModels hProviders]
          constructor
          · rintro ⟨hKey, hGranted⟩
            refine ⟨hKey, ?_⟩
            rintro _ _ ⟨⟩ hSame
            rw [hFound] at hSame
            cases hSame
            exact hGranted
          · exact fun h => ⟨h.1, h.2 id team rfl hFound⟩

end

/-! ### Reading a policy -/

def readIds : Value → Option (List Id)
  | .array items => items.mapM fun
      | .string s => some s
      | _ => none
  | _ => none

/-- A list of a policy, which may be left out. -/
def readField (name : String) (fields : List (Str × Value)) : Option (List Id) :=
  match lookupField name.toList fields with
  | some v => readIds v
  | none => some []

def readPolicy (s : Str) : Option AccessPolicy :=
  match fromStr s with
  | some (.object fields) => do
      let allowedModels ← readField "allowed_model_ids" fields
      let deniedModels ← readField "denied_model_ids" fields
      let allowedProviders ← readField "allowed_provider_ids" fields
      let deniedProviders ← readField "denied_provider_ids" fields
      some ⟨allowedModels, deniedModels, allowedProviders, deniedProviders⟩
  | _ => none

/-- A key in a team that denies a model is denied it. -/
theorem team_denies :
    (policyInForce readPolicy
      (fun _ => some ⟨"\x7b\"denied_model_ids\":[\"m\"]\x7d".toList⟩) none
      ⟨"\x7b\x7d".toList, some "t".toList⟩).permitsPair "m".toList "p".toList = false := by
  have hRead : decAccess readPolicy "\x7b\"denied_model_ids\":[\"m\"]\x7d".toList =
      { deniedModelIds := ["m".toList] } := by decide +kernel
  have hOpen : decAccess readPolicy "\x7b\x7d".toList = {} := by decide +kernel
  have hMeet : CeilingsMeet readPolicy
      (fun _ => some ⟨"\x7b\"denied_model_ids\":[\"m\"]\x7d".toList⟩)
      ⟨"\x7b\x7d".toList, some "t".toList⟩ := by
    rintro id team - ⟨⟩
    rw [hRead, hOpen]
    decide
  rw [Bool.eq_false_iff]
  intro hPermits
  have hTeam := ((policyInForce_iff readPolicy _ hMeet _ _).mp hPermits).2 _ _ rfl rfl
  rw [hRead] at hTeam
  exact absurd hTeam (by decide)

/-- A team's policy that cannot be read, as it has a comma too many, denies
nothing any more. -/
theorem unreadable_policy_widens :
    ¬ ∀ (decode : Str → Option AccessPolicy) (teams : Id → Option TeamColumns)
        (outage : Option Error) (key : KeyColumns) (m p : Id),
      (policyInForce decode teams outage key).permitsPair m p = true →
        (∃ policy, decode key.access = some policy ∧ policy.permitsPair m p = true) ∧
          ∀ id team, key.teamId = some id → teams id = some team →
            ∃ policy, decode team.access = some policy ∧ policy.permitsPair m p = true := by
  intro h
  have hRead : readPolicy "\x7b\"denied_model_ids\":[\"m\"],\x7d".toList = none := by
    decide +kernel
  obtain ⟨-, hTeam⟩ := h readPolicy
    (fun _ => some ⟨"\x7b\"denied_model_ids\":[\"m\"],\x7d".toList⟩) none
    ⟨"\x7b\x7d".toList, some "t".toList⟩ "m".toList "p".toList (by decide +kernel)
  obtain ⟨policy, hSome, -⟩ := hTeam _ _ rfl rfl
  rw [hRead] at hSome
  cases hSome

end Gateway.Store
