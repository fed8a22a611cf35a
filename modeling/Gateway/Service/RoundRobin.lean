import Gateway.Service.RoutingTable
import Mathlib.Algebra.BigOperators.Intervals
import Mathlib.Order.Filter.AtTopBot.Basic

/-! Turns at a model's counter. All callers of a model take their turns at one
counter, whichever of its deployments they may use. -/
namespace Gateway.Service

open Json Filter

/-! ### The counter -/

def Snapshot.rr (s : Snapshot) (model : Str) : UInt64 :=
  ((s.models model).map ModelEntry.rr).getD 0

/-- How often a request takes a turn at a model's counter. -/
def Snapshot.turns (s : Snapshot) (req : RouteRequest) (model : Str) : Nat :=
  if s.eligible req model = [] then 0 else (s.names req.requestedModel).count model

variable (powf : Rat → Rat → Rat)

/-- A model's eligible deployments start at the counter, which moves on. -/
theorem collect_roundRobin {w : Walk} (hStrategy : w.snap.strategy = .roundRobin)
    (req : RouteRequest) (name : Str) :
    (collect powf req w name).out = w.out ++ Firsts.fresh identity w.seen
        ((w.snap.eligible req name).rotate
          ((w.snap.rr name).toNat % (w.snap.eligible req name).length)) ∧
      ∀ model, (collect powf req w name).snap.rr model =
        w.snap.rr model + if name = model ∧ w.snap.eligible req model ≠ [] then 1 else 0 := by
  rcases collect_cases powf req w name with
    ⟨hNone, hSame⟩ | ⟨entry, survivors, hEntry, hSurvivors, -, hMap, hCollect⟩
  · rw [hSame, hNone]
    refine ⟨(List.append_nil _).symm, fun model => ?_⟩
    rw [if_neg (by rintro ⟨rfl, hSome⟩; exact hSome hNone), add_zero]
  · have hSome : w.snap.eligible req name ≠ [] := by
      rw [← hMap]
      exact fun h => hSurvivors (List.map_eq_nil_iff.mp h)
    have hCounter : w.snap.rr name = entry.rr := by
      rw [Snapshot.rr, hEntry, Option.map_some, Option.getD_some]
    rw [hCollect, hStrategy]
    refine ⟨?_, fun model => ?_⟩
    · rw [hCounter, ← hMap, List.length_map, ← List.map_rotate]
      rfl
    · by_cases hName : name = model
      · subst hName
        rw [if_pos ⟨rfl, hSome⟩, hCounter]
        simp [Snapshot.rr, Function.update_self, order]
      · rw [if_neg fun h => hName h.1, add_zero]
        simp [Snapshot.rr, Function.update_of_ne (Ne.symm hName)]

theorem rr_foldl_collect {w : Walk} (hStrategy : w.snap.strategy = .roundRobin)
    (req : RouteRequest) (names : List Str) (model : Str) :
    (names.foldl (collect powf req) w).snap.rr model = w.snap.rr model +
      UInt64.ofNat (if w.snap.eligible req model = [] then 0 else names.count model) := by
  induction names generalizing w with
  | nil => simp
  | cons name rest ih =>
      obtain ⟨-, hCounter⟩ := collect_roundRobin powf hStrategy req name
      obtain ⟨-, -, -, -, hSame⟩ := collect_spec powf req w name
      rw [List.foldl_cons, ih (hSame.strategy.trans hStrategy), hCounter model, hSame.eligible,
        List.count_cons, add_assoc]
      congr 1
      by_cases hNone : w.snap.eligible req model = []
      · simp [hNone]
      · by_cases hName : name = model
        · simp [hNone, hName, add_comm]
        · simp [hNone, hName]

theorem rr_resolve {r : DeploymentRouter} (hStrategy : r.snapshot.strategy = .roundRobin)
    (req : RouteRequest) (model : Str) :
    (r.resolve powf req).2.snapshot.rr model =
      r.snapshot.rr model + UInt64.ofNat (r.snapshot.turns req model) := by
  rw [resolve_walk]
  exact rr_foldl_collect powf (w := ⟨r.snapshot, r.rng, [], []⟩) hStrategy req _ model

/-- The first choice is the counter's place among the model's eligible deployments. -/
theorem firstChoice_roundRobin {r : DeploymentRouter}
    (hStrategy : r.snapshot.strategy = .roundRobin) {req : RouteRequest} {model : Str}
    (hModel : r.snapshot.canonical req.requestedModel = model)
    (hSome : r.snapshot.eligible req model ≠ []) :
    r.firstChoice powf req = (r.snapshot.eligible req model)[
      (r.snapshot.rr model).toNat % (r.snapshot.eligible req model).length]? := by
  obtain ⟨hOut, -⟩ := collect_roundRobin powf (w := ⟨r.snapshot, r.rng, [], []⟩) hStrategy req model
  have hLater := foldl_collect_prefix powf req ((r.snapshot.fallbacks model).getD [])
    (collect powf req ⟨r.snapshot, r.rng, [], []⟩ model)
  have hPlace := Nat.mod_lt (r.snapshot.rr model).toNat (List.length_pos_iff.mpr hSome)
  rw [firstChoice_eq, DeploymentRouter.walk, Snapshot.names, hModel, List.foldl_cons]
  rw [hOut, List.nil_append] at hLater
  rw [← List.head?_rotate hPlace]
  cases hOrdered : (r.snapshot.eligible req model).rotate
      ((r.snapshot.rr model).toNat % (r.snapshot.eligible req model).length) with
  | nil => exact absurd (List.rotate_eq_nil_iff.mp hOrdered) hSome
  | cons d rest =>
      rw [hOrdered] at hLater
      obtain ⟨more, hMore⟩ := hLater
      rw [← hMore]
      rfl

/-! ### Runs -/

/-- The router after the first requests of a run. -/
def DeploymentRouter.after (r : DeploymentRouter) (reqs : ℕ → RouteRequest) :
    ℕ → DeploymentRouter
  | 0 => r
  | k + 1 => ((r.after reqs k).resolve powf (reqs k)).2

/-- How many turns at a model's counter precede a request. -/
def Snapshot.turnsBefore (s : Snapshot) (reqs : ℕ → RouteRequest) (model : Str) (k : ℕ) : ℕ :=
  ∑ j ∈ Finset.range k, s.turns (reqs j) model

theorem turnsBefore_of_one {s : Snapshot} {reqs : ℕ → RouteRequest} {model : Str}
    (hOne : ∀ j, s.turns (reqs j) model = 1) (k : ℕ) : s.turnsBefore reqs model k = k := by
  simp [Snapshot.turnsBefore, hOne]

variable {powf} {r : DeploymentRouter} {reqs : ℕ → RouteRequest}

theorem after_same (k : ℕ) : r.snapshot.Same (r.after powf reqs k).snapshot := by
  induction k with
  | zero => exact .refl _
  | succ k ih => exact ih.trans (resolve_same powf _ _)

theorem Snapshot.Same.turns {s s' : Snapshot} (h : s.Same s') (req : RouteRequest)
    (model : Str) : s'.turns req model = s.turns req model := by
  rw [Snapshot.turns, Snapshot.turns, h.eligible, h.names]

theorem rr_after (hStrategy : r.snapshot.strategy = .roundRobin) (model : Str) (k : ℕ) :
    (r.after powf reqs k).snapshot.rr model =
      r.snapshot.rr model + UInt64.ofNat (r.snapshot.turnsBefore reqs model k) := by
  induction k with
  | zero => simp [DeploymentRouter.after, Snapshot.turnsBefore]
  | succ k ih =>
      have hSame : r.snapshot.Same (r.after powf reqs k).snapshot := after_same k
      rw [DeploymentRouter.after, rr_resolve powf (hSame.strategy.trans hStrategy), ih,
        hSame.turns, Snapshot.turnsBefore, Snapshot.turnsBefore, Finset.sum_range_succ,
        UInt64.ofNat_add, add_assoc]

/-- Some requests of a run are those of a caller: they ask for one model, and may
use the same of its deployments. -/
structure Caller (s : Snapshot) (reqs : ℕ → RouteRequest) (mine : ℕ → Prop) (model : Str)
    (es : List Deployment) : Prop where
  asks : ∀ k, mine k → s.canonical (reqs k).requestedModel = model
  eligible : ∀ k, mine k → s.eligible (reqs k) model = es

/-- No deployment is left out of the first choices for ever. -/
def Cycles (powf : Rat → Rat → Rat) (r : DeploymentRouter) (reqs : ℕ → RouteRequest)
    (mine : ℕ → Prop) (es : List Deployment) : Prop :=
  ∀ d ∈ es, ∃ᶠ k in atTop, mine k ∧ (r.after powf reqs k).firstChoice powf (reqs k) = some d

/-- The turns that precede the caller's requests leave every remainder again and
again. -/
def EveryRemainder (s : Snapshot) (reqs : ℕ → RouteRequest) (mine : ℕ → Prop) (model : Str)
    (n : ℕ) : Prop :=
  ∀ place < n, ∃ᶠ k in atTop,
    mine k ∧ ((s.rr model).toNat + s.turnsBefore reqs model k) % 2 ^ 64 % n = place

/-- A caller's first choice stands at the remainder of the turns before it. -/
theorem firstChoice_after {mine : ℕ → Prop} {model : Str} {es : List Deployment}
    (hStrategy : r.snapshot.strategy = .roundRobin)
    (hCaller : Caller r.snapshot reqs mine model es) (hSome : es ≠ []) {k : ℕ} (hMine : mine k) :
    (r.after powf reqs k).firstChoice powf (reqs k) = es[
      ((r.snapshot.rr model).toNat + r.snapshot.turnsBefore reqs model k) % 2 ^ 64 %
        es.length]? := by
  have hSame : r.snapshot.Same (r.after powf reqs k).snapshot := after_same k
  have hEligible : (r.after powf reqs k).snapshot.eligible (reqs k) model = es :=
    (hSame.eligible _ _).trans (hCaller.eligible k hMine)
  have hModel : (r.after powf reqs k).snapshot.canonical (reqs k).requestedModel = model :=
    (hSame.follow 8 _).trans (hCaller.asks k hMine)
  rw [firstChoice_roundRobin powf (hSame.strategy.trans hStrategy) hModel
    (hEligible ▸ hSome), hEligible, rr_after hStrategy, UInt64.toNat_add, UInt64.toNat_ofNat',
    Nat.add_mod_mod]

/-- A caller's first choices cycle when its turns leave every remainder modulo
the number of its deployments, and only then. -/
theorem cycles_of_every_remainder {mine : ℕ → Prop} {model : Str} {es : List Deployment}
    (hStrategy : r.snapshot.strategy = .roundRobin)
    (hCaller : Caller r.snapshot reqs mine model es) :
    (EveryRemainder r.snapshot reqs mine model es.length → Cycles powf r reqs mine es) ∧
      (es.Nodup → Cycles powf r reqs mine es →
        EveryRemainder r.snapshot reqs mine model es.length) := by
  constructor
  · intro hEvery d hd
    obtain ⟨place, hPlace, hAt⟩ := List.getElem_of_mem hd
    refine (hEvery place hPlace).mono fun k hk => ⟨hk.1, ?_⟩
    rw [firstChoice_after hStrategy hCaller (List.ne_nil_of_mem hd) hk.1, hk.2,
      List.getElem?_eq_getElem hPlace, hAt]
  · intro hNodup hCycles place hPlace
    refine (hCycles es[place] (List.getElem_mem hPlace)).mono fun k hk => ⟨hk.1, ?_⟩
    have hSome : es ≠ [] := List.ne_nil_of_length_pos (lt_of_le_of_lt (Nat.zero_le _) hPlace)
    have hChoice := hk.2
    rw [firstChoice_after hStrategy hCaller hSome hk.1,
      List.getElem?_eq_getElem (Nat.mod_lt _ (List.length_pos_iff.mpr hSome)),
      Option.some.injEq] at hChoice
    exact (hNodup.getElem_inj_iff).mp hChoice

/-- A model with two deployments. -/
def pairedTargets : List Deployment :=
  [{ modelId := "m".toList, modelName := "m".toList, providerId := "p".toList },
    { modelId := "m".toList, modelName := "m".toList, providerId := "q".toList }]

def pairRouter : DeploymentRouter where
  snapshot := .build pairedTargets (fun _ => none) (fun _ => none) .roundRobin
  rng := 1

/-- A caller that may use both, and one that may use the first only. -/
def bothRequest : RouteRequest := { requestedModel := "m".toList }

def firstRequest : RouteRequest :=
  { requestedModel := "m".toList, deniedProviderIds := ["q".toList] }

/-- Alone, the caller has every turn. -/
theorem cycles_alone :
    EveryRemainder pairRouter.snapshot (fun _ => bothRequest) (fun _ => True) "m".toList 2 ∧
      Cycles (fun u _ => u) pairRouter (fun _ => bothRequest) (fun _ => True) pairedTargets :=
  have hOne : pairRouter.snapshot.turns bothRequest "m".toList = 1 := by decide +kernel
  have hEvery : EveryRemainder pairRouter.snapshot (fun _ => bothRequest) (fun _ => True)
      "m".toList 2 := by
    intro place hPlace
    refine frequently_atTop.mpr fun N => ⟨2 * N + place, by omega, trivial, ?_⟩
    have hStart : (pairRouter.snapshot.rr "m".toList).toNat = 0 := by decide +kernel
    rw [turnsBefore_of_one fun _ => hOne, hStart]
    omega
  have hCaller : Caller pairRouter.snapshot (fun _ => bothRequest) (fun _ => True) "m".toList
      pairedTargets := ⟨fun _ _ => by decide +kernel, fun _ _ => by decide +kernel⟩
  ⟨hEvery, (cycles_of_every_remainder (by decide) hCaller).1 hEvery⟩

/-- Two callers in turn. -/
def alternating (k : ℕ) : RouteRequest := if k % 2 = 0 then bothRequest else firstRequest

/-- Where another caller takes every second turn, one deployment is never the
first choice. -/
theorem alternating_not_cycles :
    Caller pairRouter.snapshot alternating (· % 2 = 0) "m".toList pairedTargets ∧
      ¬ Cycles (fun u _ => u) pairRouter alternating (· % 2 = 0) pairedTargets := by
  have hBoth : pairRouter.snapshot.turns bothRequest "m".toList = 1 := by decide +kernel
  have hFirst : pairRouter.snapshot.turns firstRequest "m".toList = 1 := by decide +kernel
  have hOne : ∀ j, pairRouter.snapshot.turns (alternating j) "m".toList = 1 := by
    intro j
    unfold alternating
    split_ifs
    · exact hBoth
    · exact hFirst
  have hCaller : Caller pairRouter.snapshot alternating (· % 2 = 0) "m".toList
      pairedTargets := by
    refine ⟨fun k hk => ?_, fun k hk => ?_⟩ <;> rw [alternating, if_pos hk] <;> decide +kernel
  refine ⟨hCaller, fun hCycles => ?_⟩
  have hSecond := hCycles (pairedTargets[1]) (by decide)
  obtain ⟨k, hEven, hChoice⟩ := hSecond.exists
  have hStart : (pairRouter.snapshot.rr "m".toList).toNat = 0 := by decide +kernel
  rw [firstChoice_after (by decide) hCaller (by decide) hEven, turnsBefore_of_one hOne, hStart,
    Nat.zero_add] at hChoice
  have hPlace : k % 2 ^ 64 % pairedTargets.length = 0 := by
    show k % 2 ^ 64 % 2 = 0
    omega
  rw [hPlace] at hChoice
  exact absurd hChoice (by decide)

end Gateway.Service
