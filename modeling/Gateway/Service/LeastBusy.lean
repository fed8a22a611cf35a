import Gateway.Service.RoutingTable

/-! The counters of the least-busy strategy against the requests that are in
flight. A counter goes up with a request and never down. -/
namespace Gateway.Service

open Json Store

abbrev Target := Id × Str × Id

/-! ### One request -/

variable (powf : Rat → Rat → Rat)

/-- The eligible deployment whose counter is lowest comes first, and is counted. -/
theorem collect_leastBusy {w : Walk} (hStrategy : w.snap.strategy = .leastBusy)
    {req : RouteRequest} {name : Str} (hSome : w.snap.eligible req name ≠ []) :
    ∃ entry i rest, w.snap.models name = some entry ∧
      req.eligible (entry.deployments.get i) = true ∧
      (∀ j, req.eligible (entry.deployments.get j) = true → entry.loadOf i ≤ entry.loadOf j) ∧
      (collect powf req w name).out =
        w.out ++ Firsts.fresh identity w.seen (entry.deployments.get i :: rest) ∧
      (collect powf req w name).snap.models =
        Function.update w.snap.models name (some (entry.busier i)) := by
  rcases collect_cases powf req w name with
    ⟨hNone, -⟩ | ⟨entry, survivors, hEntry, hSurvivors, hMem, -, hCollect⟩
  · exact absurd hNone hSome
  have hSorted : (survivors.insertionSort fun i j => entry.loadOf i ≤ entry.loadOf j).Pairwise
      fun i j => entry.loadOf i ≤ entry.loadOf j :=
    haveI : Std.Total fun i j => entry.loadOf i ≤ entry.loadOf j :=
      ⟨fun _ _ => UInt64.le_total _ _⟩
    haveI : IsTrans _ fun i j => entry.loadOf i ≤ entry.loadOf j :=
      ⟨fun _ _ _ => UInt64.le_trans⟩
    List.pairwise_insertionSort _ survivors
  have hPerm := List.perm_insertionSort (fun i j => entry.loadOf i ≤ entry.loadOf j) survivors
  rw [hStrategy] at hCollect
  unfold order at hCollect
  dsimp only at hCollect
  cases hOrder : survivors.insertionSort fun i j => entry.loadOf i ≤ entry.loadOf j with
  | nil =>
      rw [hOrder] at hPerm
      exact absurd hPerm.nil_eq.symm hSurvivors
  | cons i rest =>
      rw [hOrder] at hPerm hSorted hCollect
      refine ⟨entry, i, rest.map entry.deployments.get, hEntry, ?_, ?_, ?_, ?_⟩
      · exact (hMem i).mp (hPerm.subset List.mem_cons_self)
      · intro j hj
        rcases List.mem_cons.mp (hPerm.symm.subset ((hMem j).mpr hj)) with rfl | hRest
        · exact UInt64.le_refl _
        · exact (List.pairwise_cons.mp hSorted).1 j hRest
      · rw [hCollect]
        rfl
      · rw [hCollect]
        rfl

/-- The names that a request is served under, those with an eligible
deployment. -/
def Snapshot.serving (s : Snapshot) (req : RouteRequest) : List Str :=
  (s.names req.requestedModel).filter fun name => !(s.eligible req name).isEmpty

/-- The deployments among which the first candidate is chosen. -/
def Snapshot.leading (s : Snapshot) (req : RouteRequest) : List Deployment :=
  ((s.serving req).head?.map (s.eligible req)).getD []

/-- Where a request is served under one name, one of its deployments is
counted. -/
theorem foldl_collect_leastBusy {w : Walk} (hStrategy : w.snap.strategy = .leastBusy)
    {req : RouteRequest} {names : List Str} {model : Str}
    (hServing : (names.filter fun name => !(w.snap.eligible req name).isEmpty) = [model]) :
    ∃ entry i rest, w.snap.models model = some entry ∧
      req.eligible (entry.deployments.get i) = true ∧
      (∀ j, req.eligible (entry.deployments.get j) = true → entry.loadOf i ≤ entry.loadOf j) ∧
      (names.foldl (collect powf req) w).out =
        w.out ++ Firsts.fresh identity w.seen (entry.deployments.get i :: rest) ∧
      (names.foldl (collect powf req) w).snap.models =
        Function.update w.snap.models model (some (entry.busier i)) := by
  induction names with
  | nil => cases hServing
  | cons name rest ih =>
      by_cases hNone : w.snap.eligible req name = []
      · rw [List.filter_cons_of_neg (by simp [hNone])] at hServing
        rw [List.foldl_cons, collect_of_none powf hNone]
        exact ih hServing
      · rw [List.filter_cons_of_pos (by simp [hNone]), List.cons.injEq] at hServing
        obtain ⟨rfl, hRest⟩ := hServing
        obtain ⟨-, -, -, -, hSame⟩ := collect_spec powf req w name
        have hLater : ∀ other ∈ rest, (collect powf req w name).snap.eligible req other = [] := by
          intro other hOther
          rw [hSame.eligible]
          simpa using List.filter_eq_nil_iff.mp hRest other hOther
        rw [List.foldl_cons, foldl_collect_of_none powf hLater]
        exact collect_leastBusy powf hStrategy hNone

theorem resolve_leastBusy {r : DeploymentRouter} (hStrategy : r.snapshot.strategy = .leastBusy)
    {req : RouteRequest} {model : Str} (hServing : r.snapshot.serving req = [model]) :
    ∃ entry i, r.snapshot.models model = some entry ∧
      req.eligible (entry.deployments.get i) = true ∧
      (∀ j, req.eligible (entry.deployments.get j) = true → entry.loadOf i ≤ entry.loadOf j) ∧
      r.firstChoice powf req = some (entry.deployments.get i) ∧
      (r.resolve powf req).2.snapshot.models =
        Function.update r.snapshot.models model (some (entry.busier i)) := by
  obtain ⟨entry, i, rest, hEntry, hEligible, hLeast, hOut, hModels⟩ :=
    foldl_collect_leastBusy powf (w := ⟨r.snapshot, r.rng, [], []⟩) hStrategy hServing
  refine ⟨entry, i, hEntry, hEligible, hLeast, ?_, ?_⟩
  · rw [firstChoice_eq, DeploymentRouter.walk, hOut]
    rfl
  · rw [resolve_walk]
    exact hModels

/-- A request that nothing serves is answered with an error, and not counted. -/
theorem resolve_unserved {r : DeploymentRouter} {req : RouteRequest}
    (hServing : r.snapshot.serving req = []) :
    r.firstChoice powf req = none ∧ (r.resolve powf req).2.snapshot = r.snapshot := by
  have hNone : ∀ name ∈ r.snapshot.names req.requestedModel,
      r.snapshot.eligible req name = [] := by
    intro name hName
    simpa using List.filter_eq_nil_iff.mp hServing name hName
  have hWalk : r.walk powf req = ⟨r.snapshot, r.rng, [], []⟩ :=
    foldl_collect_of_none powf (w := ⟨r.snapshot, r.rng, [], []⟩) hNone
  rw [firstChoice_eq, resolve_walk, hWalk]
  exact ⟨rfl, rfl⟩

/-! ### Targets apart -/

/-- No two deployments of the table have one target. -/
structure Snapshot.Distinct (s : Snapshot) : Prop where
  within : ∀ name, ((s.deployments name).map identity).Nodup
  apart : ∀ name other, name ≠ other → ∀ d ∈ s.deployments name, ∀ d' ∈ s.deployments other,
    identity d ≠ identity d'

theorem Snapshot.Same.deployments {s s' : Snapshot} (h : s.Same s') (name : Str) :
    s'.deployments name = s.deployments name := by
  rw [Snapshot.deployments, Snapshot.deployments, h.models]

theorem Snapshot.Same.distinct {s s' : Snapshot} (h : s.Same s') (hDistinct : s.Distinct) :
    s'.Distinct where
  within name := h.deployments name ▸ hDistinct.within name
  apart name other hOther := by
    rw [h.deployments, h.deployments]
    exact hDistinct.apart name other hOther

/-- The unique index on live deployments. -/
def DistinctTargets (c : Catalog) : Prop :=
  ((c.deployments.filter (·.deletedAt.isNone)).map fun row =>
    ((row.providerId, row.upstreamModel, row.modelId) : Target)).Nodup

theorem deployment_eq_some {c : Catalog} {row : DeploymentRow} {d : Deployment}
    (h : c.deployment row = some d) :
    row.deletedAt.isNone = true ∧ identity d = (row.providerId, row.upstreamModel, row.modelId) := by
  unfold Catalog.deployment at h
  split at h
  · next hLive _ _ =>
      cases h
      exact ⟨by rw [hLive]; rfl, rfl⟩
  · cases h

theorem nodup_listDeployments {c : Catalog} (h : DistinctTargets c) :
    (c.listDeployments.map identity).Nodup := by
  have hSublist : ((c.deployments.filterMap c.deployment).map identity).Sublist
      ((c.deployments.filter (·.deletedAt.isNone)).map fun row =>
        ((row.providerId, row.upstreamModel, row.modelId) : Target)) := by
    induction c.deployments with
    | nil => exact .slnil
    | cons row rest ih =>
        rw [List.filterMap_cons, List.filter_cons]
        cases hRow : c.deployment row with
        | none =>
            dsimp only
            split
            · exact ih.cons _
            · exact ih
        | some d =>
            obtain ⟨hLive, hIdentity⟩ := deployment_eq_some hRow
            rw [if_pos hLive, List.map_cons, List.map_cons, hIdentity]
            exact ih.cons_cons _
  have hPerm := (List.perm_insertionSort (fun a b => Catalog.before a b = true)
    (c.deployments.filterMap c.deployment)).map identity
  exact hPerm.nodup_iff.mpr (h.sublist hSublist)

theorem distinct_load {c : Catalog} (h : DistinctTargets c) (fallbacks : Str → Option (List Str))
    (strategy : Strategy) : (Snapshot.load c fallbacks strategy).Distinct := by
  have hNodup := nodup_listDeployments h
  constructor
  · intro name
    rw [Snapshot.load, deployments_build]
    exact hNodup.sublist (List.filter_sublist.map identity)
  · intro name other hOther d hd d' hd' hSame
    rw [Snapshot.load, deployments_build, List.mem_filter, beq_iff_eq] at hd hd'
    have hEq := List.inj_on_of_nodup_map hNodup hd.1 hd'.1 hSame
    exact hOther (hd.2.symm.trans (hEq ▸ hd'.2))

/-! ### Counters -/

/-- Where every counter of a table is. -/
def Snapshot.Loads (s : Snapshot) (P : Deployment → UInt64 → Prop) : Prop :=
  ∀ name entry, s.models name = some entry → ∀ i, P (entry.deployments.get i) (entry.loadOf i)

theorem loadOf_busier (entry : ModelEntry) (i j : Fin entry.deployments.length) :
    (entry.busier i).loadOf j = if j = i then entry.loadOf i + 1 else entry.loadOf j := by
  unfold ModelEntry.loadOf ModelEntry.busier
  simp only [List.get_eq_getElem, Fin.val_cast, List.getElem_set, Fin.ext_iff, eq_comm]
  rfl

theorem forall_busier {entry : ModelEntry} {i : Fin entry.deployments.length}
    {P : Deployment → UInt64 → Prop} (hAt : P (entry.deployments.get i) (entry.loadOf i + 1))
    (hElse : ∀ j, j ≠ i → P (entry.deployments.get j) (entry.loadOf j)) :
    ∀ j, P ((entry.busier i).deployments.get j) ((entry.busier i).loadOf j) := by
  intro (j : Fin entry.deployments.length)
  show P (entry.deployments.get j) ((entry.busier i).loadOf j)
  have hLoad := loadOf_busier entry i j
  by_cases hPlace : j = i
  · subst hPlace
    rw [if_pos rfl] at hLoad
    exact hLoad ▸ hAt
  · rw [if_neg hPlace] at hLoad
    exact hLoad ▸ hElse j hPlace

theorem loads_build (deployments : List Deployment) (fallbacks : Str → Option (List Str))
    (aliases : Str → Option Str) (strategy : Strategy) :
    (Snapshot.build deployments fallbacks aliases strategy).Loads fun _ load => load = 0 := by
  suffices hFold : ∀ start : Str → Option ModelEntry,
      (∀ name entry, start name = some entry → ∀ load ∈ entry.load, load = 0) →
      ∀ name entry, deployments.foldl (fun (models : Str → Option ModelEntry) d =>
        Function.update models d.modelName
          (some (((models d.modelName).getD ModelEntry.empty).push d))) start name = some entry →
        ∀ load ∈ entry.load, load = 0 by
    intro name entry hEntry i
    exact hFold (fun _ => none) (fun _ _ h => nomatch h) name entry hEntry _ (List.get_mem _ _)
  induction deployments with
  | nil => exact fun start hStart => hStart
  | cons d rest ih =>
      intro start hStart
      refine ih _ fun name entry hEntry => ?_
      dsimp only at hEntry
      by_cases hName : name = d.modelName
      · subst hName
        rw [Function.update_self, Option.some.injEq] at hEntry
        subst hEntry
        intro load hLoad
        rcases List.mem_append.mp hLoad with hOld | hNew
        · cases hModel : start d.modelName with
          | none =>
              rw [hModel] at hOld
              exact absurd hOld List.not_mem_nil
          | some old =>
              rw [hModel] at hOld
              exact hStart _ old hModel load hOld
        · exact List.mem_singleton.mp hNew
      · rw [Function.update_of_ne hName] at hEntry
        exact hStart name entry hEntry

/-! ### Requests in flight -/

/-- The router, and what becomes of the requests that it routes. -/
structure Traffic where
  router : DeploymentRouter
  /-- The requests in flight on a target. -/
  flight : Target → ℕ
  /-- Since the table was built: the requests that ended on a target or moved
  away from it, less those that moved to it. -/
  gone : Target → ℤ
  /-- The requests routed since the table was built. -/
  routed : ℕ

inductive Event where
  | route (req : RouteRequest)
  /-- An attempt fails, and the request moves on. -/
  | failover (a b : Target)
  /-- A request ends, in whichever way. -/
  | finish (a : Target)
  | reload (c : Catalog)

namespace Traffic

def start (c : Catalog) (fallbacks : Str → Option (List Str)) (rng : UInt64) : Traffic where
  router := ⟨.load c fallbacks .leastBusy, rng⟩
  flight := fun _ => 0
  gone := fun _ => 0
  routed := 0

def begins (t : Traffic) (a : Target) : Traffic :=
  { t with flight := Function.update t.flight a (t.flight a + 1) }

def leaves (t : Traffic) (a : Target) : Traffic :=
  { t with
    flight := Function.update t.flight a (t.flight a - 1)
    gone := Function.update t.gone a (t.gone a + 1) }

def arrives (t : Traffic) (a : Target) : Traffic :=
  { t with
    flight := Function.update t.flight a (t.flight a + 1)
    gone := Function.update t.gone a (t.gone a - 1) }

def step (t : Traffic) : Event → Traffic
  | .route req =>
      let routed := { t with router := (t.router.resolve powf req).2, routed := t.routed + 1 }
      match t.router.firstChoice powf req with
      | some d => routed.begins (identity d)
      | none => routed
  | .failover a b => (t.leaves a).arrives b
  | .finish a => t.leaves a
  | .reload c => { t with router := t.router.reload c, gone := fun _ => 0, routed := 0 }

/-- Only a request in flight ends or moves, and the database keeps its index. -/
def Possible (t : Traffic) : Event → Prop
  | .route _ => True
  | .failover a _ | .finish a => 0 < t.flight a
  | .reload c => DistinctTargets c

/-- The counters are not led astray. A request is served under one name, and as
many requests have left each of its deployments; the table is built again when
nothing is in flight. -/
def Orderly (t : Traffic) : Event → Prop
  | .route req =>
      (t.router.snapshot.serving req).length ≤ 1 ∧
        (∀ d ∈ t.router.snapshot.leading req, ∀ d' ∈ t.router.snapshot.leading req,
          t.gone (identity d) = t.gone (identity d')) ∧
        t.routed + 1 < 2 ^ 64
  | .failover _ _ | .finish _ => True
  | .reload _ => ∀ a, t.flight a = 0

/-- A counter holds the requests in flight and those that are gone. -/
def Counts (t : Traffic) (d : Deployment) (load : UInt64) : Prop :=
  (load.toNat : ℤ) = t.flight (identity d) + t.gone (identity d) ∧ load.toNat ≤ t.routed

structure Inv (t : Traffic) : Prop where
  strategy : t.router.snapshot.strategy = .leastBusy
  distinct : t.router.snapshot.Distinct
  loads : t.router.snapshot.Loads t.Counts

/-- What a run reaches, by steps of a kind. -/
inductive Reaches (Allowed : Traffic → Event → Prop) (t₀ : Traffic) : Traffic → Prop where
  | start : Reaches Allowed t₀ t₀
  | step {t : Traffic} (e : Event) : Reaches Allowed t₀ t → Allowed t e →
      Reaches Allowed t₀ (t.step powf e)

theorem inv_start {c : Catalog} (h : DistinctTargets c) (fallbacks : Str → Option (List Str))
    (rng : UInt64) : (start c fallbacks rng).Inv where
  strategy := rfl
  distinct := distinct_load h fallbacks .leastBusy
  loads name entry hEntry i := by
    have hZero : entry.loadOf i = 0 := loads_build _ _ _ _ name entry hEntry i
    rw [hZero]
    exact ⟨rfl, le_refl _⟩

theorem inv_leaves {t : Traffic} (h : t.Inv) {a : Target} (hBusy : 0 < t.flight a) :
    (t.leaves a).Inv where
  strategy := h.strategy
  distinct := h.distinct
  loads name entry hEntry i := by
    obtain ⟨hLoad, hBound⟩ := h.loads name entry hEntry i
    refine ⟨hLoad.trans ?_, hBound⟩
    simp only [leaves, Function.update_apply]
    split_ifs with hSame
    · rw [hSame]
      omega
    · rfl

theorem inv_arrives {t : Traffic} (h : t.Inv) (a : Target) : (t.arrives a).Inv where
  strategy := h.strategy
  distinct := h.distinct
  loads name entry hEntry i := by
    obtain ⟨hLoad, hBound⟩ := h.loads name entry hEntry i
    refine ⟨hLoad.trans ?_, hBound⟩
    simp only [arrives, Function.update_apply]
    split_ifs with hSame
    · rw [hSame]
      omega
    · rfl

theorem step_route_none {t : Traffic} {req : RouteRequest}
    (hFirst : t.router.firstChoice powf req = none) :
    t.step powf (.route req) =
      { t with router := (t.router.resolve powf req).2, routed := t.routed + 1 } := by
  rw [step, hFirst]

theorem step_route_some {t : Traffic} {req : RouteRequest} {d : Deployment}
    (hFirst : t.router.firstChoice powf req = some d) :
    t.step powf (.route req) =
      { t with
        router := (t.router.resolve powf req).2
        routed := t.routed + 1
        flight := Function.update t.flight (identity d) (t.flight (identity d) + 1) } := by
  rw [step, hFirst]
  rfl

/-- In a table of distinct targets, places with one target are one place. -/
theorem place_eq {s : Snapshot} (h : s.Distinct) {name other : Str} {entry entry' : ModelEntry}
    (hEntry : s.models name = some entry) (hEntry' : s.models other = some entry')
    {i : Fin entry.deployments.length} {j : Fin entry'.deployments.length}
    (hSame : identity (entry.deployments.get i) = identity (entry'.deployments.get j)) :
    name = other ∧ i.val = j.val := by
  have hDeployments : s.deployments name = entry.deployments := by
    rw [Snapshot.deployments, hEntry, Option.map_some, Option.getD_some]
  have hDeployments' : s.deployments other = entry'.deployments := by
    rw [Snapshot.deployments, hEntry', Option.map_some, Option.getD_some]
  have hName : name = other := by
    by_contra hOther
    have hApart := h.apart name other hOther
    rw [hDeployments, hDeployments'] at hApart
    exact hApart _ (List.get_mem _ i) _ (List.get_mem _ j) hSame
  subst hName
  have hWithin := h.within name
  rw [hEntry, Option.some.injEq] at hEntry'
  subst hEntry'
  rw [hDeployments] at hWithin
  refine ⟨rfl, ?_⟩
  refine (@List.Nodup.getElem_inj_iff _ _ hWithin _ (by simp) _ (by simp)).mp ?_
  simpa using hSame

theorem inv_route {t : Traffic} (h : t.Inv) {req : RouteRequest}
    (hOrderly : t.Orderly (.route req)) : (t.step powf (.route req)).Inv := by
  obtain ⟨hOne, -, hRoom⟩ := hOrderly
  have hSame := resolve_same powf t.router req
  cases hServing : t.router.snapshot.serving req with
  | nil =>
      obtain ⟨hFirst, hSnap⟩ := resolve_unserved powf hServing
      rw [step_route_none powf hFirst]
      refine ⟨hSame.strategy.trans h.strategy, hSame.distinct h.distinct, ?_⟩
      intro name entry hEntry i
      rw [hSnap] at hEntry
      obtain ⟨hLoad, hBound⟩ := h.loads name entry hEntry i
      exact ⟨hLoad, Nat.le_succ_of_le hBound⟩
  | cons model rest =>
      have hRest : rest = [] := by
        rw [hServing, List.length_cons] at hOne
        exact List.eq_nil_of_length_eq_zero (by omega)
      subst hRest
      obtain ⟨entry, i, hEntry, -, -, hFirst, hModels⟩ := resolve_leastBusy powf h.strategy hServing
      rw [step_route_some powf hFirst]
      refine ⟨hSame.strategy.trans h.strategy, hSame.distinct h.distinct, ?_⟩
      intro name entry' hEntry'
      rw [hModels] at hEntry'
      by_cases hName : name = model
      · subst hName
        rw [Function.update_self, Option.some.injEq] at hEntry'
        subst hEntry'
        refine forall_busier (P := Counts _) ?_ ?_
        · -- the one that is counted has one request more in flight
          obtain ⟨hLoad, hBound⟩ := h.loads name entry hEntry i
          have hCount : (entry.loadOf i + 1).toNat = (entry.loadOf i).toNat + 1 := by
            rw [UInt64.toNat_add, UInt64.toNat_one]
            omega
          unfold Counts
          dsimp only
          rw [hCount, Function.update_self]
          omega
        · intro j hPlace
          obtain ⟨hLoad, hBound⟩ := h.loads name entry hEntry j
          refine ⟨?_, Nat.le_succ_of_le hBound⟩
          dsimp only
          rw [Function.update_of_ne fun hTarget =>
            hPlace (Fin.ext (place_eq h.distinct hEntry hEntry hTarget).2)]
          exact hLoad
      · rw [Function.update_of_ne hName] at hEntry'
        intro j
        obtain ⟨hLoad, hBound⟩ := h.loads name entry' hEntry' j
        refine ⟨?_, Nat.le_succ_of_le hBound⟩
        dsimp only
        rw [Function.update_of_ne fun hTarget =>
          hName (place_eq h.distinct hEntry' hEntry hTarget).1]
        exact hLoad

theorem inv_step {t : Traffic} (h : t.Inv) {e : Event} (hPossible : t.Possible e)
    (hOrderly : t.Orderly e) : (t.step powf e).Inv := by
  cases e with
  | route req => exact inv_route powf h hOrderly
  | failover a b => exact inv_arrives (inv_leaves h hPossible) b
  | finish a => exact inv_leaves h hPossible
  | reload c =>
      have hStart := inv_start hPossible t.router.snapshot.fallbacks t.router.rng
      refine ⟨h.strategy, ?_, ?_⟩
      · exact distinct_load hPossible _ _
      · intro name entry hEntry i
        have hZero : entry.loadOf i = 0 := loads_build _ _ _ _ name entry hEntry i
        rw [hZero]
        refine ⟨?_, le_refl _⟩
        have hIdle := hOrderly (identity (entry.deployments.get i))
        show ((0 : UInt64).toNat : ℤ) = t.flight _ + 0
        rw [hIdle]
        rfl

theorem inv_reaches {t₀ t : Traffic} (h : t₀.Inv)
    (hRun : Reaches powf (fun t e => t.Possible e ∧ t.Orderly e) t₀ t) : t.Inv := by
  induction hRun with
  | start => exact h
  | step e _ hAllowed ih => exact inv_step powf ih hAllowed.1 hAllowed.2

/-- Along an orderly run the first candidate has the fewest requests in flight. -/
theorem first_candidate_least_busy {c : Catalog} (hDistinct : DistinctTargets c)
    (fallbacks : Str → Option (List Str)) (rng : UInt64) {t : Traffic}
    (hRun : Reaches powf (fun t e => t.Possible e ∧ t.Orderly e) (start c fallbacks rng) t)
    {req : RouteRequest} (hOrderly : t.Orderly (.route req)) {d : Deployment}
    (hFirst : t.router.firstChoice powf req = some d) :
    ∀ d' ∈ t.router.snapshot.leading req, t.flight (identity d) ≤ t.flight (identity d') := by
  have hInv := inv_reaches powf (inv_start hDistinct fallbacks rng) hRun
  obtain ⟨hOne, hGone, -⟩ := hOrderly
  intro d' hd'
  cases hServing : t.router.snapshot.serving req with
  | nil =>
      rw [Snapshot.leading, hServing] at hd'
      exact absurd hd' List.not_mem_nil
  | cons model rest =>
      have hRest : rest = [] := by
        rw [hServing, List.length_cons] at hOne
        exact List.eq_nil_of_length_eq_zero (by omega)
      subst hRest
      obtain ⟨entry, i, hEntry, hEligible, hLeast, hChosen, -⟩ :=
        resolve_leastBusy powf hInv.strategy hServing
      have hLeading : t.router.snapshot.leading req = entry.deployments.filter req.eligible := by
        rw [Snapshot.leading, hServing, List.head?_cons, Option.map_some, Option.getD_some,
          Snapshot.eligible, Snapshot.deployments, hEntry, Option.map_some, Option.getD_some]
      rw [hFirst, Option.some.injEq] at hChosen
      subst hChosen
      rw [hLeading] at hGone hd'
      have hSame := hGone _ (List.mem_filter.mpr ⟨List.get_mem _ i, hEligible⟩) d' hd'
      obtain ⟨hMem, hAlso⟩ := List.mem_filter.mp hd'
      obtain ⟨j, rfl⟩ := List.mem_iff_get.mp hMem
      -- as many are gone from both, so the counters compare what is in flight
      have hLoads := UInt64.le_iff_toNat_le.mp (hLeast j hAlso)
      have hHere := (hInv.loads model entry hEntry i).1
      have hThere := (hInv.loads model entry hEntry j).1
      omega

end Traffic

/-- A model on two providers. -/
def pairCatalog : Catalog where
  models := [⟨"m".toList, "m".toList⟩]
  providers := [⟨"p".toList, "p".toList, false⟩, ⟨"q".toList, "q".toList, false⟩]
  deployments := [
    { id := "1".toList, modelId := "m".toList, providerId := "p".toList,
      upstreamModel := "u".toList },
    { id := "2".toList, modelId := "m".toList, providerId := "q".toList,
      upstreamModel := "u".toList }]

def pairTraffic : Traffic := .start pairCatalog (fun _ => none) 1

def routeBoth : Event := .route { requestedModel := "m".toList }

def firstTarget : Target := ("p".toList, "u".toList, "m".toList)

def secondTarget : Target := ("q".toList, "u".toList, "m".toList)

/-- The state after some events. -/
def Traffic.after (t : Traffic) (events : List Event) : Traffic :=
  events.foldl (Traffic.step fun u _ => u) t

theorem distinct_pairCatalog : DistinctTargets pairCatalog := by
  unfold DistinctTargets
  decide +kernel

/-- With one request in flight, the next one goes elsewhere. -/
theorem second_request_least_busy :
    ∃ d, (pairTraffic.after [routeBoth]).router.firstChoice (fun u _ => u)
        { requestedModel := "m".toList } = some d ∧ identity d = secondTarget ∧
      ∀ d' ∈ (pairTraffic.after [routeBoth]).router.snapshot.leading
          { requestedModel := "m".toList },
        (pairTraffic.after [routeBoth]).flight (identity d) ≤
          (pairTraffic.after [routeBoth]).flight (identity d') := by
  have hStart : pairTraffic.Orderly routeBoth :=
    ⟨by decide +kernel, by decide +kernel, by decide +kernel⟩
  have hNext : (pairTraffic.after [routeBoth]).Orderly routeBoth :=
    ⟨by decide +kernel, by decide +kernel, by decide +kernel⟩
  have hSome : ((pairTraffic.after [routeBoth]).router.firstChoice (fun u _ => u)
      { requestedModel := "m".toList }).map identity = some secondTarget := by decide +kernel
  obtain ⟨d, hFirst, hTarget⟩ := Option.map_eq_some_iff.mp hSome
  exact ⟨d, hFirst, hTarget, Traffic.first_candidate_least_busy _ distinct_pairCatalog
    (fun _ => none) 1 (.step routeBoth .start ⟨trivial, hStart⟩) hNext hFirst⟩

/-- Two requests have ended on the first deployment and one is in flight on the
second, which is chosen all the same. -/
def countsDrift : List Event :=
  [routeBoth, .finish firstTarget, routeBoth, routeBoth, .finish firstTarget]

theorem busy_deployment_first :
    Traffic.Reaches (fun u _ => u) Traffic.Possible pairTraffic (pairTraffic.after countsDrift) ∧
      ((pairTraffic.after countsDrift).router.firstChoice (fun u _ => u)
        { requestedModel := "m".toList }).map identity = some secondTarget ∧
      firstTarget ∈ ((pairTraffic.after countsDrift).router.snapshot.leading
        { requestedModel := "m".toList }).map identity ∧
      (pairTraffic.after countsDrift).flight firstTarget = 0 ∧
      (pairTraffic.after countsDrift).flight secondTarget = 1 := by
  refine ⟨?_, by decide +kernel, by decide +kernel, by decide +kernel, by decide +kernel⟩
  have hBusy : (pairTraffic.after [routeBoth]).Possible (.finish firstTarget) :=
    Nat.lt_of_lt_of_eq (by decide) (by decide +kernel :
      1 = (pairTraffic.after [routeBoth]).flight firstTarget)
  have hAgain :
      (pairTraffic.after [routeBoth, .finish firstTarget, routeBoth, routeBoth]).Possible
        (.finish firstTarget) :=
    Nat.lt_of_lt_of_eq (by decide) (by decide +kernel : 1 =
      (pairTraffic.after [routeBoth, .finish firstTarget, routeBoth, routeBoth]).flight
        firstTarget)
  have hTwo : Traffic.Reaches (fun u _ => u) Traffic.Possible pairTraffic
      (pairTraffic.after [routeBoth, .finish firstTarget]) :=
    .step (.finish firstTarget) (.step routeBoth .start trivial) hBusy
  exact .step (.finish firstTarget) (.step routeBoth (.step routeBoth hTwo trivial) trivial) hAgain

end Gateway.Service
