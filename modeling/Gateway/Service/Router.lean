import Gateway.Core.Access
import Gateway.Firsts
import Mathlib.Data.List.Rotate
import Mathlib.Data.List.Sort
import Mathlib.Data.UInt
import Mathlib.Logic.Function.Basic
import Mathlib.Data.Rat.Defs
import Mathlib.Algebra.Order.Ring.Rat

/-! The router: it expands the name of a model into the deployments to try. The
table is a snapshot of the database; the counters and the random state that
order the deployments change with every request. -/
namespace Gateway.Service

open Json

inductive Strategy where
  | simple
  | roundRobin
  | leastBusy
  deriving DecidableEq

def strategyName : Strategy → Str
  | .simple => "simple".toList
  | .roundRobin => "round_robin".toList
  | .leastBusy => "least_busy".toList

/-- The deployments of a model with the state that orders them. -/
structure ModelEntry where
  deployments : List Deployment
  rr : UInt64
  load : List UInt64
  sized : load.length = deployments.length

namespace ModelEntry

def empty : ModelEntry where
  deployments := []
  rr := 0
  load := []
  sized := rfl

def push (entry : ModelEntry) (d : Deployment) : ModelEntry where
  deployments := entry.deployments ++ [d]
  rr := entry.rr
  load := entry.load ++ [0]
  sized := by rw [List.length_append, List.length_append, entry.sized]; rfl

def loadOf (entry : ModelEntry) (i : Fin entry.deployments.length) : UInt64 :=
  entry.load.get (i.cast entry.sized.symm)

/-- One more request to the `i`-th deployment. -/
def busier (entry : ModelEntry) (i : Fin entry.deployments.length) : ModelEntry :=
  { entry with
    load := entry.load.set i (entry.loadOf i + 1)
    sized := by rw [List.length_set, entry.sized] }

end ModelEntry

structure Snapshot where
  models : Str → Option ModelEntry
  fallbacks : Str → Option (List Str)
  /-- From an alias to the name of its model. -/
  aliases : Str → Option Str
  strategy : Strategy

namespace Snapshot

/-- A flat list of deployments, grouped by the name of the model. -/
def build (deployments : List Deployment) (fallbacks : Str → Option (List Str))
    (aliases : Str → Option Str) (strategy : Strategy) : Snapshot where
  models := deployments.foldl (fun models d =>
    Function.update models d.modelName
      (some (((models d.modelName).getD ModelEntry.empty).push d))) (fun _ => none)
  fallbacks := fallbacks
  aliases := aliases
  strategy := strategy

/-- At most `n` steps along the aliases. A model wins over an alias of its
name. -/
def follow (s : Snapshot) : Nat → Str → Str
  | 0, name => name
  | n + 1, name =>
      if (s.models name).isSome then name
      else match s.aliases name with
        | some target => follow s n target
        | none => name

def canonical (s : Snapshot) (requested : Str) : Str := s.follow 8 requested

end Snapshot

/-! ### Requests -/

structure RouteRequest where
  requestedModel : Str
  excludedModelIds : List Id := []
  /-- If some, only these providers. -/
  enabledProviderIds : Option (List Id) := none
  deniedProviderIds : List Id := []

structure Decision where
  candidates : List Deployment
  reason : Str

/-- A request as the caller's policy restricts it. -/
def buildRouteRequest (model : Str) (ctx : RequestCtx) : RouteRequest where
  requestedModel := model
  excludedModelIds := union ctx.excludedModelIds ctx.access.deniedModelIds
  enabledProviderIds :=
    if ctx.access.allowedProviderIds.isEmpty then none else some ctx.access.allowedProviderIds
  deniedProviderIds := union ctx.excludedProviderIds ctx.access.deniedProviderIds

/-- What makes two deployments one target. -/
def identity (d : Deployment) : Id × Str × Id := (d.providerId, d.upstreamModel, d.modelId)

def RouteRequest.eligible (req : RouteRequest) (d : Deployment) : Bool :=
  if req.excludedModelIds.contains d.modelId then false
  else if (match req.enabledProviderIds with
      | some enabled => !enabled.contains d.providerId
      | none => false) then false
  else if req.deniedProviderIds.contains d.providerId then false
  else true

/-! ### The order of a model's deployments -/

/-- The next random number in `[0, 1)`, by xorshift. -/
def nextUnit (rng : UInt64) : Rat × UInt64 :=
  let x := if rng == 0 then 0x9E3779B97F4A7C15 else rng
  let x := x ^^^ (x <<< 13)
  let x := x ^^^ (x >>> 7)
  let x := x ^^^ (x <<< 17)
  ((x >>> 11).toNat / 2 ^ 53, x)

section

-- The power of floating-point numbers.
variable (powf : Rat → Rat → Rat)

/-- A random key for each deployment, larger for a heavier one in expectation. -/
def keyed (entry : ModelEntry) : UInt64 → List (Fin entry.deployments.length) →
    List (Rat × Fin entry.deployments.length) × UInt64
  | rng, [] => ([], rng)
  | rng, i :: rest =>
      let (u, rng) := nextUnit rng
      let (later, rng) := keyed entry rng rest
      ((powf u (1 / max (entry.deployments.get i).weight 1), i) :: later, rng)

/-- The deployments in the order to try them, and the state they leave. -/
def order (strategy : Strategy) (entry : ModelEntry) (rng : UInt64)
    (survivors : List (Fin entry.deployments.length)) :
    List Deployment × ModelEntry × UInt64 :=
  match strategy with
  | .simple =>
      let (keys, rng) := keyed powf entry rng survivors
      let sorted := keys.insertionSort fun a b => b.1 ≤ a.1
      (sorted.map fun k => entry.deployments.get k.2, entry, rng)
  | .roundRobin =>
      let n := survivors.length
      let start := entry.rr.toNat % n
      ((survivors.rotate start).map entry.deployments.get, { entry with rr := entry.rr + 1 }, rng)
  | .leastBusy =>
      let sorted := survivors.insertionSort fun i j => entry.loadOf i ≤ entry.loadOf j
      let entry' := match sorted.head? with
        | some first => entry.busier first
        | none => entry
      (sorted.map entry.deployments.get, entry', rng)

/-- The list of candidates as it grows. -/
structure Walk where
  snap : Snapshot
  rng : UInt64
  out : List Deployment
  seen : List (Id × Str × Id)

/-- The model's eligible deployments are added, those that are not there yet. -/
def collect (req : RouteRequest) (w : Walk) (model : Str) : Walk :=
  match w.snap.models model with
  | none => w
  | some entry =>
      let survivors := (List.finRange entry.deployments.length).filter fun i =>
        req.eligible (entry.deployments.get i)
      if survivors.isEmpty then w
      else
        let (ordered, entry', rng) := order powf w.snap.strategy entry w.rng survivors
        let (out, seen) := ordered.foldl (Firsts.pick identity) (w.out, w.seen)
        { snap := { w.snap with models := Function.update w.snap.models model (some entry') }
          rng := rng
          out := out
          seen := seen }

structure DeploymentRouter where
  snapshot : Snapshot
  rng : UInt64

/-- The names whose deployments are tried, in order. -/
def Snapshot.names (s : Snapshot) (requested : Str) : List Str :=
  s.canonical requested :: (s.fallbacks (s.canonical requested)).getD []

def reason (requested : Str) (n : Nat) (strategy : Strategy) : Str :=
  "resolved '".toList ++ requested ++ "' to ".toList ++ (Nat.repr n).toList ++
    " candidate(s) via ".toList ++ strategyName strategy ++ " strategy".toList

def DeploymentRouter.resolve (r : DeploymentRouter) (req : RouteRequest) :
    Except Error Decision × DeploymentRouter :=
  let model := r.snapshot.canonical req.requestedModel
  let w := collect powf req ⟨r.snapshot, r.rng, [], []⟩ model
  let w := match r.snapshot.fallbacks model with
    | some fbs => fbs.foldl (collect powf req) w
    | none => w
  (if w.out.isEmpty then .error (.noEligibleProvider req.requestedModel)
    else .ok
      { candidates := w.out
        reason := reason req.requestedModel w.out.length r.snapshot.strategy },
    { snapshot := w.snap, rng := w.rng })

/-! ### What a request resolves to -/

namespace Snapshot

variable (s : Snapshot)

def deployments (name : Str) : List Deployment :=
  ((s.models name).map ModelEntry.deployments).getD []

/-- The deployments of a model that the request may use. -/
def eligible (req : RouteRequest) (name : Str) : List Deployment :=
  (s.deployments name).filter req.eligible

/-- Two snapshots differ in their counters only. -/
structure Same (s s' : Snapshot) : Prop where
  models : ∀ name, (s'.models name).map ModelEntry.deployments =
    (s.models name).map ModelEntry.deployments
  fallbacks : s'.fallbacks = s.fallbacks
  aliases : s'.aliases = s.aliases
  strategy : s'.strategy = s.strategy

variable {s}

theorem Same.refl (s : Snapshot) : Same s s := ⟨fun _ => rfl, rfl, rfl, rfl⟩

theorem Same.trans {s' s'' : Snapshot} (h : Same s s') (h' : Same s' s'') : Same s s'' :=
  ⟨fun name => (h'.models name).trans (h.models name), h'.fallbacks.trans h.fallbacks,
    h'.aliases.trans h.aliases, h'.strategy.trans h.strategy⟩

theorem Same.eligible {s' : Snapshot} (h : Same s s') (req : RouteRequest) (name : Str) :
    s'.eligible req name = s.eligible req name := by
  rw [Snapshot.eligible, Snapshot.eligible, deployments, deployments, h.models name]

end Snapshot

theorem keyed_snd (entry : ModelEntry) (rng : UInt64)
    (survivors : List (Fin entry.deployments.length)) :
    (keyed powf entry rng survivors).1.map Prod.snd = survivors := by
  induction survivors generalizing rng with
  | nil => rfl
  | cons i rest ih =>
      show i :: (keyed powf entry (nextUnit rng).2 rest).1.map Prod.snd = i :: rest
      rw [ih]

/-- Whatever the strategy, every survivor is ordered once. -/
theorem order_perm (strategy : Strategy) (entry : ModelEntry) (rng : UInt64)
    (survivors : List (Fin entry.deployments.length)) :
    (order powf strategy entry rng survivors).1.Perm
      (survivors.map entry.deployments.get) := by
  cases strategy with
  | simple =>
      have hSorted := List.perm_insertionSort (fun a b => b.1 ≤ a.1)
        (keyed powf entry rng survivors).1
      have hMapped := hSorted.map fun k => entry.deployments.get k.2
      have hKeys : (keyed powf entry rng survivors).1.map (fun k => entry.deployments.get k.2) =
          survivors.map entry.deployments.get := by
        conv_rhs => rw [← keyed_snd powf entry rng survivors, List.map_map]
        rfl
      rwa [hKeys] at hMapped
  | roundRobin =>
      exact (List.rotate_perm survivors _).map _
  | leastBusy =>
      exact (List.perm_insertionSort _ survivors).map _

theorem order_deployments (strategy : Strategy) (entry : ModelEntry) (rng : UInt64)
    (survivors : List (Fin entry.deployments.length)) :
    (order powf strategy entry rng survivors).2.1.deployments = entry.deployments := by
  cases strategy with
  | simple => rfl
  | roundRobin => rfl
  | leastBusy =>
      unfold order
      dsimp only
      split <;> rfl

theorem survivors_map (entry : ModelEntry) (req : RouteRequest) :
    ((List.finRange entry.deployments.length).filter fun i =>
        req.eligible (entry.deployments.get i)).map entry.deployments.get =
      entry.deployments.filter req.eligible := by
  conv_rhs => rw [← List.map_get_finRange entry.deployments, List.filter_map]
  rfl

/-- A model without eligible deployments is passed over; those of another are
added in their order. -/
theorem collect_cases (req : RouteRequest) (w : Walk) (model : Str) :
    (w.snap.eligible req model = [] ∧ collect powf req w model = w) ∨
      ∃ entry survivors, w.snap.models model = some entry ∧ survivors ≠ [] ∧
        (∀ i, i ∈ survivors ↔ req.eligible (entry.deployments.get i) = true) ∧
        survivors.map entry.deployments.get = w.snap.eligible req model ∧
        let ordered := order powf w.snap.strategy entry w.rng survivors
        collect powf req w model =
          { snap := { w.snap with
              models := Function.update w.snap.models model (some ordered.2.1) }
            rng := ordered.2.2
            out := w.out ++ Firsts.fresh identity w.seen ordered.1
            seen := Firsts.seenAfter identity w.seen ordered.1 } := by
  cases hEntry : w.snap.models model with
  | none => exact .inl ⟨by simp [Snapshot.eligible, Snapshot.deployments, hEntry],
      by simp [collect, hEntry]⟩
  | some entry =>
      have hEligible : w.snap.eligible req model = entry.deployments.filter req.eligible := by
        simp [Snapshot.eligible, Snapshot.deployments, hEntry]
      have hMap := survivors_map entry req
      have hMem : ∀ i, i ∈ (List.finRange entry.deployments.length).filter (fun i =>
          req.eligible (entry.deployments.get i)) ↔
            req.eligible (entry.deployments.get i) = true := by
        intro i
        simp only [List.mem_filter, List.mem_finRange, true_and]
      rw [← hEligible] at hMap
      generalize hSurvivors : (List.finRange entry.deployments.length).filter (fun i =>
        req.eligible (entry.deployments.get i)) = survivors at hMap hMem
      by_cases hEmpty : survivors.isEmpty = true
      · refine .inl ⟨?_, ?_⟩
        · rw [← hMap, List.isEmpty_iff.mp hEmpty, List.map_nil]
        · simp only [collect, hEntry, hSurvivors, hEmpty, if_true]
      · refine .inr ⟨entry, survivors, rfl, ?_, hMem, hMap, ?_⟩
        · exact fun h => hEmpty (List.isEmpty_iff.mpr h)
        · simp only [collect, hEntry, hSurvivors, hEmpty, Firsts.foldl_pick,
            Bool.false_eq_true, if_false]

theorem collect_of_none {req : RouteRequest} {w : Walk} {model : Str}
    (hNone : w.snap.eligible req model = []) : collect powf req w model = w := by
  rcases collect_cases powf req w model with ⟨-, hSame⟩ | ⟨_, _, -, hSurvivors, -, hMap, -⟩
  · exact hSame
  · exact absurd (List.map_eq_nil_iff.mp (hMap.trans hNone)) hSurvivors

theorem foldl_collect_of_none {req : RouteRequest} {w : Walk} {names : List Str}
    (hNone : ∀ name ∈ names, w.snap.eligible req name = []) :
    names.foldl (collect powf req) w = w := by
  induction names with
  | nil => rfl
  | cons name rest ih =>
      rw [List.foldl_cons, collect_of_none powf (hNone name List.mem_cons_self)]
      exact ih fun other hOther => hNone other (List.mem_cons_of_mem _ hOther)

/-- The model's eligible deployments are added in some order, less those whose
target is there already. -/
theorem collect_spec (req : RouteRequest) (w : Walk) (model : Str) :
    ∃ ordered, ordered.Perm (w.snap.eligible req model) ∧
      (collect powf req w model).out = w.out ++ Firsts.fresh identity w.seen ordered ∧
      (collect powf req w model).seen = Firsts.seenAfter identity w.seen ordered ∧
      w.snap.Same (collect powf req w model).snap := by
  rcases collect_cases powf req w model with
    ⟨hNone, hSame⟩ | ⟨entry, survivors, hEntry, -, -, hMap, hCollect⟩
  · rw [hNone, hSame]
    exact ⟨[], List.Perm.refl _, (List.append_nil _).symm, rfl, .refl _⟩
  · have hOrder := order_perm powf w.snap.strategy entry w.rng survivors
    have hKept := order_deployments powf w.snap.strategy entry w.rng survivors
    rw [hMap] at hOrder
    refine ⟨_, hOrder, ?_⟩
    rw [hCollect]
    refine ⟨rfl, rfl, ?_, rfl, rfl, rfl⟩
    intro name
    by_cases hName : name = model
    · subst hName
      simp [Function.update_self, hEntry, hKept]
    · simp [Function.update_of_ne hName]

/-- The same for several models in turn. -/
theorem collect_all (req : RouteRequest) (w : Walk) (models : List Str) :
    ∃ groups, List.Forall₂ (fun name group => group.Perm (w.snap.eligible req name)) models groups ∧
      (models.foldl (collect powf req) w).out =
        w.out ++ Firsts.fresh identity w.seen groups.flatten := by
  induction models generalizing w with
  | nil => exact ⟨[], .nil, by simp [Firsts.fresh]⟩
  | cons model rest ih =>
      obtain ⟨ordered, hPerm, hOut, hSeen, hSame⟩ := collect_spec powf req w model
      obtain ⟨groups, hGroups, hRest⟩ := ih (collect powf req w model)
      refine ⟨ordered :: groups, .cons hPerm ?_, ?_⟩
      · exact hGroups.imp fun name group h => hSame.eligible req name ▸ h
      · rw [List.foldl_cons, hRest, hOut, hSeen, List.flatten_cons, Firsts.fresh_append,
          List.append_assoc]

/-- The candidates as they are collected, name after name. -/
def DeploymentRouter.walk (r : DeploymentRouter) (req : RouteRequest) : Walk :=
  (r.snapshot.names req.requestedModel).foldl (collect powf req) ⟨r.snapshot, r.rng, [], []⟩

theorem resolve_walk (r : DeploymentRouter) (req : RouteRequest) :
    r.resolve powf req =
      (if (r.walk powf req).out.isEmpty then .error (.noEligibleProvider req.requestedModel)
        else .ok
          { candidates := (r.walk powf req).out
            reason := reason req.requestedModel (r.walk powf req).out.length
              r.snapshot.strategy },
        { snapshot := (r.walk powf req).snap, rng := (r.walk powf req).rng }) := by
  unfold DeploymentRouter.resolve DeploymentRouter.walk Snapshot.names
  dsimp only
  cases r.snapshot.fallbacks (r.snapshot.canonical req.requestedModel) <;> rfl

/-- A request resolves to the eligible deployments of the model, in some order,
and then to those of each fallback, each target once. -/
theorem resolve_spec (r : DeploymentRouter) (req : RouteRequest) :
    ∃ primary rest,
      primary.Perm (r.snapshot.eligible req (r.snapshot.canonical req.requestedModel)) ∧
      List.Forall₂ (fun name group => group.Perm (r.snapshot.eligible req name))
        ((r.snapshot.fallbacks (r.snapshot.canonical req.requestedModel)).getD []) rest ∧
      let out := Firsts.fresh identity [] (primary ++ rest.flatten)
      (r.resolve powf req).1 =
        if out = [] then .error (.noEligibleProvider req.requestedModel)
        else .ok
          { candidates := out
            reason := reason req.requestedModel out.length r.snapshot.strategy } := by
  have hAll := collect_all powf req ⟨r.snapshot, r.rng, [], []⟩
    (r.snapshot.names req.requestedModel)
  obtain ⟨groups, hGroups, hOut⟩ := hAll
  rw [Snapshot.names] at hGroups
  cases hGroups with
  | cons hPrimary hRest =>
      refine ⟨_, _, hPrimary, hRest, ?_⟩
      rw [List.nil_append, List.flatten_cons] at hOut
      rw [resolve_walk, DeploymentRouter.walk, hOut]
      simp only [List.isEmpty_iff]

/-- What a group holds is eligible in one of the models that are tried, and
nothing that is eligible there is missing. -/
theorem mem_groups {s : Snapshot} {req : RouteRequest} {primary : List Deployment}
    {rest : List (List Deployment)} {model : Str} {fbs : List Str}
    (hPrimary : primary.Perm (s.eligible req model))
    (hRest : List.Forall₂ (fun name group => group.Perm (s.eligible req name)) fbs rest)
    {d : Deployment} :
    d ∈ primary ++ rest.flatten ↔ ∃ name ∈ model :: fbs, d ∈ s.eligible req name := by
  have hFlat : d ∈ rest.flatten ↔ ∃ name ∈ fbs, d ∈ s.eligible req name := by
    induction hRest with
    | nil => simp
    | cons hGroup _ ih => simp [ih, hGroup.mem_iff]
  rw [List.mem_append, hFlat, hPrimary.mem_iff]
  simp

/-- The candidates are the eligible deployments of the model in some order, then
those of each fallback. No target is there twice, none is excluded or denied,
and none that is eligible is missing. Only when nothing is eligible is there an
error. -/
theorem resolve_candidates (r : DeploymentRouter) (req : RouteRequest) :
    let s := r.snapshot
    let model := s.canonical req.requestedModel
    ∃ primary rest,
      primary.Perm (s.eligible req model) ∧
      List.Forall₂ (fun name group => group.Perm (s.eligible req name))
        ((s.fallbacks model).getD []) rest ∧
      let out := Firsts.fresh identity [] (primary ++ rest.flatten)
      (r.resolve powf req).1 =
          (if out = [] then .error (.noEligibleProvider req.requestedModel)
          else .ok
            { candidates := out
              reason := reason req.requestedModel out.length s.strategy }) ∧
        (out.map identity).Nodup ∧
        (((s.eligible req model).map identity).Nodup → primary <+: out) ∧
        (∀ d ∈ out, req.eligible d = true) ∧
        (∀ name ∈ s.names req.requestedModel, ∀ d ∈ s.eligible req name,
          identity d ∈ out.map identity) ∧
        (out = [] ↔ ∀ name ∈ s.names req.requestedModel, s.eligible req name = []) := by
  intro s model
  obtain ⟨primary, rest, hPrimary, hRest, hResolve⟩ := resolve_spec powf r req
  refine ⟨primary, rest, hPrimary, hRest, hResolve, Firsts.nodup_fresh identity _ _, ?_, ?_, ?_, ?_⟩
  · intro hNodup
    have hSelf : Firsts.fresh identity [] primary = primary :=
      Firsts.fresh_eq_self identity (((hPrimary.map identity).nodup_iff).mpr hNodup)
        (fun _ _ => List.not_mem_nil)
    rw [Firsts.fresh_append, hSelf]
    exact List.prefix_append _ _
  · intro d hd
    have hIn := (Firsts.fresh_sublist identity [] _).subset hd
    obtain ⟨name, -, hEligible⟩ := (mem_groups hPrimary hRest).mp hIn
    exact (List.mem_filter.mp hEligible).2
  · intro name hName d hd
    apply (Firsts.mem_map_fresh identity).mpr
    exact ⟨List.mem_map_of_mem ((mem_groups hPrimary hRest).mpr ⟨name, hName, hd⟩),
      List.not_mem_nil⟩
  · rw [Firsts.fresh_eq_nil_iff]
    constructor
    · intro hNone name hName
      rw [List.eq_nil_iff_forall_not_mem]
      intro d hd
      exact List.not_mem_nil (hNone d ((mem_groups hPrimary hRest).mpr ⟨name, hName, hd⟩))
    · intro hNone d hd
      obtain ⟨name, hName, hEligible⟩ := (mem_groups hPrimary hRest).mp hd
      rw [hNone name hName] at hEligible
      exact absurd hEligible List.not_mem_nil

/-! ### One request after another -/

theorem foldl_collect_same (req : RouteRequest) (names : List Str) (w : Walk) :
    w.snap.Same (names.foldl (collect powf req) w).snap := by
  induction names generalizing w with
  | nil => exact .refl _
  | cons name rest ih =>
      obtain ⟨-, -, -, -, hSame⟩ := collect_spec powf req w name
      exact hSame.trans (ih _)

/-- Whatever is collected later comes after what is there. -/
theorem foldl_collect_prefix (req : RouteRequest) (names : List Str) (w : Walk) :
    w.out <+: (names.foldl (collect powf req) w).out := by
  obtain ⟨groups, -, hOut⟩ := collect_all powf req w names
  exact ⟨_, hOut.symm⟩

/-- A request leaves everything but the counters alone. -/
theorem resolve_same (r : DeploymentRouter) (req : RouteRequest) :
    r.snapshot.Same (r.resolve powf req).2.snapshot := by
  rw [resolve_walk]
  exact foldl_collect_same powf req _ ⟨r.snapshot, r.rng, [], []⟩

/-- The deployment that a request is sent to before any other. -/
def DeploymentRouter.firstChoice (r : DeploymentRouter) (req : RouteRequest) :
    Option Deployment :=
  match (r.resolve powf req).1 with
  | .ok decision => decision.candidates.head?
  | .error _ => none

theorem firstChoice_eq (r : DeploymentRouter) (req : RouteRequest) :
    r.firstChoice powf req = (r.walk powf req).out.head? := by
  rw [DeploymentRouter.firstChoice, resolve_walk]
  cases (r.walk powf req).out <;> rfl

end

end Gateway.Service
