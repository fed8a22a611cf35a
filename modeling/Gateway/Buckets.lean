import Mathlib.Algebra.GroupWithZero.Nat
import Mathlib.Data.List.Basic
import Mathlib.Order.Lattice

/-! Observations counted over bounds: how many are at most each bound, and how
many lie in each interval between them. -/
namespace Buckets

section

variable {α : Type} [LinearOrder α]

/-- The counts, one for each bound, of the observations that are at most it. -/
def cumulative (bounds obs : List α) : List Nat := bounds.map fun b => obs.countP (· ≤ b)

/-- One more observation in each count that it belongs to. -/
def bump (bounds : List α) (counts : List Nat) (x : α) : List Nat :=
  List.zipWith (fun b n => if x ≤ b then n + 1 else n) bounds counts

theorem bump_cumulative (bounds obs : List α) (x : α) :
    bump bounds (cumulative bounds obs) x = cumulative bounds (obs ++ [x]) := by
  unfold bump cumulative
  induction bounds with
  | nil => rfl
  | cons b bs ih =>
      rw [List.map_cons, List.zipWith_cons_cons, ih, List.map_cons, List.countP_append,
        List.countP_singleton]
      by_cases h : x ≤ b <;> simp [h]

/-- The steps from one count to the next and at last to the total. There is no
step down. -/
def differences : Nat → List Nat → Nat → Option (List Nat)
  | prev, [], total => if prev ≤ total then some [total - prev] else none
  | prev, n :: counts, total =>
      if prev ≤ n then (differences n counts total).map ((n - prev) :: ·) else none

/-- What is above a bound, where there is one. -/
def above (lower : Option α) (x : α) : Bool := lower.all (· < x)

/-- The interval at a place lies behind the bound before it, up to its own bound.
The last one has none. -/
def inInterval (bounds : List α) (i : Nat) (x : α) : Bool :=
  (match i with
    | 0 => true
    | j + 1 => above bounds[j]? x) && (bounds[i]?).all (x ≤ ·)

theorem inInterval_zero (b : α) (bounds : List α) (x : α) :
    inInterval (b :: bounds) 0 x = decide (x ≤ b) := by
  simp [inInterval]

/-- The intervals behind a bound, the first of them from it on. -/
def intervalsFrom (lower : Option α) : List α → List α → List Nat
  | [], obs => [obs.countP (above lower)]
  | b :: bs, obs => obs.countP (fun x => above lower x && x ≤ b) :: intervalsFrom (some b) bs obs

/-- Observations up to a bound are those up to a lower one, and those between. -/
theorem countP_split {lower b : α} (h : lower ≤ b) (obs : List α) :
    obs.countP (· ≤ b) = obs.countP (· ≤ lower) + obs.countP fun x => decide (lower < x) && x ≤ b := by
  induction obs with
  | nil => rfl
  | cons x obs ih =>
      simp only [List.countP_cons, ih]
      rcases le_or_gt x lower with hx | hx
      · simp [hx, hx.trans h, not_lt_of_ge hx]
        omega
      · by_cases hb : x ≤ b
        · simp [not_le_of_gt hx, hx, hb]
          omega
        · simp [not_le_of_gt hx, hb]

theorem countP_above (lower : α) (obs : List α) :
    obs.length = obs.countP (· ≤ lower) + obs.countP fun x => decide (lower < x) := by
  induction obs with
  | nil => rfl
  | cons x obs ih =>
      rw [List.length_cons, List.countP_cons, List.countP_cons, ih]
      rcases le_or_gt x lower with hx | hx
      · simp [hx, not_lt_of_ge hx]
        omega
      · simp [not_le_of_gt hx, hx]
        omega

/-- From a bound on, the steps between the counts are the counts of the intervals. -/
theorem differences_from {lower : α} {bounds : List α} (hOrder : (lower :: bounds).Pairwise (· < ·))
    (obs : List α) :
    differences (obs.countP (· ≤ lower)) (cumulative bounds obs) obs.length =
      some (intervalsFrom (some lower) bounds obs) := by
  induction bounds generalizing lower with
  | nil =>
      have hAll := countP_above lower obs
      rw [cumulative, List.map_nil, differences, if_pos (by omega), intervalsFrom]
      have hRest : obs.length - obs.countP (· ≤ lower) = obs.countP (above (some lower)) := by
        have hSame : obs.countP (above (some lower)) = obs.countP fun x => decide (lower < x) := rfl
        omega
      rw [hRest]
  | cons b bs ih =>
      obtain ⟨hFirst, hRest⟩ := List.pairwise_cons.mp hOrder
      have hSplit := countP_split (hFirst b List.mem_cons_self).le obs
      have hStep : obs.countP (· ≤ b) - obs.countP (· ≤ lower) =
          obs.countP fun x => above (some lower) x && x ≤ b := by
        have hSame : (obs.countP fun x => above (some lower) x && x ≤ b) =
            obs.countP fun x => decide (lower < x) && x ≤ b := rfl
        omega
      have hMore := ih hRest
      unfold cumulative at hMore ⊢
      rw [List.map_cons, differences, if_pos (by omega), hMore, Option.map_some, hStep, intervalsFrom]

/-- Where the bounds increase, the steps between the counts are the counts of the
intervals. -/
theorem differences_cumulative {bounds : List α} (hOrder : bounds.Pairwise (· < ·)) (obs : List α) :
    differences 0 (cumulative bounds obs) obs.length = some (intervalsFrom none bounds obs) := by
  cases bounds with
  | nil =>
      rw [cumulative, List.map_nil, differences, if_pos (Nat.zero_le _), intervalsFrom, Nat.sub_zero]
      exact congrArg (fun n => some [n]) (List.countP_eq_length.mpr fun _ _ => rfl).symm
  | cons b bs =>
      have hMore := differences_from hOrder obs
      unfold cumulative at hMore ⊢
      rw [List.map_cons, differences, if_pos (Nat.zero_le _), hMore, Option.map_some, Nat.sub_zero,
        intervalsFrom]
      rfl

theorem getElem?_intervalsFrom (lower : Option α) (bounds obs : List α) {i : Nat}
    (hi : i ≤ bounds.length) :
    (intervalsFrom lower bounds obs)[i]? = some (obs.countP fun x =>
      (match i with
        | 0 => above lower x
        | j + 1 => above bounds[j]? x) && (bounds[i]?).all (x ≤ ·)) := by
  induction bounds generalizing lower i with
  | nil =>
      obtain rfl : i = 0 := Nat.le_zero.mp hi
      simp [intervalsFrom]
  | cons b bs ih =>
      cases i with
      | zero => simp [intervalsFrom]
      | succ j =>
          rw [intervalsFrom, List.getElem?_cons_succ, ih (some b) (Nat.le_of_succ_le_succ hi)]
          cases j with
          | zero => rfl
          | succ k => rfl

theorem length_intervalsFrom (lower : Option α) (bounds obs : List α) :
    (intervalsFrom lower bounds obs).length = bounds.length + 1 := by
  induction bounds generalizing lower with
  | nil => rfl
  | cons b bs ih => rw [intervalsFrom, List.length_cons, ih, List.length_cons]

end

/-- The steps up to a total make it up. -/
theorem sum_differences {prev total : Nat} {counts ds : List Nat}
    (h : differences prev counts total = some ds) : prev + ds.sum = total := by
  induction counts generalizing prev ds with
  | nil =>
      rw [differences] at h
      split_ifs at h
      cases h
      simp
      omega
  | cons n counts ih =>
      rw [differences] at h
      split_ifs at h
      obtain ⟨more, hMore, rfl⟩ := Option.map_eq_some_iff.mp h
      have := ih hMore
      rw [List.sum_cons]
      omega

section

variable {α : Type} [LinearOrder α]

/-- Counts over bounds, as they are kept and as they are exported. -/
structure Sound (bounds obs : List α) (counts : List Nat) (count : Nat)
    (exported : Option (List Nat)) : Prop where
  rising : counts.Pairwise (· ≤ ·)
  bounded : ∀ n ∈ counts, n ≤ count
  exported : ∃ ds, exported = some ds ∧ ds.length = bounds.length + 1 ∧ ds.sum = count ∧
    ∀ i ≤ bounds.length, ds[i]? = some (obs.countP (inInterval bounds i))

theorem sound_cumulative {bounds : List α} (hOrder : bounds.Pairwise (· < ·)) (obs : List α) :
    Sound bounds obs (cumulative bounds obs) obs.length
      (differences 0 (cumulative bounds obs) obs.length) := by
  have hSteps := differences_cumulative hOrder obs
  refine ⟨?_, ?_, _, hSteps, length_intervalsFrom _ _ _, ?_, fun i hi => ?_⟩
  · rw [cumulative, List.pairwise_map]
    refine hOrder.imp fun {a b} hLess => List.countP_mono_left fun x _ hx => ?_
    exact decide_eq_true ((of_decide_eq_true hx).trans hLess.le)
  · rw [cumulative, List.forall_mem_map]
    exact fun b _ => List.countP_le_length
  · rw [← sum_differences hSteps, Nat.zero_add]
  · rw [getElem?_intervalsFrom none bounds obs hi]
    cases i with
    | zero => rfl
    | succ j => rfl

end

end Buckets
