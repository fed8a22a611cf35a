import Mathlib.Data.List.NodupEquivFin
import Mathlib.Data.List.Range
import Mathlib.Data.List.Sort

/-! Numbered rows, in any order. When the numbers are all those below a bound,
each once, to sort the rows is to look each of them up. -/
namespace Numbered

variable {α : Type} (rows : List (Nat × α))

/-- The value of a number that one row has. -/
def only (i : Nat) : Option α :=
  match rows.filter (·.1 == i) with
  | [row] => some row.2
  | _ => none

def sorted : List (Nat × α) := rows.insertionSort fun a b => a.1 ≤ b.1

/-- All numbers below a bound, each once. -/
def Complete (bound : Nat) : Prop := (rows.map Prod.fst).Perm (List.range bound)

instance (bound : Nat) : Decidable (Complete rows bound) :=
  inferInstanceAs (Decidable (List.Perm _ _))

variable {rows}

theorem sorted_perm : (sorted rows).Perm rows := List.perm_insertionSort _ _

theorem filter_of_nodup (h : (rows.map Prod.fst).Nodup) {row : Nat × α} (hRow : row ∈ rows) :
    rows.filter (·.1 == row.1) = [row] := by
  induction rows with
  | nil => cases hRow
  | cons first rest ih =>
      rw [List.map_cons, List.nodup_cons] at h
      rcases List.mem_cons.mp hRow with rfl | hRow
      · have hNone : rest.filter (·.1 == row.1) = [] := by
          rw [List.filter_eq_nil_iff]
          intro other hOther hSame
          exact h.1 (List.mem_map.mpr ⟨other, hOther, beq_iff_eq.mp hSame⟩)
        rw [List.filter_cons_of_pos (by simp), hNone]
      · have hOther : ¬ (first.1 == row.1) = true := by
          intro hSame
          exact h.1 (List.mem_map.mpr ⟨row, hRow, (beq_iff_eq.mp hSame).symm⟩)
        rw [List.filter_cons, if_neg hOther]
        exact ih h.2 hRow

theorem only_of_mem (h : (rows.map Prod.fst).Nodup) {row : Nat × α} (hRow : row ∈ rows) :
    only rows row.1 = some row.2 := by
  rw [only, filter_of_nodup h hRow]

theorem mem_of_only {i : Nat} (h : (only rows i).isSome = true) : i ∈ rows.map Prod.fst := by
  unfold only at h
  split at h
  · next row hFilter =>
      have hMem : row ∈ rows.filter (·.1 == i) := by simp [hFilter]
      obtain ⟨hRow, hNumber⟩ := List.mem_filter.mp hMem
      exact List.mem_map.mpr ⟨row, hRow, beq_iff_eq.mp hNumber⟩
  · cases h

theorem Complete.map_sorted {bound : Nat} (h : Complete rows bound) :
    (sorted rows).map Prod.fst = List.range bound := by
  have hPerm : ((sorted rows).map Prod.fst).Perm (List.range bound) :=
    (sorted_perm.map Prod.fst).trans h
  have hSorted : ((sorted rows).map Prod.fst).Pairwise (· ≤ ·) :=
    List.pairwise_map.mpr (List.pairwise_insertionSort _ rows)
  exact hPerm.eq_of_pairwise (fun _ _ _ _ hab hba => Nat.le_antisymm hab hba) hSorted
    List.pairwise_le_range

/-- Sorted, the rows give each number's value at its place. -/
theorem Complete.values_sorted {bound : Nat} (h : Complete rows bound) :
    ((sorted rows).map Prod.snd).map some = (List.range bound).map (only rows) := by
  have hNodup : (rows.map Prod.fst).Nodup := h.nodup_iff.mpr List.nodup_range
  rw [← h.map_sorted, List.map_map, List.map_map]
  refine List.map_congr_left fun row hRow => ?_
  exact (only_of_mem hNodup (sorted_perm.mem_iff.mp hRow)).symm

/-- As many rows as numbers, with one row for each number, are all of them. -/
theorem complete_of_only {bound : Nat} (hLength : rows.length = bound)
    (hOnly : ∀ i < bound, (only rows i).isSome = true) : Complete rows bound := by
  have hSub : (List.range bound).Subperm (rows.map Prod.fst) :=
    List.subperm_of_subset List.nodup_range fun i hi =>
      mem_of_only (hOnly i (List.mem_range.mp hi))
  exact (hSub.perm_of_length_le (by simp [hLength])).symm

end Numbered
