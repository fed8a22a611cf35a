import Mathlib.Algebra.BigOperators.Group.List.Basic
import Mathlib.Data.List.Nodup

/-! The first element of a list for each key, as a loop with a set of seen keys
picks them. -/
namespace Firsts

variable {α κ : Type} [DecidableEq κ] (key : α → κ)

/-- The elements whose keys are neither seen nor those of earlier elements. -/
def fresh (seen : List κ) : List α → List α
  | [] => []
  | a :: as => if key a ∈ seen then fresh seen as else a :: fresh (key a :: seen) as

/-- The loop's step: what is picked so far, and the keys seen. -/
def pick (acc : List α × List κ) (a : α) : List α × List κ :=
  if key a ∈ acc.2 then acc else (acc.1 ++ [a], key a :: acc.2)

/-- The keys seen after some elements. -/
def seenAfter (seen : List κ) (as : List α) : List κ :=
  ((fresh key seen as).map key).reverse ++ seen

theorem foldl_pick (out : List α) (seen : List κ) (as : List α) :
    as.foldl (pick key) (out, seen) = (out ++ fresh key seen as, seenAfter key seen as) := by
  induction as generalizing out seen with
  | nil => simp [fresh, seenAfter]
  | cons a as ih =>
      rw [List.foldl_cons, pick]
      by_cases hSeen : key a ∈ seen
      · rw [if_pos hSeen, ih]
        simp [fresh, seenAfter, hSeen]
      · rw [if_neg hSeen, ih]
        simp [fresh, seenAfter, hSeen]

theorem fresh_append (seen : List κ) (as bs : List α) :
    fresh key seen (as ++ bs) = fresh key seen as ++ fresh key (seenAfter key seen as) bs := by
  induction as generalizing seen with
  | nil => rfl
  | cons a as ih =>
      by_cases hSeen : key a ∈ seen
      · simp [fresh, seenAfter, hSeen, ih]
      · simp [fresh, seenAfter, hSeen, ih]

theorem fresh_sublist (seen : List κ) (as : List α) : (fresh key seen as).Sublist as := by
  induction as generalizing seen with
  | nil => exact List.Sublist.refl _
  | cons a as ih =>
      rw [fresh]
      split
      · exact (ih seen).cons a
      · exact (ih _).cons_cons a

/-- Every key is there that was not seen before. -/
theorem mem_map_fresh {seen : List κ} {as : List α} {k : κ} :
    k ∈ (fresh key seen as).map key ↔ k ∈ as.map key ∧ k ∉ seen := by
  induction as generalizing seen with
  | nil => simp [fresh]
  | cons a as ih =>
      rw [fresh, List.map_cons, List.mem_cons]
      split
      · next hSeen =>
          rw [ih]
          constructor
          · exact fun h => ⟨Or.inr h.1, h.2⟩
          · rintro ⟨rfl | h, hNew⟩
            · exact absurd hSeen hNew
            · exact ⟨h, hNew⟩
      · next hNew =>
          rw [List.map_cons, List.mem_cons, ih, List.mem_cons]
          constructor
          · rintro (rfl | ⟨h, hNot⟩)
            · exact ⟨Or.inl rfl, hNew⟩
            · exact ⟨Or.inr h, fun hSeen => hNot (Or.inr hSeen)⟩
          · rintro ⟨h, hNot⟩
            by_cases hFirst : k = key a
            · exact Or.inl hFirst
            · exact Or.inr ⟨h.resolve_left hFirst, fun hSeen => hSeen.elim hFirst hNot⟩

theorem nodup_fresh (seen : List κ) (as : List α) : ((fresh key seen as).map key).Nodup := by
  induction as generalizing seen with
  | nil => exact List.nodup_nil
  | cons a as ih =>
      rw [fresh]
      split
      · exact ih seen
      · rw [List.map_cons, List.nodup_cons, mem_map_fresh]
        exact ⟨fun h => h.2 List.mem_cons_self, ih _⟩

/-- Nothing is dropped from elements with keys of their own. -/
theorem fresh_eq_self {seen : List κ} {as : List α} (hNodup : (as.map key).Nodup)
    (hNew : ∀ a ∈ as, key a ∉ seen) : fresh key seen as = as := by
  induction as generalizing seen with
  | nil => rfl
  | cons a as ih =>
      rw [List.map_cons, List.nodup_cons] at hNodup
      rw [fresh, if_neg (hNew a List.mem_cons_self), ih hNodup.2]
      intro b hb hSeen
      rcases List.mem_cons.mp hSeen with hSame | hSeen
      · exact hNodup.1 (hSame ▸ List.mem_map_of_mem hb)
      · exact hNew b (List.mem_cons_of_mem a hb) hSeen

theorem fresh_eq_nil_iff {seen : List κ} {as : List α} :
    fresh key seen as = [] ↔ ∀ a ∈ as, key a ∈ seen := by
  rw [List.eq_nil_iff_forall_not_mem]
  constructor
  · intro hNone a ha
    by_contra hNew
    obtain ⟨b, hb, -⟩ := List.mem_map.mp
      ((mem_map_fresh key).mpr ⟨List.mem_map_of_mem ha, hNew⟩)
    exact hNone b hb
  · intro hAll b hb
    have hKey := (mem_map_fresh key).mp (List.mem_map_of_mem hb)
    obtain ⟨a, ha, hSame⟩ := List.mem_map.mp hKey.1
    exact hKey.2 (hSame ▸ hAll a ha)

/-- What is read of the first elements is the same for lists with the same keys,
where it depends on the key alone. -/
theorem map_fresh_perm {β : Type} {f : α → β} {as bs : List α}
    (hKeys : ∀ k, k ∈ as.map key ↔ k ∈ bs.map key)
    (hSame : ∀ a ∈ as, ∀ b ∈ bs, key a = key b → f a = f b) :
    ((fresh key [] as).map f).Perm ((fresh key [] bs).map f) := by
  have hPerm : ((fresh key [] as).map key).Perm ((fresh key [] bs).map key) := by
    apply (List.perm_ext_iff_of_nodup (nodup_fresh key [] as) (nodup_fresh key [] bs)).mpr
    intro k
    rw [mem_map_fresh, mem_map_fresh, hKeys]
  -- the value of a key is that of any element with it
  let value (k : κ) : Option β := (bs.find? (key · = k)).map f
  have hValue {cs : List α} (hAgree : ∀ c ∈ cs, value (key c) = some (f c)) :
      (cs.map key).map value = (cs.map f).map some := by
    rw [List.map_map, List.map_map]
    exact List.map_congr_left hAgree
  have hFound {c : α} (hc : key c ∈ bs.map key) (hAll : ∀ b ∈ bs, key c = key b → f c = f b) :
      value (key c) = some (f c) := by
    obtain ⟨b, hb, hKey⟩ := List.mem_map.mp hc
    obtain ⟨d, hd⟩ : ∃ d, bs.find? (key · = key c) = some d :=
      Option.isSome_iff_exists.mp (List.find?_isSome.mpr ⟨b, hb, decide_eq_true hKey⟩)
    have hKey' : key d = key c := by simpa using List.find?_some hd
    show (bs.find? _).map f = _
    rw [hd, Option.map_some, hAll d (List.mem_of_find?_eq_some hd) hKey'.symm]
  have hLeft : ∀ c ∈ fresh key [] as, value (key c) = some (f c) := by
    intro c hc
    have hMem := (fresh_sublist key [] as).subset hc
    exact hFound ((hKeys _).mp (List.mem_map_of_mem hMem)) (hSame c hMem)
  have hRight : ∀ c ∈ fresh key [] bs, value (key c) = some (f c) := by
    intro c hc
    have hMem := (fresh_sublist key [] bs).subset hc
    refine hFound (List.mem_map_of_mem hMem) fun b hb hKey => ?_
    obtain ⟨a, ha, hKey'⟩ := List.mem_map.mp ((hKeys _).mpr (List.mem_map_of_mem hMem))
    rw [← hSame a ha c hMem hKey', hSame a ha b hb (hKey'.trans hKey)]
  have hMapped := hPerm.map value
  rw [hValue hLeft, hValue hRight] at hMapped
  exact (List.map_perm_map_iff fun _ _ h => Option.some.inj h).mp hMapped

/-! ### Sums by key -/

variable {key} {M : Type} [AddCommMonoid M]

/-- An element that is there once counts once. -/
theorem sum_at {l : List κ} (h : l.Nodup) (k : κ) (c : M) :
    (l.map fun k' => if k' = k then c else 0).sum = if k ∈ l then c else 0 := by
  induction l with
  | nil => rfl
  | cons k' rest ih =>
      obtain ⟨hNew, hRest⟩ := List.nodup_cons.mp h
      rw [List.map_cons, List.sum_cons, ih hRest]
      by_cases hSame : k' = k
      · rw [← hSame, if_pos rfl, if_neg hNew, if_pos List.mem_cons_self, add_zero]
      · simp [hSame, Ne.symm hSame]

/-- The sums of the groups of some keys add up. -/
theorem sum_groups {keys : List κ} (hNodup : keys.Nodup) (f : α → M) {as : List α}
    (hAll : ∀ a ∈ as, key a ∈ keys) :
    (keys.map fun k => ((as.filter (key · = k)).map f).sum).sum = (as.map f).sum := by
  induction as with
  | nil => simp
  | cons a as ih =>
      have hSplit (k : κ) : (((a :: as).filter (key · = k)).map f).sum =
          (if k = key a then f a else 0) + ((as.filter (key · = k)).map f).sum := by
        by_cases hSame : key a = k
        · simp [hSame]
        · simp [hSame, Ne.symm hSame]
      rw [funext hSplit, List.sum_map_add, sum_at hNodup, if_pos (hAll a List.mem_cons_self),
        ih fun b hb => hAll b (List.mem_cons_of_mem a hb), List.map_cons, List.sum_cons]

/-- The same over the groups whose first elements are in a class of their own. -/
theorem sum_fresh {p : α → Bool} (hClass : ∀ a b, key a = key b → p a = p b) (f : α → M)
    (as : List α) :
    (((fresh key [] as).filter p).map fun a => ((as.filter (key · = key a)).map f).sum).sum =
      ((as.filter p).map f).sum := by
  have hNodup : (((fresh key [] as).filter p).map key).Nodup :=
    (nodup_fresh key [] as).sublist (List.filter_sublist.map key)
  have hAll : ∀ a ∈ as.filter p, key a ∈ ((fresh key [] as).filter p).map key := by
    intro a ha
    obtain ⟨hMem, hP⟩ := List.mem_filter.mp ha
    obtain ⟨b, hb, hSame⟩ := List.mem_map.mp
      ((mem_map_fresh key).mpr ⟨List.mem_map_of_mem hMem, List.not_mem_nil⟩)
    exact List.mem_map.mpr ⟨b, List.mem_filter.mpr ⟨hb, (hClass b a hSame).trans hP⟩, hSame⟩
  rw [← sum_groups hNodup f hAll, List.map_map]
  congr 1
  apply List.map_congr_left
  intro a ha
  have hP := (List.mem_filter.mp ha).2
  rw [Function.comp_apply, List.filter_filter]
  congr 2
  apply List.filter_congr
  intro b _
  by_cases hSame : key b = key a
  · simp [hSame, (hClass b a hSame).trans hP]
  · simp [hSame]

end Firsts
