import Mathlib.Data.List.Nodup

/-! Tables: rows in the order they came, no two with the same key. -/

@[ext] structure Table {α κ : Type} (key : α → κ) where
  rows : List α
  distinct : (rows.map key).Nodup

namespace Table

variable {α κ : Type} {key : α → κ} (t : Table key)

def empty : Table key := ⟨[], List.nodup_nil⟩

/-- The row of a key. -/
def get [DecidableEq κ] (k : κ) : Option α := t.rows.find? (key · == k)

/-- A new row, unless its key is taken. -/
def insert [DecidableEq κ] (a : α) : Option (Table key) :=
  if h : key a ∈ t.rows.map key then none
  else some ⟨t.rows ++ [a], by
    rw [List.map_append, List.map_singleton]
    exact t.distinct.append (List.nodup_singleton _) (by simpa using h)⟩

/-- A change of the rows that satisfy `p`, which leaves their keys alone. -/
def update (p : α → Bool) (f : α → α) (hKey : ∀ a, key (f a) = key a := by intro _; rfl) :
    Table key :=
  ⟨t.rows.map fun a => if p a then f a else a, by
    have hSame : (t.rows.map fun a => if p a then f a else a).map key = t.rows.map key := by
      rw [List.map_map]
      refine List.map_congr_left fun a _ => ?_
      dsimp only [Function.comp]
      split
      · exact hKey a
      · rfl
    rw [hSame]
    exact t.distinct⟩

/-- The rows that satisfy `p`. -/
def keep (p : α → Bool) : Table key :=
  ⟨t.rows.filter p, t.distinct.sublist (List.filter_sublist.map key)⟩

/-- A row in place of any other with its key. -/
def put [DecidableEq κ] (a : α) : Table key :=
  ⟨t.rows.filter (fun b => decide (key b ≠ key a)) ++ [a], by
    rw [List.map_append, List.map_singleton]
    refine (t.distinct.sublist (List.filter_sublist.map key)).append (List.nodup_singleton _) ?_
    rw [List.disjoint_singleton]
    intro h
    obtain ⟨b, hb, hSame⟩ := List.mem_map.mp h
    exact of_decide_eq_true (List.mem_filter.mp hb).2 hSame⟩

variable {t}

theorem get_eq_some [DecidableEq κ] {k : κ} {a : α} (h : t.get k = some a) :
    a ∈ t.rows ∧ key a = k :=
  ⟨List.mem_of_find?_eq_some h, by simpa using List.find?_some h⟩

theorem eq_of_key {a b : α} (ha : a ∈ t.rows) (hb : b ∈ t.rows) (h : key a = key b) : a = b :=
  List.inj_on_of_nodup_map t.distinct ha hb h

theorem get_key [DecidableEq κ] {a : α} (ha : a ∈ t.rows) : t.get (key a) = some a := by
  obtain ⟨b, hb⟩ : ∃ b, t.get (key a) = some b :=
    Option.isSome_iff_exists.mp (List.find?_isSome.mpr ⟨a, ha, by simp⟩)
  obtain ⟨hMem, hKey⟩ := get_eq_some hb
  rw [hb, eq_of_key hMem ha hKey]

theorem map_insert [DecidableEq κ] {a : α} {t' : Table key} (h : t.insert a = some t')
    {β : Type} (f : α → β) : t'.rows.map f = t.rows.map f ++ [f a] := by
  unfold insert at h
  split at h
  · cases h
  · cases h
    simp

theorem insert_of_new [DecidableEq κ] {a : α} (h : key a ∉ t.rows.map key) :
    ∃ t', t.insert a = some t' ∧ t'.rows = t.rows ++ [a] := by
  unfold insert
  rw [dif_neg h]
  exact ⟨_, rfl, rfl⟩

/-- A change that `q` does not see leaves the row that is found the same. -/
theorem find_update {p q : α → Bool} {f : α → α} (hKey : ∀ a, key (f a) = key a)
    (hSame : ∀ a, q (f a) = q a) :
    (t.update p f hKey).rows.find? q = (t.rows.find? q).map fun a => if p a then f a else a := by
  show (t.rows.map fun a => if p a then f a else a).find? q = _
  rw [List.find?_map]
  have hQ : (q ∘ fun a => if p a then f a else a) = q := by
    funext a
    dsimp only [Function.comp]
    split
    · exact hSame a
    · rfl
  rw [hQ]

theorem get_insert [DecidableEq κ] {a : α} {t' : Table key} (h : t.insert a = some t') (k : κ) :
    t'.get k = if k = key a then some a else t.get k := by
  unfold insert at h
  split at h
  · cases h
  · next hNew =>
      cases h
      unfold get
      rw [List.find?_append]
      by_cases hKey : k = key a
      · have hNone : t.rows.find? (key · == k) = none := by
          rw [List.find?_eq_none]
          intro b hb hSame
          apply hNew
          rw [← hKey, ← beq_iff_eq.mp hSame]
          exact List.mem_map_of_mem hb
        rw [hNone, if_pos hKey]
        simp [hKey]
      · rw [if_neg hKey]
        simp [Ne.symm hKey]

theorem get_update [DecidableEq κ] {p : α → Bool} {f : α → α} (hKey : ∀ a, key (f a) = key a)
    (k : κ) : (t.update p f hKey).get k = (t.get k).map fun a => if p a then f a else a :=
  find_update hKey fun a => by rw [hKey]

theorem mem_put [DecidableEq κ] {a b : α} :
    b ∈ (t.put a).rows ↔ b ∈ t.rows ∧ key b ≠ key a ∨ b = a := by
  simp [put]

theorem get_put [DecidableEq κ] (a : α) (k : κ) :
    (t.put a).get k = if k = key a then some a else t.get k := by
  by_cases hKey : k = key a
  · rw [if_pos hKey, hKey]
    exact get_key (mem_put.mpr (Or.inr rfl))
  · rw [if_neg hKey]
    unfold get put
    rw [List.find?_append, List.find?_filter]
    have hSame : (fun b => decide (decide (key b ≠ key a) = true ∧ (key b == k) = true)) =
        fun b => key b == k := by
      funext b
      by_cases h : key b = k
      · simp [h, hKey]
      · simp [h]
    rw [hSame]
    simp [Ne.symm hKey]

/-! ### Rows left alone -/

theorem filter_insert [DecidableEq κ] {a : α} {t' : Table key} (h : t.insert a = some t')
    {q : α → Bool} (hNot : q a = false) : t'.rows.filter q = t.rows.filter q := by
  unfold insert at h
  split at h
  · cases h
  · cases h
    simp [hNot]

/-- The rows that satisfy `q` after a change, where it leaves those alone. -/
theorem filter_update_of {p q q' : α → Bool} {f : α → α} (hKey : ∀ a, key (f a) = key a)
    (hSame : ∀ a ∈ t.rows, p a = false → q a = q' a)
    (hChanged : ∀ a ∈ t.rows, p a = true → q (f a) = false ∧ q' a = false) :
    (t.update p f hKey).rows.filter q = t.rows.filter q' := by
  show (t.rows.map fun a => if p a then f a else a).filter q = _
  generalize t.rows = rows at hSame hChanged ⊢
  induction rows with
  | nil => rfl
  | cons a rest ih =>
      have hRest := ih (fun b hb => hSame b (List.mem_cons_of_mem a hb))
        fun b hb => hChanged b (List.mem_cons_of_mem a hb)
      rw [List.map_cons, List.filter_cons, List.filter_cons, hRest]
      cases hp : p a with
      | true =>
          obtain ⟨hAfter, hBefore⟩ := hChanged a List.mem_cons_self hp
          simp [hAfter, hBefore]
      | false => simp [hSame a List.mem_cons_self hp]

/-- A change of rows that do not satisfy `q`, before or after, leaves the rows
that do. -/
theorem filter_update {p q : α → Bool} {f : α → α} (hKey : ∀ a, key (f a) = key a)
    (hNot : ∀ a ∈ t.rows, p a = true → q a = false ∧ q (f a) = false) :
    (t.update p f hKey).rows.filter q = t.rows.filter q := by
  unfold update
  dsimp only
  generalize t.rows = rows at hNot
  induction rows with
  | nil => rfl
  | cons a rest ih =>
      have hRest := ih fun b hb => hNot b (List.mem_cons_of_mem a hb)
      rw [List.map_cons]
      by_cases hp : p a = true
      · obtain ⟨hBefore, hAfter⟩ := hNot a List.mem_cons_self hp
        rw [if_pos hp, List.filter_cons_of_neg (by simp [hAfter]),
          List.filter_cons_of_neg (by simp [hBefore]), hRest]
      · rw [if_neg hp, List.filter_cons, List.filter_cons, hRest]

/-- As many rows satisfy `q` after a change that none of them stops doing so
in. -/
theorem countP_update_of {p q : α → Bool} {f : α → α} (hKey : ∀ a, key (f a) = key a)
    (hKeep : ∀ a ∈ t.rows, p a = true → q a = true → q (f a) = true) :
    t.rows.countP q ≤ (t.update p f hKey).rows.countP q := by
  unfold update
  rw [List.countP_map]
  refine List.countP_mono_left fun a ha hq => ?_
  dsimp only [Function.comp]
  split
  · next hp => exact hKeep a ha hp hq
  · exact hq

/-- A change of one key's row takes at most one from a count. -/
theorem countP_update {p q : α → Bool} {f : α → α} (hKey : ∀ a, key (f a) = key a) {k : κ}
    (hOne : ∀ a, p a = true → key a = k) :
    t.rows.countP q ≤ (t.update p f hKey).rows.countP q + 1 := by
  have hDistinct := t.distinct
  unfold update
  dsimp only
  generalize t.rows = rows at hDistinct
  induction rows with
  | nil => simp
  | cons a rest ih =>
      obtain ⟨hHead, hRest⟩ := List.nodup_cons.mp hDistinct
      rw [List.map_cons, List.countP_cons, List.countP_cons]
      by_cases hp : p a = true
      · -- no other row has the key
        have hSame : (rest.map fun b => if p b then f b else b) = rest := by
          refine List.map_congr_left (fun b hb => if_neg fun hb' => hHead ?_) |>.trans
            (List.map_id _)
          exact List.mem_map.mpr ⟨b, hb, (hOne b hb').trans (hOne a hp).symm⟩
        rw [hSame]
        split <;> omega
      · rw [if_neg hp]
        have := ih hRest
        omega

/-- What a change does not look at stays the same in every row. -/
theorem map_update {β : Type} {p : α → Bool} {f : α → α} (hKey : ∀ a, key (f a) = key a)
    {g : α → β} (hSame : ∀ a, g (f a) = g a) : (t.update p f hKey).rows.map g = t.rows.map g := by
  unfold update
  rw [List.map_map]
  refine List.map_congr_left fun a _ => ?_
  dsimp only [Function.comp]
  split
  · exact hSame a
  · rfl

end Table
