import Gateway.Json.Kept
import Gateway.Text.Utf8

/-! Values as a program holds them: members in order, and every number in the
form in which it is read back. Such a value is written and read again without a
change as long as it nests no deeper than a reader goes. -/
namespace Json

open Text

/-! ### Nesting -/

mutual
/-- How deep arrays and objects nest. -/
def Value.depth : Value → Nat
  | .array items => itemsDepth items + 1
  | .object fields => fieldsDepth fields + 1
  | _ => 0

def itemsDepth : List Value → Nat
  | [] => 0
  | v :: vs => max v.depth (itemsDepth vs)

def fieldsDepth : List (Str × Value) → Nat
  | [] => 0
  | (_, v) :: fs => max v.depth (fieldsDepth fs)
end

theorem itemsKept_iff {depth : Nat} {items : List Value} :
    ItemsKept depth items ↔ ∀ v ∈ items, v.Kept depth := by
  induction items with
  | nil => simp [ItemsKept]
  | cons v vs ih => rw [ItemsKept, ih, List.forall_mem_cons]

theorem itemsDepth_le_iff {items : List Value} {depth : Nat} :
    itemsDepth items ≤ depth ↔ ∀ v ∈ items, v.depth ≤ depth := by
  induction items with
  | nil => simp [itemsDepth]
  | cons v vs ih => rw [itemsDepth, max_le_iff, ih, List.forall_mem_cons]

theorem fieldsDepth_le_iff {fields : List (Str × Value)} {depth : Nat} :
    fieldsDepth fields ≤ depth ↔ ∀ f ∈ fields, f.2.depth ≤ depth := by
  induction fields with
  | nil => simp [fieldsDepth]
  | cons f fs ih =>
      rw [fieldsDepth, max_le_iff, ih, List.forall_mem_cons]

theorem mem_members {fields : List (String × Value)} {f : Str × Value} (h : f ∈ members fields) :
    ∃ g ∈ fields, f.2 = g.2 := by
  suffices ∀ start : List (Str × Value),
      f ∈ fields.foldl (fun m g => insertField g.1.toList g.2 m) start →
      f ∈ start ∨ ∃ g ∈ fields, f.2 = g.2 by
    exact (this [] h).resolve_left List.not_mem_nil
  clear h
  induction fields with
  | nil => exact fun start h => Or.inl h
  | cons g fields ih =>
      intro start h
      rcases ih _ h with h | ⟨g', hg', hEq⟩
      · rcases mem_insertField h with rfl | h
        · exact Or.inr ⟨g, List.mem_cons_self, rfl⟩
        · exact Or.inl h
      · exact Or.inr ⟨g', List.mem_cons_of_mem _ hg', hEq⟩

mutual
/-- A reader that keeps a value has gone as deep as it nests. -/
theorem Value.Kept.depth_le {depth : Nat} : {v : Value} → v.Kept depth → v.depth ≤ depth
  | .array _, h => (Nat.succ_le_succ (itemsDepth_le_of_kept h.2)).trans (Nat.sub_add_cancel h.1).le
  | .object _, h =>
      (Nat.succ_le_succ (fieldsDepth_le_of_kept h.2.2)).trans (Nat.sub_add_cancel h.1).le
  | .null, _ | .bool _, _ | .string _, _ | .number _, _ => Nat.zero_le _

theorem itemsDepth_le_of_kept {depth : Nat} :
    {items : List Value} → ItemsKept depth items → itemsDepth items ≤ depth
  | [], _ => Nat.zero_le _
  | _ :: _, h => max_le h.1.depth_le (itemsDepth_le_of_kept h.2)

theorem fieldsDepth_le_of_kept {depth : Nat} :
    {fields : List (Str × Value)} → FieldsKept depth fields → fieldsDepth fields ≤ depth
  | [], _ => Nat.zero_le _
  | (_, _) :: _, h => max_le h.1.depth_le (fieldsDepth_le_of_kept h.2)
end

/-! ### Values of a program -/

mutual
def Value.Held : Value → Prop
  | .number n => n.Readable ∧ n.reread = n
  | .array items => ItemsHeld items
  | .object fields => InOrder fields ∧ FieldsHeld fields
  | _ => True

def ItemsHeld : List Value → Prop
  | [] => True
  | v :: vs => v.Held ∧ ItemsHeld vs

def FieldsHeld : List (Str × Value) → Prop
  | [] => True
  | (_, v) :: fs => v.Held ∧ FieldsHeld fs
end

theorem itemsHeld_iff {items : List Value} : ItemsHeld items ↔ ∀ v ∈ items, v.Held := by
  induction items with
  | nil => simp [ItemsHeld]
  | cons v vs ih => rw [ItemsHeld, ih, List.forall_mem_cons]

theorem fieldsHeld_iff {fields : List (Str × Value)} :
    FieldsHeld fields ↔ ∀ f ∈ fields, f.2.Held := by
  induction fields with
  | nil => simp [FieldsHeld]
  | cons f fs ih => rw [FieldsHeld, ih, List.forall_mem_cons]

mutual
theorem Value.Held.readable {depth : Nat} :
    {v : Value} → v.Held → v.depth ≤ depth → v.Readable depth
  | .number _, h, _ => h.1
  | .array _, h, hDepth =>
      ⟨Nat.zero_lt_of_lt hDepth, itemsReadable_of_held h (Nat.le_sub_one_of_lt hDepth)⟩
  | .object _, h, hDepth =>
      ⟨Nat.zero_lt_of_lt hDepth, fieldsReadable_of_held h.2 (Nat.le_sub_one_of_lt hDepth)⟩
  | .null, _, _ | .bool _, _, _ | .string _, _, _ => trivial

theorem itemsReadable_of_held {depth : Nat} :
    {items : List Value} → ItemsHeld items → itemsDepth items ≤ depth → ItemsReadable depth items
  | [], _, _ => trivial
  | _ :: _, h, hDepth => ⟨h.1.readable ((le_max_left _ _).trans hDepth),
      itemsReadable_of_held h.2 ((le_max_right _ _).trans hDepth)⟩

theorem fieldsReadable_of_held {depth : Nat} : {fields : List (Str × Value)} →
    FieldsHeld fields → fieldsDepth fields ≤ depth → FieldsReadable depth fields
  | [], _, _ => trivial
  | (_, _) :: _, h, hDepth => ⟨h.1.readable ((le_max_left _ _).trans hDepth),
      fieldsReadable_of_held h.2 ((le_max_right _ _).trans hDepth)⟩
end

theorem insertField_last {key : Str} {v : Value} {fields : List (Str × Value)}
    (h : ∀ f ∈ fields, keyCompare f.1 key = .lt) :
    insertField key v fields = fields ++ [(key, v)] := by
  induction fields with
  | nil => rfl
  | cons f fs ih =>
      obtain ⟨hFirst, hRest⟩ := List.forall_mem_cons.mp h
      have hGreater : keyCompare key f.1 = .gt := by
        cases hOrder : keyCompare key f.1 with
        | eq =>
            rw [(keyCompare_eq_iff key f.1).mp hOrder, (keyCompare_eq_iff f.1 f.1).mpr rfl] at hFirst
            cases hFirst
        | lt => exact absurd hFirst (keyCompare_asymm hOrder)
        | gt => rfl
      rw [insertField, hGreater, List.cons_append, ← ih hRest]

mutual
theorem Value.Held.reread_eq : {v : Value} → v.Held → v.reread = v
  | .number _, h => congrArg Value.number h.2
  | .array _, h => congrArg Value.array (rereadItems_of_held h)
  | .object _, h => congrArg Value.object (rereadFields_of_held h.2 h.1)
  | .null, _ | .bool _, _ | .string _, _ => rfl

theorem rereadItems_of_held : {items : List Value} → ItemsHeld items → rereadItems items = items
  | [], _ => rfl
  | _ :: _, h => congrArg₂ List.cons h.1.reread_eq (rereadItems_of_held h.2)

theorem rereadFields_of_held {start : List (Str × Value)} : {fields : List (Str × Value)} →
    FieldsHeld fields → InOrder (start ++ fields) → rereadFields start fields = start ++ fields
  | [], _, _ => (List.append_nil start).symm
  | (key, v) :: fs, h, hOrder => by
      have hLast : ∀ f ∈ start, keyCompare f.1 key = .lt := fun f hf =>
        (List.pairwise_append.mp hOrder).2.2 f hf _ List.mem_cons_self
      have hSplit := List.append_cons start (key, v) fs
      rw [rereadFields, h.1.reread_eq, insertField_last hLast]
      exact (rereadFields_of_held h.2 (hSplit ▸ hOrder)).trans hSplit.symm
end

/-! ### Room for a value -/

/-- A value of a program that nests no deeper than this. -/
def Value.Fits (depth : Nat) (v : Value) : Prop := v.Held ∧ v.depth ≤ depth

theorem Value.Fits.mono {depth more : Nat} {v : Value} (h : v.Fits depth) (hMore : depth ≤ more) :
    v.Fits more :=
  ⟨h.1, h.2.trans hMore⟩

@[simp] theorem fits_null (depth : Nat) : Value.null.Fits depth := ⟨trivial, Nat.zero_le _⟩

@[simp] theorem fits_bool (depth : Nat) (b : Bool) : (Value.bool b).Fits depth :=
  ⟨trivial, Nat.zero_le _⟩

@[simp] theorem fits_string (depth : Nat) (s : Str) : (Value.string s).Fits depth :=
  ⟨trivial, Nat.zero_le _⟩

theorem fits_nat {n : Nat} (h : n < 2 ^ 64) (depth : Nat) : (Value.nat n).Fits depth :=
  ⟨⟨h, rfl⟩, Nat.zero_le _⟩

theorem fits_array {items : List Value} {depth : Nat} (h : ∀ v ∈ items, v.Fits depth) :
    (Value.array items).Fits (depth + 1) :=
  ⟨itemsHeld_iff.mpr fun v hv => (h v hv).1,
    Nat.succ_le_succ (itemsDepth_le_iff.mpr fun v hv => (h v hv).2)⟩

theorem fits_obj {fields : List (String × Value)} {depth : Nat}
    (h : ∀ f ∈ fields, f.2.Fits depth) : (obj fields).Fits (depth + 1) := by
  refine ⟨⟨inOrder_members fields, fieldsHeld_iff.mpr fun f hf => ?_⟩,
    Nat.succ_le_succ (fieldsDepth_le_iff.mpr fun f hf => ?_)⟩
  · obtain ⟨g, hg, hEq⟩ := mem_members hf
    exact hEq ▸ (h g hg).1
  · obtain ⟨g, hg, hEq⟩ := mem_members hf
    exact hEq ▸ (h g hg).2

/-- What a program writes it reads back. -/
theorem Value.Fits.fromStr {v : Value} (h : v.Fits maxDepth) : fromStr v.render = some v := by
  rw [fromStr_render (h.1.readable h.2), h.1.reread_eq]

theorem Value.Fits.fromSlice {v : Value} (h : v.Fits maxDepth) :
    fromSlice (toUtf8 v.render) = some v := by
  rw [Json.fromSlice, fromUtf8_toUtf8]
  exact h.fromStr

end Json
