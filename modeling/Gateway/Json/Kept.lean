import Gateway.Json.RoundTrip
import Mathlib.Data.List.Nodup

/-! What a reader keeps of a document: numbers of its types, a bounded nesting,
and the members of an object in their order. -/
namespace Json

mutual
def Value.Kept : Nat → Value → Prop
  | _, .number n => n.Readable
  | depth, .array items => 0 < depth ∧ ItemsKept (depth - 1) items
  | depth, .object fields => 0 < depth ∧ InOrder fields ∧ FieldsKept (depth - 1) fields
  | _, _ => True

def ItemsKept : Nat → List Value → Prop
  | _, [] => True
  | depth, v :: vs => v.Kept depth ∧ ItemsKept depth vs

def FieldsKept : Nat → List (Str × Value) → Prop
  | _, [] => True
  | depth, (_, v) :: fs => v.Kept depth ∧ FieldsKept depth fs
end

theorem fieldsKept_iff {depth : Nat} {fields : List (Str × Value)} :
    FieldsKept depth fields ↔ ∀ f ∈ fields, f.2.Kept depth := by
  induction fields with
  | nil => simp [FieldsKept]
  | cons f fs ih => rw [FieldsKept, ih, List.forall_mem_cons]

mutual
/-- What a reader has kept it can read again. -/
theorem Value.Kept.readable {depth : Nat} : {v : Value} → v.Kept depth → v.Readable depth
  | .number _, h => h
  | .array _, h => ⟨h.1, itemsReadable_of_kept h.2⟩
  | .object _, h => ⟨h.1, fieldsReadable_of_kept h.2.2⟩
  | .null, _ | .bool _, _ | .string _, _ => trivial

theorem itemsReadable_of_kept {depth : Nat} :
    {items : List Value} → ItemsKept depth items → ItemsReadable depth items
  | [], _ => trivial
  | _ :: _, h => ⟨h.1.readable, itemsReadable_of_kept h.2⟩

theorem fieldsReadable_of_kept {depth : Nat} :
    {fields : List (Str × Value)} → FieldsKept depth fields → FieldsReadable depth fields
  | [], _ => trivial
  | (_, _) :: _, h => ⟨h.1.readable, fieldsReadable_of_kept h.2⟩
end

/-! ### What is read -/

theorem readable_of_readNumber {negative : Bool} {s : Str} {n : Number} {rest : Str}
    (h : readNumber negative s = some (n, rest)) : n.Readable := by
  unfold readNumber at h
  dsimp only at h
  split at h
  · cases h
  · split_ifs at h with hLead
    split at h
    · cases h
    · split at h
      · cases h
      · split_ifs at h with hNat hNeg hRange <;> cases h
        · exact hNat.2.2
        · exact hNeg.2.2
        · exact Bool.eq_false_iff.mpr hRange

theorem FieldsKept.insertField {depth : Nat} {fields : List (Str × Value)}
    (h : FieldsKept depth fields) {v : Value} (hv : v.Kept depth) (key : Str) :
    FieldsKept depth (insertField key v fields) := by
  rw [fieldsKept_iff] at h ⊢
  intro f hf
  rcases mem_insertField hf with rfl | hf
  · exact hv
  · exact h f hf

theorem map_eq_some_pair {α β γ : Type} {f : α → β} {x : Option (α × γ)} {b : β} {c : γ}
    (h : (x.map fun (a, c) => (f a, c)) = some (b, c)) : ∃ a, x = some (a, c) ∧ f a = b := by
  obtain ⟨⟨a, c'⟩, hx, hPair⟩ := Option.map_eq_some_iff.mp h
  cases hPair
  exact ⟨a, hx, rfl⟩

/-- By the fuel, with the members put in so far. -/
theorem kept_of_read (fuel : Nat) :
    (∀ depth s v rest, readValue fuel depth s = some (v, rest) → v.Kept depth) ∧
    (∀ depth s vs rest, readItems fuel depth s = some (vs, rest) → ItemsKept depth vs) ∧
    ∀ depth start s fs rest, readFields fuel depth start s = some (fs, rest) → InOrder start →
      FieldsKept depth start → InOrder fs ∧ FieldsKept depth fs := by
  induction fuel with
  | zero => simp [readValue, readItems, readFields]
  | succ fuel ih =>
      obtain ⟨ihValue, ihItems, ihFields⟩ := ih
      refine ⟨fun depth s v rest h => ?_, fun depth s vs rest h => ?_,
        fun depth start s fs rest h hOrder hStart => ?_⟩
      · rw [readValue_succ] at h
        split at h
        case h_1 | h_2 | h_3 =>
          cases h
          trivial
        case h_4 =>
          obtain ⟨t, -, rfl⟩ := map_eq_some_pair h
          trivial
        case h_5 | h_8 =>
          obtain ⟨n, hRead, rfl⟩ := map_eq_some_pair h
          exact readable_of_readNumber hRead
        case h_6 =>
          split_ifs at h with hDepth
          split at h
          · cases h
            exact ⟨Nat.pos_of_ne_zero hDepth, trivial⟩
          · obtain ⟨vs, hRead, rfl⟩ := map_eq_some_pair h
            exact ⟨Nat.pos_of_ne_zero hDepth, ihItems _ _ _ _ hRead⟩
        case h_7 =>
          split_ifs at h with hDepth
          split at h
          · cases h
            exact ⟨Nat.pos_of_ne_zero hDepth, .nil, trivial⟩
          · obtain ⟨fs, hRead, rfl⟩ := map_eq_some_pair h
            exact ⟨Nat.pos_of_ne_zero hDepth, ihFields _ _ _ _ _ hRead .nil trivial⟩
      · rw [readItems_succ] at h
        split at h
        · cases h
        · next v after hRead =>
            have hFirst := ihValue _ _ _ _ hRead
            split at h
            · obtain ⟨ws, hMore, rfl⟩ := map_eq_some_pair h
              exact ⟨hFirst, ihItems _ _ _ _ hMore⟩
            · cases h
              exact ⟨hFirst, trivial⟩
            · cases h
      · rw [readFields_succ] at h
        split at h
        · split at h
          · cases h
          · split at h
            · split at h
              · cases h
              · next v after hRead =>
                  have hMember := ihValue _ _ _ _ hRead
                  split at h
                  · exact ihFields _ _ _ _ _ h (hOrder.insertField _ _)
                      (hStart.insertField hMember _)
                  · cases h
                    exact ⟨hOrder.insertField _ _, hStart.insertField hMember _⟩
                  · cases h
            · cases h
        · cases h

theorem kept_of_fromStr {s : Str} {v : Value} (h : fromStr s = some v) : v.Kept maxDepth := by
  unfold fromStr at h
  split at h
  · next v rest hRead =>
      split_ifs at h
      cases h
      exact (kept_of_read _).1 _ _ _ _ hRead
  · cases h

theorem kept_of_fromSlice {bytes : List UInt8} {v : Value} (h : fromSlice bytes = some v) :
    v.Kept maxDepth := by
  obtain ⟨s, -, hRead⟩ := Option.bind_eq_some_iff.mp h
  exact kept_of_fromStr hRead

theorem mem_of_lookupField {fields : List (Str × Value)} {k : Str} {v : Value}
    (h : lookupField k fields = some v) : (k, v) ∈ fields := by
  induction fields with
  | nil => cases h
  | cons g rest ih =>
      obtain ⟨name, w⟩ := g
      rw [lookupField] at h
      split_ifs at h with hName
      · obtain rfl := hName
        cases h
        exact List.mem_cons_self
      · exact List.mem_cons_of_mem _ (ih h)

theorem Value.Kept.get {depth : Nat} {v w : Value} {key : String} (h : v.Kept depth)
    (hGet : v.get key = some w) : w.Kept (depth - 1) := by
  cases v with
  | object fields => exact fieldsKept_iff.mp h.2.2 _ (mem_of_lookupField hGet)
  | _ => cases hGet

/-! ### Objects with the same members -/

theorem lookupField_eq_some_of_mem {fields : List (Str × Value)} (h : (fields.map Prod.fst).Nodup)
    {f : Str × Value} (hf : f ∈ fields) : lookupField f.1 fields = some f.2 := by
  induction fields with
  | nil => cases hf
  | cons g rest ih =>
      obtain ⟨name, w⟩ := g
      obtain ⟨hNew, hRest⟩ := List.nodup_cons.mp h
      rcases List.mem_cons.mp hf with rfl | hLater
      · exact if_pos rfl
      · have hName : name ≠ f.1 := by
          rintro rfl
          exact hNew (List.mem_map.mpr ⟨f, hLater, rfl⟩)
        rw [lookupField, if_neg hName, ih hRest hLater]

theorem keyCompare_asymm {a b : Str} (h : keyCompare a b = .lt) : ¬ keyCompare b a = .lt := by
  intro hBack
  have hSelf := keyCompare_trans h hBack
  rw [(keyCompare_eq_iff a a).mpr rfl] at hSelf
  cases hSelf

/-- Members in order are told by what is found among them. -/
theorem InOrder.ext {as bs : List (Str × Value)} (hAs : InOrder as) (hBs : InOrder bs)
    (h : ∀ k, lookupField k as = lookupField k bs) : as = bs := by
  have hMem : ∀ f, f ∈ as ↔ f ∈ bs := fun f =>
    ⟨fun hf => mem_of_lookupField ((h f.1).symm.trans (lookupField_eq_some_of_mem hAs.nodup hf)),
      fun hf => mem_of_lookupField ((h f.1).trans (lookupField_eq_some_of_mem hBs.nodup hf))⟩
  have hPerm : as.Perm bs :=
    (List.perm_ext_iff_of_nodup (List.Nodup.of_map _ hAs.nodup)
      (List.Nodup.of_map _ hBs.nodup)).mpr hMem
  exact hPerm.eq_of_pairwise (fun _ _ _ _ hab hba => absurd hba (keyCompare_asymm hab)) hAs hBs

theorem inOrder_members (fields : List (String × Value)) : InOrder (members fields) := by
  suffices ∀ start, InOrder start →
      InOrder (fields.foldl (fun m f => insertField f.1.toList f.2 m) start) from this [] .nil
  induction fields with
  | nil => exact fun _ h => h
  | cons f fields ih => exact fun start h => ih _ (h.insertField _ _)

/-- Values that are objects are told by their members. -/
theorem Value.Kept.ext {depth : Nat} {v : Value} (h : v.Kept depth) (hObject : ∃ fs, v = .object fs)
    {fields : List (String × Value)} (hSame : ∀ key, (obj fields).get key = v.get key) :
    obj fields = v := by
  obtain ⟨fs, rfl⟩ := hObject
  refine congrArg Value.object ((inOrder_members fields).ext h.2.1 fun k => ?_)
  have hKey := hSame (String.ofList k)
  simpa [Value.get, obj] using hKey

end Json
