import Gateway.Json.Held
import Mathlib.Tactic.FieldSimp
import Mathlib.Tactic.Ring

/-! What was read is written and read again. The first time may spell a number another
way; from then on nothing changes. -/
namespace Json

open Text

theorem rereadItems_eq_map (items : List Value) : rereadItems items = items.map Value.reread := by
  induction items with
  | nil => rfl
  | cons v vs ih => rw [rereadItems, ih, List.map_cons]

/-- A member is found where it was. -/
theorem Value.Kept.get_reread {depth : Nat} {v : Value} (kept : v.Kept depth) (key : String) :
    v.reread.get key = (v.get key).map Value.reread := by
  cases v with
  | object fields =>
      have hFound : lookupField key.toList (rereadFields [] fields) = _ :=
        lookupField_rereadFields kept.2.1.nodup key.toList
      exact hFound.trans (Option.or_none ..)
  | _ => rfl

/-! ### Numbers -/

theorem Number.reread_reread (n : Number) : n.reread.reread = n.reread := by
  cases n with
  | float negative mantissa exponent =>
      simp only [Number.reread]
      split_ifs with hZero hWhole
      · rfl
      · have hSome : mantissa * 10 ^ (exponent.toNat + 1) ≠ 0 := by positivity
        simp [hSome]
      · simp [hZero, hWhole]
  | _ => rfl

theorem Number.Readable.reread {n : Number} (h : n.Readable) : n.reread.Readable :=
  have hRead : fromStr (Value.number n).render = some (.number n.reread) :=
    fromStr_render (v := .number n) h
  kept_of_fromStr hRead

/-- The number that is read back has the same value. -/
theorem asF64_reread (n : Number) :
    (Value.number n.reread).asF64 = (Value.number n).asF64 := by
  cases n with
  | float negative mantissa exponent =>
      simp only [Number.reread]
      split_ifs with hZero hWhole
      · simp [Value.asF64, hZero]
      · have hValue : ((mantissa * 10 ^ (exponent.toNat + 1) : Nat) : ℚ) / 10 ^ 1 =
            mantissa * 10 ^ exponent.toNat := by
          push_cast
          field_simp
          ring
        have hPoint : ¬ (0 : Int) ≤ -1 := by decide
        have hPlaces : (-(-1 : Int)).toNat = 1 := rfl
        simp only [Value.asF64, hWhole.1, hPoint, hPlaces, if_true, if_false, hValue]
      · rfl
  | _ => rfl

/-! ### Values -/

theorem FieldsHeld.insertField {fields : List (Str × Value)} (h : FieldsHeld fields) {v : Value}
    (hv : v.Held) (key : Str) : FieldsHeld (insertField key v fields) := by
  rw [fieldsHeld_iff] at h ⊢
  intro f hf
  rcases mem_insertField hf with rfl | hf
  · exact hv
  · exact h f hf

mutual
theorem Value.Readable.held_reread {depth : Nat} :
    {v : Value} → v.Readable depth → v.reread.Held
  | .number n, h => ⟨Number.Readable.reread h, n.reread_reread⟩
  | .array _, h => itemsHeld_reread h.2
  | .object _, h => ⟨inOrder_rereadFields .nil, fieldsHeld_reread h.2 trivial⟩
  | .null, _ | .bool _, _ | .string _, _ => trivial

theorem itemsHeld_reread {depth : Nat} :
    {items : List Value} → ItemsReadable depth items → ItemsHeld (rereadItems items)
  | [], _ => trivial
  | _ :: _, h => ⟨h.1.held_reread, itemsHeld_reread h.2⟩

theorem fieldsHeld_reread {depth : Nat} : {fields start : List (Str × Value)} →
    FieldsReadable depth fields → FieldsHeld start → FieldsHeld (rereadFields start fields)
  | [], _, _, hStart => hStart
  | (key, _) :: _, _, h, hStart => by
      rw [rereadFields]
      exact fieldsHeld_reread h.2 (hStart.insertField h.1.held_reread key)
end

theorem Value.Kept.fits_reread {v : Value} (kept : v.Kept maxDepth) : v.reread.Fits maxDepth :=
  ⟨kept.readable.held_reread, (kept_of_fromStr (fromStr_render kept.readable)).depth_le⟩

theorem Value.Kept.fromSlice {v : Value} (kept : v.Kept maxDepth) :
    fromSlice (toUtf8 v.render) = some v.reread := by
  rw [Json.fromSlice, fromUtf8_toUtf8]
  exact fromStr_render kept.readable

/-! ### What is built is kept -/

@[simp] theorem kept_null (depth : Nat) : Value.null.Kept depth := trivial

@[simp] theorem kept_bool (depth : Nat) (b : Bool) : (Value.bool b).Kept depth := trivial

@[simp] theorem kept_string (depth : Nat) (s : Str) : (Value.string s).Kept depth := trivial

theorem kept_array {items : List Value} {depth : Nat} (h : ∀ v ∈ items, v.Kept depth) :
    (Value.array items).Kept (depth + 1) :=
  ⟨depth.succ_pos, itemsKept_iff.mpr h⟩

theorem kept_obj {fields : List (String × Value)} {depth : Nat}
    (h : ∀ f ∈ fields, f.2.Kept depth) : (obj fields).Kept (depth + 1) := by
  refine ⟨depth.succ_pos, inOrder_members fields, fieldsKept_iff.mpr fun f hf => ?_⟩
  obtain ⟨g, hg, hEq⟩ := mem_members hf
  exact hEq ▸ h g hg

/-- A member put in an object. -/
theorem kept_insertField {fields : List (Str × Value)} {depth : Nat}
    (kept : (Value.object fields).Kept depth) {v : Value} (hv : v.Kept (depth - 1)) (key : Str) :
    (Value.object (insertField key v fields)).Kept depth :=
  ⟨kept.1, kept.2.1.insertField key v, kept.2.2.insertField hv key⟩

/-- Members taken out of an object. -/
theorem kept_filter {fields : List (Str × Value)} {depth : Nat}
    (kept : (Value.object fields).Kept depth) (keep : Str × Value → Bool) :
    (Value.object (fields.filter keep)).Kept depth :=
  ⟨kept.1, kept.2.1.filter keep, fieldsKept_iff.mpr fun f hf =>
    fieldsKept_iff.mp kept.2.2 f (List.mem_of_mem_filter hf)⟩

theorem held_insertField {fields : List (Str × Value)} (held : (Value.object fields).Held)
    {v : Value} (hv : v.Held) (key : Str) : (Value.object (insertField key v fields)).Held :=
  ⟨held.1.insertField key v, held.2.insertField hv key⟩

theorem held_filter {fields : List (Str × Value)} (held : (Value.object fields).Held)
    (keep : Str × Value → Bool) : (Value.object (fields.filter keep)).Held :=
  ⟨held.1.filter keep, fieldsHeld_iff.mpr fun f hf =>
    fieldsHeld_iff.mp held.2 f (List.mem_of_mem_filter hf)⟩

theorem lookupField_filter (keep : Str → Bool) (key : Str) (fields : List (Str × Value)) :
    lookupField key (fields.filter fun f => keep f.1) =
      if keep key then lookupField key fields else none := by
  induction fields with
  | nil => simp [lookupField]
  | cons f fields ih =>
      obtain ⟨name, v⟩ := f
      by_cases hName : name = key
      · cases hKeep : keep key <;> simp [lookupField, hName, hKeep, ih]
      · cases hKeep : keep name <;> simp [lookupField, hName, hKeep, ih]

end Json
