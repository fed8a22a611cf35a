import Gateway.Redact.Body

/-! What redacting does to the shape of a value. Members are lost exactly where
two names of one object redact alike. -/
namespace Gateway.Redact

open Json Text

section

variable (redactor : Redactor)

mutual
/-- The same shape, with names and strings redacted. Members may stand in
another order. -/
def Kept : Value → Value → Prop
  | .string text, w => w = .string (redactor text)
  | .number number, w =>
      if cardShaped number = true ∧ redactor number.text ≠ number.text then
        w = .string (redactor number.text)
      else w = .number number
  | .array items, w => ∃ kept, w = .array kept ∧ KeptItems items kept
  | .object fields, w => ∃ kept written, w = .object written ∧ kept.Perm written ∧
      KeptFields fields kept
  | .null, w => w = .null
  | .bool b, w => w = .bool b

def KeptItems : List Value → List Value → Prop
  | [], kept => kept = []
  | item :: items, kept => ∃ first rest, kept = first :: rest ∧ Kept item first ∧
      KeptItems items rest

def KeptFields : List (Str × Value) → List (Str × Value) → Prop
  | [], kept => kept = []
  | (key, field) :: fields, kept => ∃ first rest, kept = (redactor key, first) :: rest ∧
      Kept field first ∧ KeptFields fields rest
end

mutual
/-- No two names of one object redact alike. -/
def NamesApart : Value → Prop
  | .array items => ItemsApart items
  | .object fields => (fields.map fun field => redactor field.1).Nodup ∧ FieldsApart fields
  | _ => True

def ItemsApart : List Value → Prop
  | [] => True
  | item :: items => NamesApart item ∧ ItemsApart items

def FieldsApart : List (Str × Value) → Prop
  | [] => True
  | (_, field) :: fields => NamesApart field ∧ FieldsApart fields
end

/-- Every member redacted, none merged with another. -/
def redactedMembers (fields : List (Str × Value)) : List (Str × Value) :=
  fields.map fun field => (redactor field.1, (redactValue redactor field.2).1)

end

variable {redactor : Redactor}

/-- Members go into the object one after the other. -/
theorem redactFields_eq_foldl (fields start : List (Str × Value)) :
    (redactFields redactor start fields).1 =
      (redactedMembers redactor fields).foldl (fun m f => insertField f.1 f.2 m) start := by
  induction fields generalizing start with
  | nil => rw [redactFields, redactedMembers, List.map_nil, List.foldl_nil]
  | cons field fields ih =>
      obtain ⟨key, field⟩ := field
      rw [redactFields]
      exact ih _

/-- The object holds every member exactly when no two names came to be one. -/
theorem redactFields_perm_iff (fields : List (Str × Value)) :
    (redactedMembers redactor fields).Perm (redactFields redactor [] fields).1 ↔
      (fields.map fun field => redactor field.1).Nodup := by
  have hNames : (redactedMembers redactor fields).map Prod.fst =
      fields.map fun field => redactor field.1 := by simp [redactedMembers, Function.comp_def]
  obtain ⟨hOrder, hPerm⟩ := @foldl_insertField (redactedMembers redactor fields) []
    List.Pairwise.nil
  rw [redactFields_eq_foldl, ← hNames]
  constructor
  · intro h
    exact (h.map Prod.fst).nodup_iff.mpr hOrder.nodup
  · intro hDistinct
    exact (hPerm (by simp) hDistinct).symm

theorem KeptFields.names {fields kept : List (Str × Value)} (h : KeptFields redactor fields kept) :
    kept.map Prod.fst = fields.map fun field => redactor field.1 := by
  induction fields generalizing kept with
  | nil =>
      rw [KeptFields] at h
      rw [h]
      rfl
  | cons field fields ih =>
      obtain ⟨key, field⟩ := field
      rw [KeptFields] at h
      obtain ⟨first, rest, rfl, -, hRest⟩ := h
      exact congrArg (redactor key :: ·) (ih hRest)

/-- Members of distinct names are the same in any order. -/
theorem eq_of_perm_of_names {xs ys : List (Str × Value)} (hPerm : xs.Perm ys)
    (hNames : xs.map Prod.fst = ys.map Prod.fst) (hDistinct : (xs.map Prod.fst).Nodup) :
    xs = ys := by
  induction xs generalizing ys with
  | nil => exact hPerm.nil_eq
  | cons x xs ih =>
      cases ys with
      | nil => cases hNames
      | cons y ys =>
          obtain ⟨hFirst, hRest⟩ := List.cons.inj hNames
          obtain ⟨hAbsent, hDistinct⟩ := List.nodup_cons.mp hDistinct
          have hHere : x = y := by
            rcases List.mem_cons.mp (hPerm.mem_iff.mp List.mem_cons_self) with h | h
            · exact h
            · exact absurd (hRest ▸ List.mem_map_of_mem h) hAbsent
          subst hHere
          rw [ih hPerm.cons_inv hRest hDistinct]

mutual
/-- A value keeps its shape exactly when no two names of one of its objects
redact alike. -/
theorem kept_redactValue_iff (v : Value) :
    Kept redactor v (redactValue redactor v).1 ↔ NamesApart redactor v := by
  match v with
  | .null => simp [Kept, redactValue, NamesApart]
  | .bool b => simp [Kept, redactValue, NamesApart]
  | .string text =>
      simp only [Kept, redactValue, NamesApart]
      by_cases h : redactor text = text <;> simp [h]
  | .number number =>
      simp only [Kept, redactValue, NamesApart]
      by_cases hCard : cardShaped number = true
      · by_cases h : redactor number.text = number.text <;> simp [hCard, h]
      · simp [hCard]
  | .array items =>
      rw [Kept, redactValue, NamesApart, ← kept_redactItems_iff items]
      simp
  | .object fields =>
      rw [Kept, redactValue, NamesApart, ← kept_redactedMembers_iff fields]
      constructor
      · rintro ⟨kept, written, hWritten, hPerm, hKept⟩
        obtain rfl := (Value.object.inj hWritten).symm
        have hNames := hKept.names
        have hOrder : ((redactFields redactor [] fields).1.map Prod.fst).Nodup := by
          rw [redactFields_eq_foldl]
          exact (foldl_insertField List.Pairwise.nil).1.nodup
        have hDistinct : (fields.map fun field => redactor field.1).Nodup := by
          rw [← hNames]
          exact (hPerm.map Prod.fst).nodup_iff.mpr hOrder
        have hSame : kept = redactedMembers redactor fields :=
          eq_of_perm_of_names (hPerm.trans ((redactFields_perm_iff fields).mpr hDistinct).symm)
            (by simp [hNames, redactedMembers, Function.comp_def]) (hNames ▸ hDistinct)
        exact ⟨hDistinct, hSame ▸ hKept⟩
      · rintro ⟨hDistinct, hKept⟩
        exact ⟨_, _, rfl, (redactFields_perm_iff fields).mpr hDistinct, hKept⟩

theorem kept_redactItems_iff (items : List Value) :
    KeptItems redactor items (redactItems redactor items).1 ↔ ItemsApart redactor items := by
  match items with
  | [] => simp [KeptItems, redactItems, ItemsApart]
  | item :: items =>
      rw [KeptItems, redactItems, ItemsApart, ← kept_redactValue_iff item,
        ← kept_redactItems_iff items]
      simp

theorem kept_redactedMembers_iff (fields : List (Str × Value)) :
    KeptFields redactor fields (redactedMembers redactor fields) ↔ FieldsApart redactor fields := by
  match fields with
  | [] => simp [KeptFields, redactedMembers, FieldsApart]
  | (key, field) :: fields =>
      rw [KeptFields, FieldsApart, ← kept_redactValue_iff field, ← kept_redactedMembers_iff fields]
      simp [redactedMembers]
end

/-- Redacting keeps the shape of just the values that have no two names in one
object that redact alike. -/
theorem shape_kept_iff (redactor : Redactor) (v : Value) :
    Kept redactor v (redactValue redactor v).1 ↔ NamesApart redactor v :=
  kept_redactValue_iff v

/-- Two addresses as names. -/
def twoAddresses : Value := obj [("ada@example.com", .nat 1), ("bob@example.com", .nat 2)]

theorem member_lost :
    (redactValue (redact Unicode.ascii) twoAddresses).1 = obj [("[EMAIL]", .nat 2)] ∧
      ¬ Kept (redact Unicode.ascii) twoAddresses
        (redactValue (redact Unicode.ascii) twoAddresses).1 := by
  refine ⟨by decide +kernel, fun hKept => ?_⟩
  have hApart := (kept_redactValue_iff twoAddresses).mp hKept
  have hObject : twoAddresses = .object
      [("ada@example.com".toList, .nat 1), ("bob@example.com".toList, .nat 2)] := by decide +kernel
  rw [hObject, NamesApart] at hApart
  have hSame : redact Unicode.ascii "ada@example.com".toList =
      redact Unicode.ascii "bob@example.com".toList := by decide +kernel
  exact (List.nodup_cons.mp hApart.1).1 (List.mem_singleton.mpr hSame)

end Gateway.Redact
