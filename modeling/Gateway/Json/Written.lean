import Gateway.Json.Parse

/-! A document as it is written: every member of an object in its place, also
one whose name comes again. Reading a value merges them. -/
namespace Json

mutual
def writtenValue : Nat → Nat → Str → Option (Value × Str)
  | 0, _, _ => none
  | fuel + 1, depth, s =>
      match skipSpace s with
      | 'n' :: 'u' :: 'l' :: 'l' :: rest => some (.null, rest)
      | 't' :: 'r' :: 'u' :: 'e' :: rest => some (.bool true, rest)
      | 'f' :: 'a' :: 'l' :: 's' :: 'e' :: rest => some (.bool false, rest)
      | '\x22' :: rest => (readString rest).map fun (t, after) => (.string t, after)
      | '-' :: rest => (readNumber true rest).map fun (n, after) => (.number n, after)
      | '[' :: rest =>
          if depth = 0 then none
          else match skipSpace rest with
            | ']' :: after => some (.array [], after)
            | _ => (writtenItems fuel (depth - 1) rest).map fun (vs, after) => (.array vs, after)
      | '{' :: rest =>
          if depth = 0 then none
          else match skipSpace rest with
            | '}' :: after => some (.object [], after)
            | _ => (writtenFields fuel (depth - 1) rest).map fun (fs, after) => (.object fs, after)
      | t => (readNumber false t).map fun (n, after) => (.number n, after)

def writtenItems : Nat → Nat → Str → Option (List Value × Str)
  | 0, _, _ => none
  | fuel + 1, depth, s =>
      match writtenValue fuel depth s with
      | none => none
      | some (v, rest) =>
          match skipSpace rest with
          | ',' :: more => (writtenItems fuel depth more).map fun (vs, after) => (v :: vs, after)
          | ']' :: after => some ([v], after)
          | _ => none

def writtenFields : Nat → Nat → Str → Option (List (Str × Value) × Str)
  | 0, _, _ => none
  | fuel + 1, depth, s =>
      match skipSpace s with
      | '\x22' :: rest =>
          match readString rest with
          | none => none
          | some (key, rest) =>
              match skipSpace rest with
              | ':' :: rest =>
                  match writtenValue fuel depth rest with
                  | none => none
                  | some (v, rest) =>
                      match skipSpace rest with
                      | ',' :: more =>
                          (writtenFields fuel depth more).map fun (fs, after) =>
                            ((key, v) :: fs, after)
                      | '}' :: after => some ([(key, v)], after)
                      | _ => none
              | _ => none
      | _ => none
end

def writtenStr (s : Str) : Option Value :=
  match writtenValue (2 * s.length + 2) maxDepth s with
  | some (v, rest) => if skipSpace rest = [] then some v else none
  | none => none

mutual
/-- The last value of each name. -/
def Value.merged : Value → Value
  | .array items => .array (mergedItems items)
  | .object fields => .object (mergedFields [] fields)
  | v => v

def mergedItems : List Value → List Value
  | [] => []
  | v :: vs => v.merged :: mergedItems vs

def mergedFields (start : List (Str × Value)) : List (Str × Value) → List (Str × Value)
  | [] => start
  | (k, v) :: fs => mergedFields (insertField k v.merged start) fs
end

/-! The steps of the reader, in the form of the steps above. -/

theorem readValue_succ (fuel depth : Nat) (s : Str) : readValue (fuel + 1) depth s =
    match skipSpace s with
    | 'n' :: 'u' :: 'l' :: 'l' :: rest => some (.null, rest)
    | 't' :: 'r' :: 'u' :: 'e' :: rest => some (.bool true, rest)
    | 'f' :: 'a' :: 'l' :: 's' :: 'e' :: rest => some (.bool false, rest)
    | '\x22' :: rest => (readString rest).map fun (t, after) => (.string t, after)
    | '-' :: rest => (readNumber true rest).map fun (n, after) => (.number n, after)
    | '[' :: rest =>
        if depth = 0 then none
        else match skipSpace rest with
          | ']' :: after => some (.array [], after)
          | _ => (readItems fuel (depth - 1) rest).map fun (vs, after) => (.array vs, after)
    | '\x7b' :: rest =>
        if depth = 0 then none
        else match skipSpace rest with
          | '\x7d' :: after => some (.object [], after)
          | _ => (readFields fuel (depth - 1) [] rest).map fun (fs, after) => (.object fs, after)
    | t => (readNumber false t).map fun (n, after) => (.number n, after) := rfl

theorem readItems_succ (fuel depth : Nat) (s : Str) : readItems (fuel + 1) depth s =
    match readValue fuel depth s with
    | none => none
    | some (v, rest) =>
        match skipSpace rest with
        | ',' :: more => (readItems fuel depth more).map fun (vs, after) => (v :: vs, after)
        | ']' :: after => some ([v], after)
        | _ => none := rfl

theorem readFields_succ (fuel depth : Nat) (fields : List (Str × Value)) (s : Str) :
    readFields (fuel + 1) depth fields s =
      match skipSpace s with
      | '\x22' :: rest =>
          match readString rest with
          | none => none
          | some (key, rest) =>
              match skipSpace rest with
              | ':' :: rest =>
                  match readValue fuel depth rest with
                  | none => none
                  | some (v, rest) =>
                      match skipSpace rest with
                      | ',' :: more => readFields fuel depth (insertField key v fields) more
                      | '\x7d' :: after => some (insertField key v fields, after)
                      | _ => none
              | _ => none
      | _ => none := rfl

/-- What is read of a document is what is written there, merged. -/
theorem read_eq_written (fuel : Nat) :
    (∀ depth s, readValue fuel depth s =
      (writtenValue fuel depth s).map fun (v, rest) => (v.merged, rest)) ∧
    (∀ depth s, readItems fuel depth s =
      (writtenItems fuel depth s).map fun (vs, rest) => (mergedItems vs, rest)) ∧
    ∀ depth fields s, readFields fuel depth fields s =
      (writtenFields fuel depth s).map fun (fs, rest) => (mergedFields fields fs, rest) := by
  induction fuel with
  | zero => simp [readValue, writtenValue, readItems, writtenItems, readFields, writtenFields]
  | succ fuel ih =>
      obtain ⟨ihValue, ihItems, ihFields⟩ := ih
      refine ⟨fun depth s => ?_, fun depth s => ?_, fun depth fields s => ?_⟩
      · rw [readValue_succ, writtenValue]
        split
        case h_6 rest _ =>
          split_ifs
          · rfl
          split
          · simp [Value.merged, mergedItems]
          · simp [ihItems, Option.map_map, Function.comp_def, Value.merged]
        case h_7 rest _ =>
          split_ifs
          · rfl
          split
          · simp [Value.merged, mergedFields]
          · simp [ihFields, Option.map_map, Function.comp_def, Value.merged]
        all_goals simp [Option.map_map, Function.comp_def, Value.merged]
      · rw [readItems_succ, writtenItems, ihValue]
        cases writtenValue fuel depth s with
        | none => rfl
        | some result =>
            obtain ⟨v, rest⟩ := result
            dsimp only [Option.map_some]
            split
            · simp [ihItems, Option.map_map, Function.comp_def, mergedItems]
            · simp [mergedItems]
            · rfl
      · rw [readFields_succ, writtenFields]
        split
        · rename_i rest _
          cases readString rest with
          | none => rfl
          | some result =>
              obtain ⟨key, rest⟩ := result
              dsimp only
              split
              · rename_i more _
                rw [ihValue]
                cases writtenValue fuel depth more with
                | none => rfl
                | some read =>
                    obtain ⟨v, rest⟩ := read
                    dsimp only [Option.map_some]
                    split
                    · simp [ihFields, Option.map_map, Function.comp_def, mergedFields]
                    · simp [mergedFields]
                    · rfl
              · rfl
        · rfl

theorem fromStr_eq_written (s : Str) : fromStr s = (writtenStr s).map Value.merged := by
  rw [fromStr, writtenStr, (read_eq_written _).1]
  cases writtenValue (2 * s.length + 2) maxDepth s with
  | none => rfl
  | some result =>
      dsimp only [Option.map_some]
      split_ifs <;> rfl

/-! ### Names in their order -/

theorem keyCompare_trans {a b c : Str} (hab : keyCompare a b = .lt) (hbc : keyCompare b c = .lt) :
    keyCompare a c = .lt := by
  induction a generalizing b c with
  | nil =>
      cases b with
      | nil => cases hab
      | cons y ys =>
          cases c with
          | nil => cases hbc
          | cons z zs => rfl
  | cons x xs ih =>
      cases b with
      | nil => cases hab
      | cons y ys =>
          cases c with
          | nil => cases hbc
          | cons z zs =>
              simp only [keyCompare] at hab hbc ⊢
              split_ifs at hab hbc ⊢ <;> first | omega | rfl | exact ih hab hbc

theorem keyCompare_swap {a b : Str} (h : keyCompare a b = .gt) : keyCompare b a = .lt := by
  induction a generalizing b with
  | nil => cases b <;> cases h
  | cons x xs ih =>
      cases b with
      | nil => rfl
      | cons y ys =>
          simp only [keyCompare] at h ⊢
          split_ifs at h ⊢ <;> first | omega | rfl | exact ih h

/-- Members in the order of their names, one member a name. -/
def InOrder (fields : List (Str × Value)) : Prop :=
  fields.Pairwise fun a b => keyCompare a.1 b.1 = .lt

theorem mem_insertField {key : Str} {v : Value} {fields : List (Str × Value)} {f : Str × Value}
    (h : f ∈ insertField key v fields) : f = (key, v) ∨ f ∈ fields := by
  induction fields with
  | nil => exact .inl (List.mem_singleton.mp h)
  | cons field rest ih =>
      obtain ⟨name, w⟩ := field
      simp only [insertField] at h
      split at h
      · exact (List.mem_cons.mp h).imp_right (List.mem_cons_of_mem _)
      · exact List.mem_cons.mp h
      · rcases List.mem_cons.mp h with rfl | h
        · exact .inr List.mem_cons_self
        · exact (ih h).imp_right (List.mem_cons_of_mem _)

theorem InOrder.insertField {fields : List (Str × Value)} (h : InOrder fields) (key : Str)
    (v : Value) : InOrder (insertField key v fields) := by
  induction fields with
  | nil => exact List.pairwise_singleton _ _
  | cons field rest ih =>
      obtain ⟨name, w⟩ := field
      obtain ⟨hFirst, hRest⟩ := List.pairwise_cons.mp h
      simp only [Json.insertField]
      split
      · rename_i hSame
        obtain rfl := (keyCompare_eq_iff key name).mp hSame
        exact List.pairwise_cons.mpr ⟨hFirst, hRest⟩
      · rename_i hLess
        refine List.pairwise_cons.mpr ⟨fun f hf => ?_, h⟩
        rcases List.mem_cons.mp hf with rfl | hf
        · exact hLess
        · exact keyCompare_trans hLess (hFirst f hf)
      · rename_i hMore
        refine List.pairwise_cons.mpr ⟨fun f hf => ?_, ih hRest⟩
        rcases mem_insertField hf with rfl | hf
        · exact keyCompare_swap hMore
        · exact hFirst f hf

theorem InOrder.nodup {fields : List (Str × Value)} (h : InOrder fields) :
    (fields.map Prod.fst).Nodup := by
  rw [List.nodup_iff_pairwise_ne, List.pairwise_map]
  refine h.imp fun {a b} hLess hSame => ?_
  rw [(keyCompare_eq_iff a.1 b.1).mpr hSame] at hLess
  cases hLess

/-- Members put in one after the other: in order, and all of them when their
names are distinct. -/
theorem foldl_insertField {fields start : List (Str × Value)} (hStart : InOrder start) :
    InOrder (fields.foldl (fun m f => insertField f.1 f.2 m) start) ∧
      ((∀ f ∈ fields, f.1 ∉ start.map Prod.fst) → (fields.map Prod.fst).Nodup →
        (fields.foldl (fun m f => insertField f.1 f.2 m) start).Perm (start ++ fields)) := by
  induction fields generalizing start with
  | nil => exact ⟨hStart, fun _ _ => by simp⟩
  | cons f fields ih =>
      obtain ⟨hOrder, hPerm⟩ := ih (hStart.insertField f.1 f.2)
      refine ⟨hOrder, fun hFresh hDistinct => ?_⟩
      obtain ⟨hFirst, hRest⟩ := List.nodup_cons.mp hDistinct
      have hStep := insertField_perm (v := f.2) (hFresh f List.mem_cons_self)
      refine (hPerm (fun g hg hMem => ?_) hRest).trans ((hStep.append_right _).trans ?_)
      · rcases List.mem_cons.mp ((hStep.map Prod.fst).mem_iff.mp hMem) with h | h
        · exact hFirst (h ▸ List.mem_map_of_mem hg)
        · exact hFresh g (List.mem_cons_of_mem _ hg) h
      · simpa using List.perm_middle.symm

end Json
