import Gateway.Json.RoundTrip
import Gateway.Reqlog.Disk
import Gateway.Server.Admin.Accounts
import Gateway.Wire.Splitting

/-! The tags of a request: from its header, through the text stored with its turn,
to an export that asks for one of them. -/
namespace Gateway.Server

open Json
open Store.KeyScope (trim)
open Reqlog (tagsMatch)

/-! ### The header -/

def plainTag (s also : Str) : Bool :=
  s ≠ [] && decide ((Text.toUtf8 s).length ≤ 128) &&
    s.all fun c => c.isAlphanum || "-_.".toList.contains c || also.contains c

def insertTags : List (Str × Value) → List Str → Option (List (Str × Value))
  | tags, [] => some tags
  | tags, pair :: rest =>
      match Wire.splitOnce '=' pair with
      | none => none
      | some (key, value) =>
          if !plainTag (trim key) [] || !plainTag (trim value) [':'] then none
          else insertTags (insertField (trim key) (.string (trim value)) tags) rest

/-- The pieces between commas that are not blank. -/
def tagPieces (value : Str) : List Str :=
  (value.splitOnP (· = ',')).filter fun pair => trim pair ≠ []

def parseTags (value : Str) : Option Str :=
  match insertTags [] (tagPieces value) with
  | none | some [] => none
  | some tags => some (Value.object tags).render

/-! ### What a header says -/

/-- The key and the value of a piece. -/
def tagPair (piece : Str) : Option (Str × Str) :=
  (Wire.splitOnce '=' piece).map fun (key, value) => (trim key, trim value)

def headerPairs (header : Str) : Option (List (Str × Str)) := (tagPieces header).mapM tagPair

def lastValue (k : Str) (pairs : List (Str × Str)) : Option Str := pairs.reverse.lookup k

/-- A pair of the header, the last of its key. -/
def HasTag (header k v : Str) : Prop := ∃ pairs ∈ headerPairs header, lastValue k pairs = some v

/-- A document with these members and no others. -/
def Stores (tags : Str) (value : Str → Option Str) : Prop :=
  ∃ fields, fromStr tags = some (.object fields) ∧ (fields.map Prod.fst).Nodup ∧
    ∀ k, lookupField k fields = (value k).map Value.string

/-! ### The members -/

section

variable {pairs : List (Str × Str)} {start : List (Str × Value)}

def putTags (start : List (Str × Value)) (pairs : List (Str × Str)) : List (Str × Value) :=
  pairs.foldl (fun m p => insertField p.1 (.string p.2) m) start

/-- The loop puts the pairs in, if each of them is plain. -/
theorem insertTags_eq_some {tags : List (Str × Value)} {pieces : List Str}
    (h : insertTags start pieces = some tags) :
    ∃ pairs, pieces.mapM tagPair = some pairs ∧
      (∀ p ∈ pairs, plainTag p.1 [] = true ∧ plainTag p.2 [':'] = true) ∧
      tags = putTags start pairs := by
  induction pieces generalizing start with
  | nil =>
      cases h
      exact ⟨[], rfl, by simp, rfl⟩
  | cons piece rest ih =>
      rw [insertTags] at h
      cases hSplit : Wire.splitOnce '=' piece with
      | none =>
          rw [hSplit] at h
          cases h
      | some pair =>
          obtain ⟨key, value⟩ := pair
          rw [hSplit] at h
          dsimp only at h
          split_ifs at h with hPlain
          obtain ⟨pairs, hPairs, hAll, hTags⟩ := ih h
          have hPair : tagPair piece = some (trim key, trim value) := by
            rw [tagPair, hSplit]
            rfl
          refine ⟨(trim key, trim value) :: pairs, ?_, ?_, hTags⟩
          · rw [List.mapM_cons, hPair, hPairs]
            rfl
          · refine List.forall_mem_cons.mpr ⟨?_, hAll⟩
            simpa using hPlain

theorem lookupField_putTags (k : Str) :
    lookupField k (putTags start pairs) =
      ((lastValue k pairs).map Value.string).or (lookupField k start) := by
  induction pairs generalizing start with
  | nil => rfl
  | cons p rest ih =>
      rw [putTags, List.foldl_cons, ← putTags, ih, lookupField_insertField, lastValue, lastValue,
        List.reverse_cons, List.lookup_append]
      obtain ⟨name, tag⟩ := p
      rw [List.lookup_cons]
      by_cases hKey : name = k
      · subst hKey
        cases rest.reverse.lookup name <;> simp
      · have hNe : (k == name) = false := by simpa using Ne.symm hKey
        cases rest.reverse.lookup k <;> simp [hKey, hNe]

theorem inOrder_putTags (h : InOrder start) : InOrder (putTags start pairs) := by
  induction pairs generalizing start with
  | nil => exact h
  | cons p rest ih => exact ih (h.insertField p.1 (.string p.2))

theorem mem_putTags {f : Str × Value} (h : f ∈ putTags start pairs) :
    f ∈ start ∨ ∃ v, f.2 = .string v := by
  induction pairs generalizing start with
  | nil => exact .inl h
  | cons p rest ih =>
      rcases ih h with hStart | hString
      · rcases mem_insertField hStart with rfl | hStart
        · exact .inr ⟨p.2, rfl⟩
        · exact .inl hStart
      · exact .inr hString

/-- The stored text is read back as the pairs. -/
theorem stores_render (pairs : List (Str × Str)) :
    Stores (Value.object (putTags [] pairs)).render fun k => lastValue k pairs := by
  have hOrder : InOrder (putTags [] pairs) := inOrder_putTags List.Pairwise.nil
  have hStrings : ∀ f ∈ putTags [] pairs, ∃ v, f.2 = .string v := fun f hf =>
    (mem_putTags hf).resolve_left (by simp)
  have hReadable : (Value.object (putTags [] pairs)).Readable maxDepth := by
    refine ⟨by decide, fieldsReadable_of fun f hf => ?_⟩
    obtain ⟨v, hString⟩ := hStrings f hf
    rw [hString]
    trivial
  refine ⟨rereadFields [] (putTags [] pairs), fromStr_render hReadable, ?_, fun k => ?_⟩
  · exact (inOrder_rereadFields List.Pairwise.nil).nodup
  · rw [lookupField_rereadFields hOrder.nodup, lookupField_putTags]
    dsimp only
    cases lastValue k pairs <;> rfl

end

theorem parseTags_eq_some {header tags : Str} (h : parseTags header = some tags) :
    ∃ pairs, headerPairs header = some pairs ∧
      (∀ p ∈ pairs, plainTag p.1 [] = true ∧ plainTag p.2 [':'] = true) ∧
      Stores tags fun k => lastValue k pairs := by
  unfold parseTags at h
  cases hInsert : insertTags [] (tagPieces header) with
  | none =>
      rw [hInsert] at h
      cases h
  | some fields =>
      obtain ⟨pairs, hPairs, hPlain, rfl⟩ := insertTags_eq_some hInsert
      rw [hInsert] at h
      refine ⟨pairs, hPairs, hPlain, ?_⟩
      have hStores := stores_render pairs
      cases hFields : putTags [] pairs with
      | nil =>
          rw [hFields] at h
          cases h
      | cons f fields =>
          rw [hFields] at h hStores
          cases h
          exact hStores

/-! ### The filter of an export -/

/-- A filter that asks for one tag finds the turns whose stored tags have it. -/
theorem tagsMatch_iff {tags : Str} {value : Str → Option Str} (h : Stores tags value) (k v : Str) :
    tagsMatch (some tags) [(k, v)] = true ↔ value k = some v := by
  obtain ⟨fields, hRead, -, hValue⟩ := h
  have hGet : (Value.object fields).get (.ofList k) = (value k).map Value.string := by
    rw [Value.get, ← hValue, String.toList_ofList]
  rw [tagsMatch, Option.bind_some, hRead]
  simp only [List.isEmpty_cons, Bool.false_or, List.all_cons, List.all_nil, Bool.and_true, hGet]
  cases value k with
  | none => simp
  | some w => simp [Value.asStr]

theorem tagsMatch_parseTags (header k v : Str) :
    tagsMatch (parseTags header) [(k, v)] = true ↔ parseTags header ≠ none ∧ HasTag header k v := by
  cases hTags : parseTags header with
  | none => simp [tagsMatch]
  | some tags =>
      obtain ⟨pairs, hPairs, -, hStores⟩ := parseTags_eq_some hTags
      rw [tagsMatch_iff hStores]
      unfold HasTag
      rw [hPairs]
      simp

theorem toNat_of_isAlphanum {c : Char} (h : c.isAlphanum = true) :
    48 ≤ c.toNat ∧ c.toNat ≤ 57 ∨ 65 ≤ c.toNat ∧ c.toNat ≤ 90 ∨ 97 ≤ c.toNat ∧ c.toNat ≤ 122 := by
  have hKinds : (c.isUpper || c.isLower || c.isDigit) = true := h
  rw [Bool.or_eq_true, Bool.or_eq_true] at hKinds
  rcases hKinds with (hUpper | hLower) | hDigit
  · exact .inr (.inl (of_decide_eq_true hUpper))
  · obtain ⟨hLow, hHigh⟩ := Bool.and_eq_true_iff.mp hLower
    exact .inr (.inr ⟨of_decide_eq_true hLow, of_decide_eq_true hHigh⟩)
  · obtain ⟨hLow, hHigh⟩ := Bool.and_eq_true_iff.mp hDigit
    exact .inl ⟨of_decide_eq_true hLow, of_decide_eq_true hHigh⟩

/-- The characters of a plain word cut no list and no pair, and are not blank. -/
theorem solid_of_plain {s also : Str} (h : plainTag s also = true) {c : Char} (hc : c ∈ s) :
    Wire.isWhitespace c = false ∧ c ≠ ',' ∧ c ≠ ':' ∨ c ∈ also := by
  unfold plainTag at h
  rw [Bool.and_eq_true, List.all_eq_true] at h
  have hChar := h.2 c hc
  rw [Bool.or_eq_true, Bool.or_eq_true, List.contains_iff_mem, List.contains_iff_mem] at hChar
  rcases hChar with (hWord | hMark) | hAlso
  · have hRange := toNat_of_isAlphanum hWord
    refine .inl ⟨?_, ?_, ?_⟩
    · unfold Wire.isWhitespace
      simp
      omega
    · rintro rfl
      exact absurd hWord (by decide)
    · rintro rfl
      exact absurd hWord (by decide)
  · have hMarks : "-_.".toList.all (fun d => !Wire.isWhitespace d && d != ',' && d != ':') = true := by
      decide
    have hPlain := List.all_eq_true.mp hMarks c hMark
    simp only [Bool.and_eq_true, Bool.not_eq_true', bne_iff_ne, ne_eq, and_assoc] at hPlain
    exact .inl hPlain
  · exact .inr hAlso

theorem trim_of_solid {s : Str} (h : ∀ c ∈ s, Wire.isWhitespace c = false) : trim s = s := by
  have hEnd : Wire.trimEnd s = s := by
    rw [Wire.trimEnd, List.rdropWhile_eq_self_iff]
    intro hSome
    simp [h _ (List.getLast_mem hSome)]
  rw [trim, hEnd, List.dropWhile_eq_self_iff]
  intro hPos
  simp [h _ (List.getElem_mem hPos)]

/-- A plain key and value are asked for by `key:value`. -/
theorem tagPairs_plain {k v : Str} (hKey : plainTag k [] = true) (hValue : plainTag v [':'] = true) :
    tagPairs (listParts (k ++ ':' :: v)) = .ok [(k, v)] := by
  have hSolid : ∀ c ∈ k ++ ':' :: v, Wire.isWhitespace c = false ∧ c ≠ ',' := by
    intro c hc
    rcases List.mem_append.mp hc with hc | hc
    · obtain ⟨hSpace, hComma, -⟩ := (solid_of_plain hKey hc).resolve_right List.not_mem_nil
      exact ⟨hSpace, hComma⟩
    · rcases List.mem_cons.mp hc with rfl | hc
      · decide
      · rcases solid_of_plain hValue hc with ⟨hSpace, hComma, -⟩ | hColon
        · exact ⟨hSpace, hComma⟩
        · rw [List.mem_singleton.mp hColon]
          decide
  have hNoColon : ':' ∉ k := fun hc =>
    ((solid_of_plain hKey hc).resolve_right List.not_mem_nil).2.2 rfl
  have hParts : listParts (k ++ ':' :: v) = [k ++ ':' :: v] := by
    rw [listParts, List.splitOnP_eq_singleton (fun c hc => by simp [(hSolid c hc).2]), List.map_singleton,
      trim_of_solid fun c hc => (hSolid c hc).1]
    simp
  rw [hParts, tagPairs, Wire.splitOnce_append hNoColon]
  rfl

/-- An export with the text of a tag filter, from the rows that are read. -/
def exportTagged (text : Str) (f : Reqlog.CaptureFilter) (scan : List Reqlog.Turn) :
    Except Error (List Reqlog.CapturedTurn) :=
  (tagPairs (listParts text)).map fun tags => { f with tags := tags }.select scan

/-- The tags of a header: it is refused whole, or its pairs are stored, with the
last value of a repeated key. An export that asks for one tag returns the turn
where the pair is one of them, and each of them can be asked for. -/
theorem tags_exported (header : Str) :
    (parseTags header = none ∨
      ∃ tags pairs, parseTags header = some tags ∧ headerPairs header = some pairs ∧
        Stores tags fun k => lastValue k pairs) ∧
    (∀ text k v, tagPairs (listParts text) = .ok [(k, v)] →
      ∀ (f : Reqlog.CaptureFilter) (scan : List Reqlog.Turn),
        ∃ turns, exportTagged text f scan = .ok turns ∧
          ∀ t : Reqlog.CapturedTurn, t.tags = parseTags header →
            (t ∈ turns ↔
              t ∈ { f with tags := [] }.select scan ∧ parseTags header ≠ none ∧
                HasTag header k v)) ∧
    ∀ k v, parseTags header ≠ none → HasTag header k v →
      tagPairs (listParts (k ++ ':' :: v)) = .ok [(k, v)] := by
  refine ⟨?_, ?_, ?_⟩
  · cases hTags : parseTags header with
    | none => exact .inl rfl
    | some tags =>
        obtain ⟨pairs, hPairs, -, hStores⟩ := parseTags_eq_some hTags
        exact .inr ⟨tags, pairs, rfl, hPairs, hStores⟩
  · intro text k v hText f scan
    refine ⟨{ f with tags := [(k, v)] }.select scan, by rw [exportTagged, hText]; rfl, ?_⟩
    intro t hTags
    have hTakes : ({ f with tags := [(k, v)] } : Reqlog.CaptureFilter).takes =
        ({ f with tags := [] } : Reqlog.CaptureFilter).takes := rfl
    rw [Reqlog.CaptureFilter.select, Reqlog.CaptureFilter.select, List.mem_filter, List.mem_filter,
      hTags, tagsMatch_parseTags, hTakes]
    simp [tagsMatch]
  · rintro k v hSome ⟨pairs, hPairs, hLast⟩
    obtain ⟨tags, hTags⟩ := Option.ne_none_iff_exists'.mp hSome
    obtain ⟨pairs', hPairs', hPlain, -⟩ := parseTags_eq_some hTags
    obtain rfl := Option.some.inj (hPairs'.symm.trans hPairs)
    have hMem : (k, v) ∈ pairs' := by
      obtain ⟨l₁, l₂, hPairs, -⟩ := List.lookup_eq_some_iff.mp hLast
      rw [← List.mem_reverse, hPairs]
      simp
    obtain ⟨hKey, hValue⟩ := hPlain _ hMem
    exact tagPairs_plain hKey hValue

/-- The last value of a repeated key can be asked for. -/
theorem last_space_exported :
    tagPairs (listParts "space:b".toList) = .ok [("space".toList, "b".toList)] := by
  have hHas : HasTag "space=a, space = b".toList "space".toList "b".toList :=
    ⟨[("space".toList, "a".toList), ("space".toList, "b".toList)], by decide +kernel, by decide⟩
  exact (tags_exported "space=a, space = b".toList).2.2 _ _ (by decide +kernel) hHas

end Gateway.Server
