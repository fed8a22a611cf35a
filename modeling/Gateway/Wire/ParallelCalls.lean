import Gateway.Wire.Aggregate
import Gateway.Wire.OpenaiChat

/-! Parallel calls on a Chat Completions stream. The stream keys each fragment
of a call by an index; the decoder drops the index and the aggregator gives
every fragment to the latest call. The two agree exactly on the streams that
`Orderly` describes. -/
namespace Gateway.Wire

open Json

/-! ### Fragments keyed by an index -/

/-- One entry of a `tool_calls` list. A missing id is an empty one. -/
structure Fragment (κ : Type) where
  index : κ
  id : Str
  name : Str
  args : Str
  deriving DecidableEq

section Keyed

variable {κ : Type} [DecidableEq κ]

/-- The indices of a stream, in the order of their first fragments. -/
def indices (frags : List (Fragment κ)) : List κ :=
  frags.foldl (fun seen f => if f.index ∈ seen then seen else seen ++ [f.index]) []

/-- The call an index names: the id and name of its first fragment, and the
arguments of all its fragments in order. -/
def callOf (frags : List (Fragment κ)) (k : κ) : PartialTool :=
  let own := frags.filter (fun f => f.index = k)
  ⟨(own.head?.map Fragment.id).getD [], (own.head?.map Fragment.name).getD [],
    own.flatMap Fragment.args⟩

/-- One call for each index. -/
def expectedCalls (frags : List (Fragment κ)) : List PartialTool :=
  (indices frags).map (callOf frags)

/-- What decoding and aggregating do with a fragment: an id starts a call, and
arguments go to the latest one. -/
def collect (tools : List PartialTool) (f : Fragment κ) : List PartialTool :=
  extendLast f.args (if f.id.isEmpty then tools else tools ++ [⟨f.id, f.name, []⟩])

/-- Every index opens with an id and never repeats one, and arguments belong
to the index opened last. `seen` lists the indices opened so far. -/
def Orderly : List κ → List (Fragment κ) → Prop
  | _, [] => True
  | seen, f :: rest =>
      if f.index ∈ seen then
        f.id = [] ∧ (f.args = [] ∨ seen.getLast? = some f.index) ∧ Orderly seen rest
      else f.id ≠ [] ∧ Orderly (seen ++ [f.index]) rest

def Orderly.decide : (seen : List κ) → (frags : List (Fragment κ)) → Decidable (Orderly seen frags)
  | _, [] => isTrue trivial
  | seen, f :: rest =>
      have : Decidable (Orderly seen rest) := Orderly.decide seen rest
      have : Decidable (Orderly (seen ++ [f.index]) rest) := Orderly.decide (seen ++ [f.index]) rest
      inferInstanceAs (Decidable (if f.index ∈ seen then
          f.id = [] ∧ (f.args = [] ∨ seen.getLast? = some f.index) ∧ Orderly seen rest
        else f.id ≠ [] ∧ Orderly (seen ++ [f.index]) rest))

instance (seen : List κ) (frags : List (Fragment κ)) : Decidable (Orderly seen frags) :=
  Orderly.decide seen frags

/-- The calls of a stream as a table, filled fragment by fragment. -/
def gather (table : List (κ × PartialTool)) (f : Fragment κ) : List (κ × PartialTool) :=
  if f.index ∈ table.map Prod.fst then
    table.map fun e =>
      if e.1 = f.index then (e.1, { e.2 with json := e.2.json ++ f.args }) else e
  else table ++ [(f.index, ⟨f.id, f.name, f.args⟩)]

theorem gather_keys (table : List (κ × PartialTool)) (f : Fragment κ) :
    (gather table f).map Prod.fst =
      if f.index ∈ table.map Prod.fst then table.map Prod.fst
      else table.map Prod.fst ++ [f.index] := by
  unfold gather
  split_ifs with h
  · rw [List.map_map]
    refine List.map_congr_left fun e _ => ?_
    simp only [Function.comp_apply]
    split_ifs <;> rfl
  · simp

theorem indices_concat (frags : List (Fragment κ)) (f : Fragment κ) :
    indices (frags ++ [f]) =
      if f.index ∈ indices frags then indices frags else indices frags ++ [f.index] := by
  rw [indices, List.foldl_append]
  rfl

theorem mem_indices (frags : List (Fragment κ)) (k : κ) :
    k ∈ indices frags ↔ ∃ f ∈ frags, f.index = k := by
  induction frags using List.reverseRecOn with
  | nil => simp [indices]
  | append_singleton frags f ih =>
      rw [indices_concat]
      have hSplit : (∃ g ∈ frags ++ [f], g.index = k) ↔
          (∃ g ∈ frags, g.index = k) ∨ f.index = k := by
        simp [or_and_right, exists_or]
      rw [hSplit, ← ih]
      split_ifs with h
      · exact ⟨Or.inl, fun hk => hk.elim id (fun e => e ▸ h)⟩
      · simp [eq_comm]

/-- The table is the list of expected calls, each under its index. -/
theorem foldl_gather (frags : List (Fragment κ)) :
    frags.foldl gather [] = (indices frags).map (fun k => (k, callOf frags k)) := by
  induction frags using List.reverseRecOn with
  | nil => rfl
  | append_singleton frags f ih =>
      have hKeys : (frags.foldl gather []).map Prod.fst = indices frags := by
        rw [ih, List.map_map]
        exact List.map_id _
      rw [List.foldl_append, List.foldl_cons, List.foldl_nil, indices_concat, gather, hKeys]
      split_ifs with h
      · rw [ih, List.map_map]
        refine List.map_congr_left fun k hk => ?_
        by_cases hKey : f.index = k
        · obtain ⟨g, hg, hgk⟩ := (mem_indices frags k).mp hk
          have hOwn : frags.filter (fun f => f.index = k) ≠ [] :=
            List.ne_nil_of_mem (List.mem_filter.mpr ⟨hg, by simpa using hgk⟩)
          simp [callOf, hKey, List.filter_append, List.head?_append_of_ne_nil _ hOwn]
        · have : ¬ k = f.index := fun e => hKey e.symm
          simp [callOf, hKey, this, List.filter_append]
      · rw [ih, List.map_append, List.map_singleton]
        congr 1
        · refine List.map_congr_left fun k hk => ?_
          have hKey : ¬ f.index = k := fun e => h (e ▸ hk)
          simp [callOf, hKey, List.filter_append]
        · have hNone : frags.filter (fun g => g.index = f.index) = [] := by
            rw [List.filter_eq_nil_iff]
            intro g hg e
            exact h ((mem_indices frags f.index).mpr ⟨g, hg, by simpa using e⟩)
          simp [callOf, List.filter_append, hNone]

theorem expectedCalls_eq (frags : List (Fragment κ)) :
    expectedCalls frags = (frags.foldl gather []).map Prod.snd := by
  rw [foldl_gather, List.map_map]
  rfl

/-! ### Agreement and divergence -/

omit [DecidableEq κ] in
/-- A call is only ever started with an id. -/
theorem collect_id {tools : List PartialTool} (f : Fragment κ) (named : ∀ t ∈ tools, t.id ≠ []) :
    ∀ t ∈ collect tools f, t.id ≠ [] := by
  refine extendLast_id ?_
  intro t ht
  split_ifs at ht with hId
  · exact named t ht
  · rcases List.mem_append.mp ht with ht | ht
    · exact named t ht
    · rw [List.mem_singleton.mp ht]
      simpa using hId

omit [DecidableEq κ] in
theorem collect_length (tools : List PartialTool) (f : Fragment κ) :
    (collect tools f).length = tools.length + if f.id.isEmpty then 0 else 1 := by
  rw [collect, extendLast_length]
  split_ifs <;> simp

theorem gather_length (table : List (κ × PartialTool)) (f : Fragment κ) :
    (gather table f).length =
      table.length + if f.index ∈ table.map Prod.fst then 0 else 1 := by
  have := congrArg List.length (gather_keys table f)
  simp only [List.length_map] at this
  rw [this]
  split_ifs <;> simp

/-- Signs that the calls collected can no longer become the expected ones: an
expected call has no id, more calls were started than are expected, or an
expected call has arguments that a call no longer extended has not. -/
def Diverged (tools : List PartialTool) (table : List (κ × PartialTool)) : Prop :=
  (∃ e ∈ table, e.2.id = []) ∨ table.length < tools.length ∨
    ∃ i t e, tools[i]? = some t ∧ table[i]? = some e ∧ i + 1 < tools.length ∧
      t.json.length < e.2.json.length

omit [DecidableEq κ] in
theorem Diverged.ne {tools : List PartialTool} {table : List (κ × PartialTool)}
    (h : Diverged tools table) (named : ∀ t ∈ tools, t.id ≠ []) :
    tools ≠ table.map Prod.snd := by
  rintro rfl
  rcases h with ⟨e, he, hId⟩ | hLength | ⟨i, t, e, ht, he, -, hJson⟩
  · exact named e.2 (List.mem_map_of_mem he) hId
  · simp at hLength
  · rw [List.getElem?_map, he, Option.map_some, Option.some.injEq] at ht
    rw [ht] at hJson
    exact lt_irrefl _ hJson

/-- Filling the table keeps the ids it has, and only lengthens arguments. -/
theorem gather_getElem? {table : List (κ × PartialTool)} {i : Nat} {e : κ × PartialTool}
    (f : Fragment κ) (h : table[i]? = some e) :
    ∃ e', (gather table f)[i]? = some e' ∧ e'.2.id = e.2.id ∧
      e.2.json.length ≤ e'.2.json.length := by
  unfold gather
  split_ifs with hSeen
  · rw [List.getElem?_map, h, Option.map_some]
    refine ⟨_, rfl, ?_⟩
    split_ifs <;> simp
  · exact ⟨e, by rw [List.getElem?_append_left (List.getElem?_eq_some_iff.mp h).1, h], rfl, le_rfl⟩

omit [DecidableEq κ] in
theorem collect_getElem? {tools : List PartialTool} {i : Nat} (f : Fragment κ)
    (hEarlier : i + 1 < tools.length) : (collect tools f)[i]? = tools[i]? := by
  rw [collect, extendLast_getElem?]
  · split_ifs
    · rfl
    · rw [List.getElem?_append_left (by omega)]
  · split_ifs
    · exact hEarlier
    · rw [List.length_append]
      omega

/-- No later fragment repairs a divergence. -/
theorem Diverged.step {tools : List PartialTool} {table : List (κ × PartialTool)}
    (h : Diverged tools table) (f : Fragment κ) : Diverged (collect tools f) (gather table f) := by
  rcases h with ⟨e, he, hId⟩ | hLength | ⟨i, t, e, ht, he, hEarlier, hJson⟩
  · obtain ⟨i, hi⟩ := List.getElem?_of_mem he
    obtain ⟨e', he', hId', -⟩ := gather_getElem? f hi
    exact Or.inl ⟨e', List.mem_of_getElem? he', hId'.trans hId⟩
  · by_cases hSeen : f.index ∈ table.map Prod.fst
    · refine Or.inr (Or.inl ?_)
      rw [gather_length, collect_length, if_pos hSeen]
      omega
    · by_cases hId : f.id = []
      · refine Or.inl ⟨(f.index, ⟨f.id, f.name, f.args⟩), ?_, hId⟩
        rw [gather, if_neg hSeen]
        simp
      · refine Or.inr (Or.inl ?_)
        rw [gather_length, collect_length, if_neg hSeen, if_neg (by simpa using hId)]
        omega
  · obtain ⟨e', he', -, hLonger⟩ := gather_getElem? f he
    refine Or.inr (Or.inr ⟨i, t, e', ?_, he', ?_, by omega⟩)
    · rw [collect_getElem? f hEarlier, ht]
    · rw [collect_length]
      omega

theorem Diverged.foldl {tools : List PartialTool} {table : List (κ × PartialTool)}
    (h : Diverged tools table) (named : ∀ t ∈ tools, t.id ≠ []) (frags : List (Fragment κ)) :
    frags.foldl collect tools ≠ (frags.foldl gather table).map Prod.snd := by
  induction frags generalizing tools table with
  | nil => exact h.ne named
  | cons f rest ih => exact ih (h.step f) (collect_id f named)

/-- A fragment of the call opened last lands on it. -/
theorem collect_of_mine {table : List (κ × PartialTool)} {f : Fragment κ} (plain : f.id = [])
    (mine : f.args = [] ∨ (table.map Prod.fst).getLast? = some f.index)
    (distinct : (table.map Prod.fst).Nodup) (seen : f.index ∈ table.map Prod.fst) :
    collect (table.map Prod.snd) f = (gather table f).map Prod.snd := by
  rw [collect, gather, if_pos seen, plain, List.isEmpty_nil, if_pos rfl, List.map_map]
  rcases mine with hEmpty | hLast
  · rw [hEmpty, extendLast_nil]
    refine List.map_congr_left fun e _ => ?_
    simp only [Function.comp_apply, List.append_nil]
    split_ifs <;> rfl
  · cases table using List.reverseRecOn with
    | nil => simp at hLast
    | append_singleton table e =>
        simp only [List.map_append, List.map_singleton, List.getLast?_concat,
          Option.some.injEq] at hLast
        rw [List.map_append, List.map_singleton, extendLast_concat, List.map_append,
          List.map_singleton, Function.comp_apply, if_pos hLast]
        congr 1
        refine List.map_congr_left fun g hg => ?_
        have hOther : g.1 ≠ f.index := by
          intro h
          simp only [List.map_append, List.map_singleton] at distinct
          exact (List.nodup_append.mp distinct).2.2 g.1 (List.mem_map_of_mem hg) e.1
            (by simp) (h.trans hLast.symm)
        simp [hOther]

/-- A fragment of a call opened earlier is lost to it for good. -/
theorem diverged_of_foreign {table : List (κ × PartialTool)} {f : Fragment κ}
    (hArgs : f.args ≠ []) (hLast : (table.map Prod.fst).getLast? ≠ some f.index)
    (seen : f.index ∈ table.map Prod.fst) :
    Diverged (collect (table.map Prod.snd) f) (gather table f) := by
  obtain ⟨e, he, hKey⟩ := List.mem_map.mp seen
  obtain ⟨i, hi⟩ := List.getElem?_of_mem he
  have hBound := (List.getElem?_eq_some_iff.mp hi).1
  have hEarlier : i + 1 < table.length := by
    by_contra hEnd
    refine hLast ?_
    rw [List.getLast?_eq_getElem?, List.length_map, show table.length - 1 = i by omega,
      List.getElem?_map, hi, Option.map_some, hKey]
  refine Or.inr (Or.inr ⟨i, e.2, (e.1, { e.2 with json := e.2.json ++ f.args }), ?_, ?_, ?_, ?_⟩)
  · rw [collect_getElem? f (by simpa using hEarlier), List.getElem?_map, hi, Option.map_some]
  · rw [gather, if_pos seen, List.getElem?_map, hi, Option.map_some, if_pos hKey]
  · rw [collect_length, List.length_map]
    omega
  · simpa [List.length_pos_iff] using hArgs

/-- From a table whose calls are those collected, the rest of the stream keeps
them together exactly when it is orderly. -/
theorem foldl_collect_eq_iff {tools : List PartialTool} {table : List (κ × PartialTool)}
    (agree : tools = table.map Prod.snd) (named : ∀ t ∈ tools, t.id ≠ [])
    (distinct : (table.map Prod.fst).Nodup) (frags : List (Fragment κ)) :
    frags.foldl collect tools = (frags.foldl gather table).map Prod.snd ↔
      Orderly (table.map Prod.fst) frags := by
  induction frags generalizing tools table with
  | nil => simpa [Orderly] using agree
  | cons f rest ih =>
      have hNamed := collect_id f named
      have hDistinct : ((gather table f).map Prod.fst).Nodup := by
        rw [gather_keys]
        split_ifs with hSeen
        · exact distinct
        · exact List.nodup_append.mpr ⟨distinct, by simp, by
            rintro k hk _ hf rfl
            exact hSeen (List.mem_singleton.mp hf ▸ hk)⟩
      have hBad (h : Diverged (collect tools f) (gather table f)) :
          ¬ (rest.foldl collect (collect tools f) =
            (rest.foldl gather (gather table f)).map Prod.snd) := h.foldl hNamed rest
      rw [List.foldl_cons, List.foldl_cons, Orderly]
      by_cases hSeen : f.index ∈ table.map Prod.fst
      · rw [if_pos hSeen]
        by_cases hId : f.id = []
        · by_cases hMine : f.args = [] ∨ (table.map Prod.fst).getLast? = some f.index
          · have hAgree : collect tools f = (gather table f).map Prod.snd := by
              rw [agree, collect_of_mine hId hMine distinct hSeen]
            rw [ih hAgree hNamed hDistinct, gather_keys, if_pos hSeen]
            exact ⟨fun h => ⟨hId, hMine, h⟩, fun h => h.2.2⟩
          · refine iff_of_false (hBad ?_) (fun h => hMine h.2.1)
            rw [not_or] at hMine
            exact agree ▸ diverged_of_foreign hMine.1 hMine.2 hSeen
        · refine iff_of_false (hBad (Or.inr (Or.inl ?_))) (fun h => hId h.1)
          rw [gather_length, collect_length, if_pos hSeen, if_neg (by simpa using hId), agree]
          simp
      · rw [if_neg hSeen]
        by_cases hId : f.id = []
        · refine iff_of_false (hBad (Or.inl ?_)) (fun h => h.1 hId)
          refine ⟨(f.index, ⟨f.id, f.name, f.args⟩), ?_, hId⟩
          rw [gather, if_neg hSeen]
          simp
        · have hAgree : collect tools f = (gather table f).map Prod.snd := by
            rw [collect, gather, if_neg hSeen, if_neg (by simpa using hId), extendLast_concat,
              agree]
            simp
          rw [ih hAgree hNamed hDistinct, gather_keys, if_neg hSeen]
          exact ⟨fun h => ⟨hId, h⟩, fun h => h.2⟩

end Keyed

/-! ### The stream -/

/-- What an entry of `tool_calls` says, its `index` included. -/
def callFragment (c : Value) : Fragment (Option Value) :=
  let f := (c.get "function").getD .null
  ⟨c.get "index", (optStr c "id").getD [], (optStr f "name").getD [],
    (optStr f "arguments").getD []⟩

def valueFragments (v : Value) : List (Fragment (Option Value)) :=
  match OpenaiChat.firstChoice v with
  | some choice =>
      ((optArr ((choice.get "delta").getD .null) "tool_calls").getD []).map callFragment
  | none => []

/-- The entries a line carries; the sentinel and unreadable lines carry none. -/
def lineFragments (line : Str) : List (Fragment (Option Value)) :=
  match sseData line with
  | none => []
  | some data =>
      if data = "[DONE]".toList then []
      else match fromStr data with
        | none => []
        | some v => valueFragments v

private theorem toolsAfter_decodeCall (tools : List PartialTool) (c : Value) :
    (OpenaiChat.decodeCall c).foldl toolsAfter tools = collect tools (callFragment c) := by
  simp only [OpenaiChat.decodeCall, callFragment, List.foldl_append]
  generalize (c.get "function").getD .null = f
  rcases optStr c "id" with _ | _ | ⟨x, xs⟩ <;>
    rcases optStr f "arguments" with _ | _ | ⟨y, ys⟩ <;>
    simp [collect, OpenaiChat.nonEmpty, toolsAfter, extendLast_nil]

private theorem toolsAfter_calls (tools : List PartialTool) (calls : List Value) :
    (calls.flatMap OpenaiChat.decodeCall).foldl toolsAfter tools =
      (calls.map callFragment).foldl collect tools := by
  induction calls generalizing tools with
  | nil => rfl
  | cons c rest ih =>
      rw [List.flatMap_cons, List.foldl_append, toolsAfter_decodeCall, ih]
      rfl

/-- Events that are not about calls pass the calls by. -/
private theorem toolsAfter_other {tools : List PartialTool} {es : List StreamEvent}
    (h : ∀ e ∈ es, ∀ ts, toolsAfter ts e = ts) : es.foldl toolsAfter tools = tools := by
  induction es generalizing tools with
  | nil => rfl
  | cons e rest ih =>
      rw [List.foldl_cons, h e (by simp), ih (fun e he => h e (by simp [he]))]

private theorem toolsAfter_value (tools : List PartialTool) (v : Value)
    (state : OpenaiChat.SseState) :
    (OpenaiChat.decodeValue v state).1.foldl toolsAfter tools =
      (valueFragments v).foldl collect tools := by
  have hStart : ∀ e ∈ OpenaiChat.startEvents v state, ∀ ts, toolsAfter ts e = ts := by
    unfold OpenaiChat.startEvents
    split_ifs <;> simp [toolsAfter]
  have hUsage : ∀ e ∈ OpenaiChat.usageEvents v, ∀ ts, toolsAfter ts e = ts := by
    unfold OpenaiChat.usageEvents
    split
    · split_ifs <;> simp [toolsAfter]
    · simp
  have hDone : ∀ e ∈ OpenaiChat.doneEvents v, ∀ ts, toolsAfter ts e = ts := by
    unfold OpenaiChat.doneEvents
    split <;> simp [toolsAfter]
  simp only [OpenaiChat.decodeValue, List.foldl_append, toolsAfter_other hStart,
    toolsAfter_other hUsage, toolsAfter_other hDone]
  unfold OpenaiChat.contentEvents valueFragments
  cases OpenaiChat.firstChoice v with
  | none => rfl
  | some choice =>
      have hThinking : ∀ e ∈ (OpenaiChat.nonEmpty (optStr ((choice.get "delta").getD .null)
          "reasoning_content")).map StreamEvent.thinkingDelta, ∀ ts, toolsAfter ts e = ts := by
        simp [toolsAfter]
      have hText : ∀ e ∈ (OpenaiChat.nonEmpty (optStr ((choice.get "delta").getD .null)
          "content")).map StreamEvent.textDelta, ∀ ts, toolsAfter ts e = ts := by
        simp [toolsAfter]
      simp only [OpenaiChat.decodeDelta, List.foldl_append, toolsAfter_calls,
        toolsAfter_other hThinking, toolsAfter_other hText]

/-- The aggregator's calls are the fragments, collected in stream order. -/
theorem tools_of_stream (state : OpenaiChat.SseState) (lines : List Str)
    (tools : List PartialTool) :
    (Transducer.run (fun s line => OpenaiChat.decodeSse line s) state lines).1.foldl
        toolsAfter tools =
      (lines.flatMap lineFragments).foldl collect tools := by
  induction lines generalizing state tools with
  | nil => rfl
  | cons line rest ih =>
      rw [Transducer.run_cons, List.foldl_append, ih, List.flatMap_cons, List.foldl_append]
      congr 1
      simp only [OpenaiChat.decodeSse, lineFragments]
      cases sseData line with
      | none => rfl
      | some data =>
          simp only
          split_ifs
          · rfl
          · cases fromStr data with
            | none => rfl
            | some v => exact toolsAfter_value tools v state

/-- The calls a whole stream leaves in a fresh aggregator. -/
def aggregatedCalls (lines : List Str) : List PartialTool :=
  (Aggregator.pushAll {} (Transducer.run
    (fun s line => OpenaiChat.decodeSse line s) {} lines).1).tools

/-- The aggregated calls are one for each index, with its first id and name
and its own arguments, exactly on orderly streams. -/
theorem aggregatedCalls_eq_expected_iff (lines : List Str) :
    aggregatedCalls lines = expectedCalls (lines.flatMap lineFragments) ↔
      Orderly [] (lines.flatMap lineFragments) := by
  rw [aggregatedCalls, Aggregator.pushAll_tools, tools_of_stream, expectedCalls_eq]
  have hStart : ([] : List PartialTool) =
      ([] : List (Option Value × PartialTool)).map Prod.snd := rfl
  exact foldl_collect_eq_iff hStart (by simp) (by simp) _

/-- Two calls whose arguments take turns. -/
def interleavedLines : List Str := [
  "data: \x7b\"choices\":[\x7b\"delta\":\x7b\"tool_calls\":[\x7b\"index\":0,\"id\":\"a\",\"function\":\x7b\"name\":\"f\"\x7d\x7d]\x7d\x7d]\x7d".toList,
  "data: \x7b\"choices\":[\x7b\"delta\":\x7b\"tool_calls\":[\x7b\"index\":1,\"id\":\"b\",\"function\":\x7b\"name\":\"g\"\x7d\x7d]\x7d\x7d]\x7d".toList,
  "data: \x7b\"choices\":[\x7b\"delta\":\x7b\"tool_calls\":[\x7b\"index\":0,\"function\":\x7b\"arguments\":\"\x7b\x7d\"\x7d\x7d]\x7d\x7d]\x7d".toList]

/-- The arguments of the first call end up on the second. -/
theorem interleaved_calls_mixed :
    aggregatedCalls interleavedLines =
        [⟨"a".toList, "f".toList, []⟩, ⟨"b".toList, "g".toList, "\x7b\x7d".toList⟩] ∧
      ¬ ∀ lines, aggregatedCalls lines = expectedCalls (lines.flatMap lineFragments) := by
  have hFragments : interleavedLines.flatMap lineFragments =
      [⟨some (.number (.posInt 0)), "a".toList, "f".toList, []⟩,
        ⟨some (.number (.posInt 1)), "b".toList, "g".toList, []⟩,
        ⟨some (.number (.posInt 0)), [], [], "\x7b\x7d".toList⟩] := by decide +kernel
  have hCalls : aggregatedCalls interleavedLines =
      [⟨"a".toList, "f".toList, []⟩, ⟨"b".toList, "g".toList, "\x7b\x7d".toList⟩] := by
    rw [aggregatedCalls, Aggregator.pushAll_tools, tools_of_stream, hFragments]
    decide
  refine ⟨hCalls, fun h => ?_⟩
  have hExpected := h interleavedLines
  rw [hCalls, hFragments] at hExpected
  revert hExpected
  decide

end Gateway.Wire
