import Gateway.Json.Kept
import Gateway.Wire.OpenaiResponses.Emit

/-! A Responses request on its way to a Responses upstream. Its items are
replayed, while its tools and the choice among them go through the intermediate
representation, which knows functions only. -/
namespace Gateway.Wire.OpenaiResponses

open Json
open OpenaiChat (optField)

/-- The upstream gets the items, the tools and the choice that the client wrote. -/
structure Relayed (v body : Value) : Prop where
  input : ∀ items, v.get "input" = some (.array items) → body.get "input" = some (.array items)
  tools : (optArr body "tools").getD [] = (optArr v "tools").getD []
  choice : body.get "tool_choice" = v.get "tool_choice"

/-- A function with parameters, and no members that only some upstreams know. -/
structure PlainFunction (t : Value) : Prop where
  kind : optStr t "type" = some "function".toList
  parameters : (t.get "parameters").isSome = true
  description : ∀ d, t.get "description" = some d → ∃ text, d = .string text
  strict : ∀ s, t.get "strict" = some s → ∃ b, s = .bool b
  others : ∀ key, t.get key ≠ none → key ∈ ["type", "name", "description", "parameters", "strict"]

/-- The choice of one function by its name. -/
structure NamesFunction (choice : Value) : Prop where
  kind : optStr choice "type" = some "function".toList
  name : (optStr choice "name").isSome = true
  others : ∀ key, choice.get key ≠ none → key ∈ ["type", "name"]

structure FunctionsOnly (v : Value) : Prop where
  tools : ∀ t ∈ (optArr v "tools").getD [], PlainFunction t
  choice : ∀ choice, v.get "tool_choice" = some choice → isObject choice = true →
    NamesFunction choice

theorem object_of_get {v w : Value} {key : String} (h : v.get key = some w) :
    ∃ fs, v = .object fs := by
  cases v with
  | object fields => exact ⟨fields, rfl⟩
  | _ => cases h

/-! ### Tools -/

/-- A function of the list, as it is held. -/
def functionOf (t : Value) (name : Str) : Tool where
  name
  description := optStr t "description"
  inputSchema := (t.get "parameters").getD (obj [])
  strict := (t.get "strict").bind Value.asBool
  anthropicCacheControl := none

theorem parseTool_eq_ok {t : Value} {tool : Option Tool} (h : parseTool t = .ok tool) :
    (optStr t "type" ≠ some "function".toList ∧ tool = none) ∨
      (optStr t "type" = some "function".toList ∧
        ∃ name, optStr t "name" = some name ∧ tool = some (functionOf t name)) := by
  unfold parseTool reqStr at h
  split_ifs at h with hKind
  · cases hName : optStr t "name" with
    | none =>
        rw [hName] at h
        cases h
    | some name =>
        rw [hName] at h
        cases h
        exact .inr ⟨hKind, name, rfl, rfl⟩
  · cases h
    exact .inl ⟨hKind, rfl⟩

theorem plainFunction_emitTool (tool : Tool) : PlainFunction (emitTool tool) := by
  obtain ⟨name, description, schema, strict, control⟩ := tool
  have hOthers (key : String) (hKey : key ∉ ["type", "name", "description", "parameters", "strict"]) :
      (emitTool ⟨name, description, schema, strict, control⟩).get key = none := by
    refine get_obj_of_notMem ?_
    cases description <;> cases strict <;> simp_all [optField]
  refine ⟨?_, ?_, fun d hd => ?_, fun s hs => ?_, fun key hKey => by_contra fun h => hKey (hOthers key h)⟩
  · cases description <;> cases strict <;> simp [emitTool, optField]
  · cases description <;> cases strict <;> simp [emitTool, optField]
  · cases description <;> cases strict <;> simp [emitTool, optField] at hd
    all_goals exact ⟨_, hd.symm⟩
  · cases description <;> cases strict <;> simp [emitTool, optField] at hs
    all_goals exact ⟨_, hs.symm⟩

theorem emitTool_functionOf {depth : Nat} {t : Value} {name : Str} (kept : t.Kept depth)
    (h : PlainFunction t) (hName : optStr t "name" = some name) :
    emitTool (functionOf t name) = t := by
  have hKind := optStr_eq_some.mp h.kind
  refine kept.ext (object_of_get hKind) fun key => ?_
  obtain ⟨parameters, hParameters⟩ := Option.isSome_iff_exists.mp h.parameters
  have hDescription : (optStr t "description").map Value.string = t.get "description" := by
    unfold optStr
    cases hGet : t.get "description" with
    | none => rfl
    | some d =>
        obtain ⟨text, rfl⟩ := h.description d hGet
        rfl
  have hStrict : ((t.get "strict").bind Value.asBool).map Value.bool = t.get "strict" := by
    cases hGet : t.get "strict" with
    | none => rfl
    | some s =>
        obtain ⟨b, rfl⟩ := h.strict s hGet
        rfl
  simp only [functionOf, hDescription, hStrict, hParameters, Option.getD_some]
  by_cases hKey : key ∈ ["type", "name", "description", "parameters", "strict"]
  · simp only [List.mem_cons, List.not_mem_nil, or_false] at hKey
    rcases hKey with rfl | rfl | rfl | rfl | rfl <;>
      cases t.get "description" <;> cases t.get "strict" <;>
      simp [optField, hKind, optStr_eq_some.mp hName, hParameters]
  · have hNone : t.get key = none := by_contra fun hSome => hKey (h.others key hSome)
    rw [hNone]
    refine get_obj_of_notMem ?_
    cases t.get "description" <;> cases t.get "strict" <;> simp_all [optField]

/-- The tools that are written again are no more than those that were read, and
the same when each is a plain function. -/
theorem emitTools_eq_iff {depth : Nat} {tools : List Value} {held : List (Option Tool)}
    (kept : ItemsKept depth tools) (h : tools.mapM parseTool = .ok held) :
    ((held.filterMap id).map emitTool).length ≤ tools.length ∧
      ((held.filterMap id).map emitTool = tools ↔ ∀ t ∈ tools, PlainFunction t) := by
  induction tools generalizing held with
  | nil =>
      rw [List.mapM_nil] at h
      cases h
      simp
  | cons t rest ih =>
      rw [List.mapM_cons] at h
      obtain ⟨tool, hTool, h⟩ := bind_eq_ok.mp h
      obtain ⟨more, hMore, h⟩ := bind_eq_ok.mp h
      cases h
      obtain ⟨hLength, hSame⟩ := ih kept.2 hMore
      rw [List.forall_mem_cons, ← hSame]
      rcases parseTool_eq_ok hTool with ⟨hKind, rfl⟩ | ⟨hKind, name, hName, rfl⟩
      · rw [List.filterMap_cons_none rfl]
        refine ⟨hLength.trans (Nat.le_succ _), fun hAll => ?_, fun hAll => absurd hAll.1.kind hKind⟩
        have hLonger := congrArg List.length hAll
        rw [List.length_cons] at hLonger
        omega
      · have hHeld : (some (functionOf t name) :: more).filterMap id =
            functionOf t name :: more.filterMap id := rfl
        rw [hHeld, List.map_cons, List.length_cons, List.length_cons, List.cons.injEq]
        refine ⟨Nat.succ_le_succ hLength, and_congr_left fun _ => ⟨fun hFirst => ?_, fun hPlain => ?_⟩⟩
        · rw [← hFirst]
          exact plainFunction_emitTool _
        · exact emitTool_functionOf kept.1 hPlain hName

/-! ### The choice -/

theorem namesFunction_emitToolChoice (name : Str) : NamesFunction (emitToolChoice (.tool name)) where
  kind := by simp [emitToolChoice]
  name := by simp [emitToolChoice]
  others key h := by_contra fun hKey => h (get_obj_of_notMem (by simpa using hKey))

theorem emitToolChoice_eq_iff {depth : Nat} {v : Value} {choice : ToolChoice} (kept : v.Kept depth)
    (h : parseToolChoice v = .ok choice) :
    emitToolChoice choice = v ↔ (isObject v = true → NamesFunction v) := by
  cases v with
  | string s =>
      unfold parseToolChoice at h
      dsimp only at h
      split_ifs at h with hAuto hNone hRequired <;> cases h
      · simp [emitToolChoice, isObject, hAuto]
      · simp [emitToolChoice, isObject, hNone]
      · simp [emitToolChoice, isObject, hRequired]
  | object fields =>
      cases h
      refine ⟨fun hSame _ => hSame ▸ namesFunction_emitToolChoice _, fun hNames => ?_⟩
      obtain ⟨hKind, hName, hOthers⟩ := hNames rfl
      obtain ⟨name, hName⟩ := Option.isSome_iff_exists.mp hName
      rw [hName, Option.getD_some]
      refine kept.ext ⟨fields, rfl⟩ fun key => ?_
      by_cases hKey : key ∈ ["type", "name"]
      · rw [List.mem_pair] at hKey
        rcases hKey with rfl | rfl
        · simp [optStr_eq_some.mp hKind]
        · simp [optStr_eq_some.mp hName]
      · rw [by_contra fun hSome => hKey (hOthers key hSome)]
        exact get_obj_of_notMem (by simpa using hKey)
  | null | bool _ | number _ | array _ => cases h

/-! ### The request -/

theorem itemsKept_tools {v : Value} (kept : v.Kept maxDepth) :
    ItemsKept (maxDepth - 1 - 1) ((optArr v "tools").getD []) := by
  unfold optArr
  cases hGet : v.get "tools" with
  | none => trivial
  | some tools =>
      have hTools := kept.get hGet
      cases tools with
      | array items => exact hTools.2
      | _ => trivial

theorem choice_relayed_iff {v : Value} {choice : Option ToolChoice} (kept : v.Kept maxDepth)
    (h : (v.get "tool_choice").mapM parseToolChoice = .ok choice) :
    choice.map emitToolChoice = v.get "tool_choice" ↔
      ∀ c, v.get "tool_choice" = some c → isObject c = true → NamesFunction c := by
  cases hGet : v.get "tool_choice" with
  | none =>
      rw [hGet] at h
      cases h
      simp
  | some c =>
      rw [hGet] at h
      cases hParse : parseToolChoice c with
      | error e =>
          rw [Option.mapM_some, hParse] at h
          cases h
      | ok held =>
          rw [Option.mapM_some, hParse] at h
          cases h
          rw [Option.map_some, Option.some.injEq, emitToolChoice_eq_iff (kept.get hGet) hParse]
          simp

def lookupTool : Value :=
  obj [("type", .string "function".toList), ("name", .string "lookup".toList),
    ("parameters", obj [("type", .string "object".toList)]), ("strict", .bool true)]

/-- A request with one tool. -/
def toolRequest (tool : Value) : Value :=
  obj [("model", .string ['m']), ("input", .array [.string "hi".toList]), ("tools", .array [tool])]

def searchTool : Value := obj [("type", .string "web_search".toList)]

end Gateway.Wire.OpenaiResponses
