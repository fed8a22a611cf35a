import Gateway.Json.Render
import Gateway.Wire.Common

/-! Folding a stream of events into one buffered response, and expanding a
buffered response into events. -/
namespace Gateway.Wire

open Json

structure PartialTool where
  id : Str
  name : Str
  json : Str
  deriving DecidableEq

structure Aggregator where
  model : Str := []
  text : Str := []
  thinking : Str := []
  tools : List PartialTool := []
  usage : Usage := {}
  stopReason : Option StopReason := none
  deriving DecidableEq

/-- Extend the arguments of the latest call; a fragment before any call is
dropped. -/
def extendLast (fragment : Str) : List PartialTool → List PartialTool
  | [] => []
  | [t] => [{ t with json := t.json ++ fragment }]
  | t :: rest => t :: extendLast fragment rest

namespace Aggregator

def push (agg : Aggregator) : StreamEvent → Aggregator
  | .messageStart model => if agg.model.isEmpty then { agg with model } else agg
  | .textDelta text => { agg with text := agg.text ++ text }
  | .thinkingDelta text => { agg with thinking := agg.thinking ++ text }
  | .toolUseStart id name => { agg with tools := agg.tools ++ [⟨id, name, []⟩] }
  | .toolUseDelta partialJson => { agg with tools := extendLast partialJson agg.tools }
  | .usageDelta usage => { agg with usage := agg.usage.merge usage }
  | .done stopReason => { agg with stopReason := some stopReason }

def pushAll (agg : Aggregator) (events : List StreamEvent) : Aggregator :=
  events.foldl push agg

end Aggregator

/-- The arguments of a call: an object when they are blank or unreadable. -/
def PartialTool.input (t : PartialTool) : Value :=
  if isBlank t.json then obj [] else (fromStr t.json).getD (obj [])

def PartialTool.block (t : PartialTool) : ContentBlock := .toolUse t.id t.name t.input

/-- The events that stand for a block of a buffered response. -/
def ContentBlock.streamEvents : ContentBlock → List StreamEvent
  | .thinking t _ => [.thinkingDelta t]
  | .text t => [.textDelta t]
  | .toolUse id name input => [.toolUseStart id name, .toolUseDelta input.render]
  | _ => []

def eventsFromResponse (resp : ChatResponse) : List StreamEvent :=
  .messageStart resp.model :: resp.content.flatMap ContentBlock.streamEvents ++
    [.usageDelta resp.usage, .done resp.stopReason]

def Aggregator.content (agg : Aggregator) : List ContentBlock :=
  (if agg.thinking.isEmpty then [] else [.thinking agg.thinking none]) ++
    (if agg.text.isEmpty then [] else [.text agg.text]) ++
      agg.tools.map PartialTool.block

def Aggregator.intoResponse (agg : Aggregator) (id : Str) : ChatResponse where
  id := id
  model := agg.model
  content := agg.content
  stopReason :=
    match agg.stopReason with
    | none => if agg.tools.isEmpty then .endTurn else .toolUse
    | some .endTurn => if agg.tools.isEmpty then .endTurn else .toolUse
    | some reason => reason
  usage := agg.usage

theorem extendLast_concat (frag : Str) (tools : List PartialTool) (t : PartialTool) :
    extendLast frag (tools ++ [t]) = tools ++ [{ t with json := t.json ++ frag }] := by
  induction tools with
  | nil => rfl
  | cons u us ih =>
      cases us with
      | nil => rfl
      | cons v vs =>
          have hStep : extendLast frag (u :: v :: vs ++ [t]) =
              u :: extendLast frag (v :: vs ++ [t]) := by cases vs <;> rfl
          rw [hStep, ih]
          rfl

theorem extendLast_nil (tools : List PartialTool) : extendLast [] tools = tools := by
  cases tools using List.reverseRecOn with
  | nil => rfl
  | append_singleton tools t => simp [extendLast_concat]

@[simp] theorem extendLast_length (frag : Str) (tools : List PartialTool) :
    (extendLast frag tools).length = tools.length := by
  cases tools using List.reverseRecOn with
  | nil => rfl
  | append_singleton tools t => simp [extendLast_concat]

/-- A fragment leaves every call but the latest as it was. -/
theorem extendLast_getElem? {frag : Str} {tools : List PartialTool} {i : Nat}
    (hEarlier : i + 1 < tools.length) : (extendLast frag tools)[i]? = tools[i]? := by
  cases tools using List.reverseRecOn with
  | nil => rfl
  | append_singleton tools t =>
      simp only [List.length_append, List.length_singleton] at hEarlier
      rw [extendLast_concat, List.getElem?_append_left (by omega),
        List.getElem?_append_left (by omega)]

theorem extendLast_id {frag : Str} {tools : List PartialTool} (named : ∀ t ∈ tools, t.id ≠ []) :
    ∀ t ∈ extendLast frag tools, t.id ≠ [] := by
  cases tools using List.reverseRecOn with
  | nil => simp [extendLast]
  | append_singleton tools u =>
      intro t ht
      rw [extendLast_concat, List.mem_append, List.mem_singleton] at ht
      rcases ht with ht | rfl
      · exact named t (by simp [ht])
      · exact named u (by simp)

/-! ### What a run of events leaves -/

def StreamEvent.textOf : StreamEvent → Str
  | .textDelta t => t
  | _ => []

def StreamEvent.thinkingOf : StreamEvent → Str
  | .thinkingDelta t => t
  | _ => []

def StreamEvent.usageOf : StreamEvent → Usage
  | .usageDelta u => u
  | _ => {}

/-- The calls of a run of events, each fragment with the call before it. -/
def toolsAfter (tools : List PartialTool) : StreamEvent → List PartialTool
  | .toolUseStart id name => tools ++ [⟨id, name, []⟩]
  | .toolUseDelta fragment => extendLast fragment tools
  | _ => tools

/-- The join of every report in a run of events. -/
def usageOf (events : List StreamEvent) : Usage :=
  events.foldl (fun u e => u ⊔ e.usageOf) ⊥

theorem foldl_usageOf (u : Usage) (events : List StreamEvent) :
    events.foldl (fun u e => u ⊔ e.usageOf) u = u ⊔ usageOf events := by
  induction events generalizing u with
  | nil => simp [usageOf]
  | cons e rest ih => rw [usageOf, List.foldl_cons, ih, List.foldl_cons, ih, bot_sup_eq, sup_assoc]

theorem usageOf_append (es fs : List StreamEvent) : usageOf (es ++ fs) = usageOf es ⊔ usageOf fs := by
  rw [usageOf, List.foldl_append, foldl_usageOf]
  rfl

theorem usageOf_eq_bot {es : List StreamEvent} (h : ∀ e ∈ es, e.usageOf = ⊥) : usageOf es = ⊥ := by
  induction es with
  | nil => rfl
  | cons e rest ih =>
      have hRest : usageOf rest = ⊥ := ih fun f hf => h f (by simp [hf])
      rw [usageOf, List.foldl_cons, h e (by simp), bot_sup_eq]
      exact hRest

namespace Aggregator

variable (agg : Aggregator)

@[simp] theorem pushAll_nil : agg.pushAll [] = agg := rfl

@[simp] theorem pushAll_cons (e : StreamEvent) (es : List StreamEvent) :
    agg.pushAll (e :: es) = (agg.push e).pushAll es := rfl

theorem pushAll_append (es fs : List StreamEvent) :
    agg.pushAll (es ++ fs) = (agg.pushAll es).pushAll fs := List.foldl_append

@[simp] theorem push_text (e : StreamEvent) : (agg.push e).text = agg.text ++ e.textOf := by
  cases e <;> simp [push, StreamEvent.textOf]
  split <;> rfl

@[simp] theorem push_thinking (e : StreamEvent) :
    (agg.push e).thinking = agg.thinking ++ e.thinkingOf := by
  cases e <;> simp [push, StreamEvent.thinkingOf]
  split <;> rfl

@[simp] theorem push_tools (e : StreamEvent) : (agg.push e).tools = toolsAfter agg.tools e := by
  cases e <;> simp [push, toolsAfter]
  split <;> rfl

@[simp] theorem push_usage (e : StreamEvent) :
    (agg.push e).usage = agg.usage ⊔ e.usageOf := by
  cases e <;> simp [push, StreamEvent.usageOf, Usage.default_eq_bot, Usage.merge_eq_sup]
  split <;> rfl

theorem pushAll_text (es : List StreamEvent) :
    (agg.pushAll es).text = agg.text ++ es.flatMap StreamEvent.textOf := by
  induction es generalizing agg with
  | nil => simp
  | cons e es ih => simp [ih]

theorem pushAll_thinking (es : List StreamEvent) :
    (agg.pushAll es).thinking = agg.thinking ++ es.flatMap StreamEvent.thinkingOf := by
  induction es generalizing agg with
  | nil => simp
  | cons e es ih => simp [ih]

theorem pushAll_tools (es : List StreamEvent) :
    (agg.pushAll es).tools = es.foldl toolsAfter agg.tools := by
  induction es generalizing agg with
  | nil => rfl
  | cons e es ih => simp [ih]

theorem pushAll_usage (es : List StreamEvent) :
    (agg.pushAll es).usage = es.foldl (fun u e => u ⊔ e.usageOf) agg.usage := by
  induction es generalizing agg with
  | nil => rfl
  | cons e es ih => simp [ih]

end Aggregator

end Gateway.Wire
