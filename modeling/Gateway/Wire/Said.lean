import Gateway.Wire.Aggregate

/-! What a response says, whether it was read whole or gathered from events. -/
namespace Gateway.Wire

open Json

/-- What a response says. -/
structure Said where
  text : Str
  calls : List (Str × Str × Value)
  stopReason : StopReason
  usage : Usage
  deriving DecidableEq

/-- A block of an answer: text, thinking or a call. -/
def ContentBlock.isSpoken : ContentBlock → Bool
  | .text _ | .cachedText .. | .thinking .. | .toolUse .. => true
  | _ => false

def ContentBlock.asCall : ContentBlock → Option (Str × Str × Value)
  | .toolUse id name input => some (id, name, input)
  | _ => none

def ChatResponse.said (resp : ChatResponse) : Said where
  text := joinText resp.content
  calls := resp.content.filterMap ContentBlock.asCall
  stopReason := resp.stopReason
  usage := resp.usage

/-- An aggregated response says its text and its calls. -/
theorem Aggregator.said_intoResponse (agg : Aggregator) (id : Str) :
    (agg.intoResponse id).said =
      { text := agg.text
        calls := agg.tools.map fun t => (t.id, t.name, t.input)
        stopReason := (agg.intoResponse id).stopReason
        usage := agg.usage } := by
  have hThinking : joinText (if agg.thinking.isEmpty then [] else [.thinking agg.thinking none]) = [] ∧
      (if agg.thinking.isEmpty then [] else [ContentBlock.thinking agg.thinking none]).filterMap
        ContentBlock.asCall = [] := by
    split_ifs <;> exact ⟨rfl, rfl⟩
  have hText : joinText (if agg.text.isEmpty then [] else [.text agg.text]) = agg.text ∧
      (if agg.text.isEmpty then [] else [ContentBlock.text agg.text]).filterMap
        ContentBlock.asCall = [] := by
    split_ifs with hEmpty
    · exact ⟨(List.isEmpty_iff.mp hEmpty).symm, rfl⟩
    · exact ⟨List.append_nil _, rfl⟩
  have hTools : joinText (agg.tools.map PartialTool.block) = [] ∧
      (agg.tools.map PartialTool.block).filterMap ContentBlock.asCall =
        agg.tools.map fun t => (t.id, t.name, t.input) := by
    constructor
    · simp [joinText, List.filterMap_map, Function.comp_def, PartialTool.block, ContentBlock.asText]
    · simp [List.filterMap_map, Function.comp_def, PartialTool.block, ContentBlock.asCall]
  rw [ChatResponse.said]
  simp only [intoResponse, content, joinText_append, List.filterMap_append, hThinking, hText, hTools,
    List.nil_append, List.append_nil]

/-- Events with the same text, calls and usage. -/
structure Alike (es fs : List StreamEvent) : Prop where
  text : es.flatMap StreamEvent.textOf = fs.flatMap StreamEvent.textOf
  tools : ∀ tools, es.foldl toolsAfter tools = fs.foldl toolsAfter tools
  usage : usageOf es = usageOf fs

theorem Alike.refl (es : List StreamEvent) : Alike es es := ⟨rfl, fun _ => rfl, rfl⟩

theorem Alike.append {es fs es' fs' : List StreamEvent} (h : Alike es fs) (h' : Alike es' fs') :
    Alike (es ++ es') (fs ++ fs') where
  text := by rw [List.flatMap_append, List.flatMap_append, h.text, h'.text]
  tools tools := by rw [List.foldl_append, List.foldl_append, h.tools, h'.tools]
  usage := by rw [usageOf_append, usageOf_append, h.usage, h'.usage]

theorem Alike.messageStart (model : Str) : Alike [.messageStart model] [] :=
  ⟨rfl, fun _ => rfl, sup_idem _⟩

theorem Alike.thinkingDelta (text : Str) : Alike [.thinkingDelta text] [] :=
  ⟨rfl, fun _ => rfl, sup_idem _⟩

end Gateway.Wire
