import Gateway.Wire.Reader
import Mathlib.Data.List.Chain

/-! An upstream's answer as the blocks it is made of, each with the fragments it
is delivered in, and the event streams that deliver it. -/
namespace Gateway.Wire.Anthropic

open Json

/-! ### The content events of a stream -/

inductive Delta where
  | text (text : Str)
  | thinking (text : Str)
  | signature (signature : Str)
  | json (fragment : Str)
  | other
  deriving DecidableEq

def readDelta (d : Value) : Delta :=
  match optStr d "type" with
  | none => .other
  | some kind =>
      if kind = "text_delta".toList then .text ((optStr d "text").getD [])
      else if kind = "thinking_delta".toList then .thinking ((optStr d "thinking").getD [])
      else if kind = "signature_delta".toList then .signature ((optStr d "signature").getD [])
      else if kind = "input_json_delta".toList then .json ((optStr d "partial_json").getD [])
      else .other

/-- The events that make up the content: a block starts, or a delta goes to the
block at an index. -/
inductive ContentEvent where
  | start (block : Block)
  | delta (index : Nat) (d : Delta)
  deriving DecidableEq

def contentEvent (v : Value) : Option ContentEvent :=
  if optStr v "type" = some "content_block_start".toList then
    some (.start (startBlock ((v.get "content_block").getD .null)))
  else if optStr v "type" = some "content_block_delta".toList then
    some (.delta (((v.get "index").bind Value.asU64).getD 0) (readDelta ((v.get "delta").getD .null)))
  else none

def isStop (v : Value) : Bool := optStr v "type" = some "message_stop".toList

/-! ### Answers -/

/-- A block with the fragments it is sent in. A signature follows the thinking
it signs. -/
inductive Sent where
  | text (fragments : List Str)
  | thinking (fragments signature : List Str)
  | redacted (data : Str)
  | toolUse (id name : Str) (fragments : List Str)

namespace Sent

def isText : Sent → Bool
  | .text _ => true
  | _ => false

def isThinking : Sent → Bool
  | .thinking .. => true
  | _ => false

def isTool : Sent → Bool
  | .toolUse .. => true
  | _ => false

/-- The block as it starts. -/
def start : Sent → Block
  | .text _ => .text []
  | .thinking .. => .thinking [] []
  | .redacted data => .redacted data
  | .toolUse id name _ => .toolUse id name []

def deltas : Sent → List Delta
  | .text fragments => fragments.map .text
  | .thinking fragments signature => fragments.map .thinking ++ signature.map .signature
  | .redacted _ => []
  | .toolUse _ _ fragments => fragments.map .json

/-- The block when it is complete. -/
def block : Sent → Block
  | .text fragments => .text fragments.flatten
  | .thinking fragments signature => .thinking fragments.flatten signature.flatten
  | .redacted data => .redacted data
  | .toolUse id name fragments => .toolUse id name fragments.flatten

/-- What the decoder makes of the block's events. -/
def events : Sent → List StreamEvent
  | .text fragments => fragments.map .textDelta
  | .thinking fragments _ => fragments.map .thinkingDelta
  | .redacted _ => []
  | .toolUse id name fragments => .toolUseStart id name :: fragments.map .toolUseDelta

end Sent

/-- The content events of an answer whose first block has the index `i`. -/
def contentEvents (i : Nat) : List Sent → List ContentEvent
  | [] => []
  | b :: rest => .start b.start :: b.deltas.map (.delta i) ++ contentEvents (i + 1) rest

/-- The documents of an event stream that deliver an answer: its content events
in order among any others, and none after the end. -/
structure Delivers (answer : List Sent) (values : List Value) : Prop where
  content : values.filterMap contentEvent = contentEvents 0 answer
  stopLast : values.Pairwise fun a b => isStop a = true → contentEvent b = none

/-! ### Decoding an answer -/

/-- The events that carry content. -/
def isContent : StreamEvent → Bool
  | .textDelta _ | .thinkingDelta _ | .toolUseStart .. | .toolUseDelta _ => true
  | .messageStart _ | .usageDelta _ | .done _ => false

def Delta.events : Delta → List StreamEvent
  | .text t => [.textDelta t]
  | .thinking t => [.thinkingDelta t]
  | .json t => [.toolUseDelta t]
  | .signature _ | .other => []

def ContentEvent.events : ContentEvent → List StreamEvent
  | .start (.toolUse id name _) => [.toolUseStart id name]
  | .start _ => []
  | .delta _ d => d.events

theorem decodeDelta_eq (d : Value) : decodeDelta d = (readDelta d).events := by
  unfold decodeDelta readDelta
  cases optStr d "type" with
  | none => rfl
  | some kind =>
      simp only
      split_ifs with hText hThinking hJson hSignature hSignature <;> try rfl
      rw [hJson] at hSignature
      exact absurd hSignature (by decide)

theorem decodeBlockStart_eq (b : Value) :
    decodeBlockStart b = (ContentEvent.start (startBlock b)).events := by
  unfold decodeBlockStart startBlock
  cases optStr b "type" with
  | none => rfl
  | some kind =>
      simp only [Option.some.injEq]
      split_ifs with hTool hText hThinking hRedacted <;> try rfl
      · exact absurd (hTool.symm.trans hText) (by decide)
      · exact absurd (hTool.symm.trans hThinking) (by decide)
      · exact absurd (hTool.symm.trans hRedacted) (by decide)

theorem filter_events (c : ContentEvent) : c.events.filter isContent = c.events := by
  cases c with
  | start block => cases block <;> rfl
  | delta i d => cases d <;> rfl

theorem isDone_of_mem_events {c : ContentEvent} {e : StreamEvent} (he : e ∈ c.events) :
    e.isDone = false := by
  rw [← filter_events c, List.mem_filter] at he
  cases e with
  | done reason => cases he.2
  | _ => rfl

/-- The content of a document's events. -/
theorem filter_decodeValue (v : Value) (s : SseState) :
    (decodeValue v s).1.filter isContent = ((contentEvent v).map ContentEvent.events).getD [] := by
  unfold decodeValue contentEvent
  cases optStr v "type" with
  | none => simp
  | some kind =>
      simp only [Option.some.injEq]
      split_ifs with hStart hBlock hDelta hBlock hDelta hMessage hStop
      · exact absurd (hStart.symm.trans hBlock) (by decide)
      · exact absurd (hStart.symm.trans hDelta) (by decide)
      · cases Option.filter (fun u => !u.isNull) (((v.get "message").getD .null).get "usage") <;> rfl
      · simp only [decodeBlockStart_eq]
        exact filter_events _
      · simp only [decodeDelta_eq]
        exact filter_events (.delta 0 _)
      · cases v.get "usage" <;> rfl
      · rfl
      · rfl

/-- The answer ends with its stop event only. -/
theorem isStop_of_done {v : Value} {s : SseState} {e : StreamEvent}
    (he : e ∈ (decodeValue v s).1) (hDone : e.isDone = true) : isStop v = true := by
  unfold isStop
  unfold decodeValue at he
  cases hType : optStr v "type" with
  | none => simp [hType] at he
  | some kind =>
      simp only [hType, decodeDelta_eq, decodeBlockStart_eq] at he
      split_ifs at he with hStart hBlock hDelta hMessage hStop
      · cases hUsage : Option.filter (fun u => !u.isNull) (((v.get "message").getD .null).get "usage")
          <;> simp only [hUsage, List.mem_cons, List.not_mem_nil, or_false] at he
        · cases he
          cases hDone
        · rcases he with rfl | rfl <;> cases hDone
      · rw [isDone_of_mem_events he] at hDone
        cases hDone
      · rw [isDone_of_mem_events (c := .delta 0 _) he] at hDone
        cases hDone
      · cases hUsage : v.get "usage" <;> simp only [hUsage, Option.map_none, Option.map_some,
          Option.getD_none, Option.getD_some, List.mem_cons, List.not_mem_nil, or_false] at he
        cases he
        cases hDone
      · rw [hStop]
        decide
      · cases he

/-- The events of a stream of documents. -/
def decodeValues (s : SseState) (values : List Value) : List StreamEvent :=
  (Transducer.run (fun s v => decodeValue v s) s values).1

/-- No content comes after the end. -/
def Orderly (events : List StreamEvent) : Prop :=
  events.Pairwise fun a b => a.isDone = true → isContent b = false

theorem filter_decodeValues (s : SseState) (values : List Value) :
    (decodeValues s values).filter isContent =
      (values.filterMap contentEvent).flatMap ContentEvent.events := by
  induction values generalizing s with
  | nil => rfl
  | cons v rest ih =>
      have hRest := ih (decodeValue v s).2
      unfold decodeValues at hRest ⊢
      rw [Transducer.run_cons, List.filter_append, filter_decodeValue, hRest, List.filterMap_cons]
      cases contentEvent v <;> simp

theorem flatMap_pure {α β : Type} (g : α → β) (l : List α) : l.flatMap (fun a => [g a]) = l.map g :=
  List.map_eq_flatMap.symm

theorem contentEvents_events (i : Nat) (answer : List Sent) :
    (contentEvents i answer).flatMap ContentEvent.events = answer.flatMap Sent.events := by
  induction answer generalizing i with
  | nil => rfl
  | cons b rest ih =>
      have hBlock : (ContentEvent.start b.start :: b.deltas.map (.delta i)).flatMap
          ContentEvent.events = b.events := by
        cases b with
        | text fragments => simp [Sent.start, Sent.deltas, Sent.events, ContentEvent.events,
            Delta.events, List.flatMap_map, flatMap_pure]
        | thinking fragments signature => simp [Sent.start, Sent.deltas, Sent.events,
            ContentEvent.events, Delta.events, List.flatMap_map, flatMap_pure]
        | redacted data => rfl
        | toolUse id name fragments => simp [Sent.start, Sent.deltas, Sent.events,
            ContentEvent.events, Delta.events, List.flatMap_map, flatMap_pure]
      rw [contentEvents, List.flatMap_append, hBlock, ih, List.flatMap_cons]

/-- An answer is decoded to the events of its blocks, in order. -/
theorem Delivers.decoded {answer : List Sent} {values : List Value} (h : Delivers answer values)
    (s : SseState) :
    (decodeValues s values).filter isContent = answer.flatMap Sent.events := by
  rw [filter_decodeValues, h.content, contentEvents_events]

theorem contentEvent_of_isStop {v : Value} (h : isStop v = true) : contentEvent v = none := by
  have hType : optStr v "type" = some "message_stop".toList := of_decide_eq_true h
  rw [contentEvent, hType, if_neg (by decide), if_neg (by decide)]

theorem not_content_of_none {v : Value} {s : SseState} {e : StreamEvent}
    (h : contentEvent v = none) (he : e ∈ (decodeValue v s).1) : isContent e = false := by
  have hFilter := filter_decodeValue v s
  rw [h, Option.map_none, Option.getD_none, List.filter_eq_nil_iff] at hFilter
  exact Bool.eq_false_iff.mpr (hFilter e he)

theorem Delivers.orderly {answer : List Sent} {values : List Value} (h : Delivers answer values)
    (s : SseState) : Orderly (decodeValues s values) := by
  have hLast := h.stopLast
  clear h
  induction values generalizing s with
  | nil => exact List.Pairwise.nil
  | cons v rest ih =>
      obtain ⟨hHere, hRest⟩ := List.pairwise_cons.mp hLast
      unfold decodeValues Orderly at *
      rw [Transducer.run_cons]
      refine List.pairwise_append.mpr ⟨?_, ih _ hRest, ?_⟩
      · refine List.pairwise_of_forall_mem_list fun a ha b hb hDone => ?_
        exact not_content_of_none (contentEvent_of_isStop (isStop_of_done ha hDone)) hb
      · intro a ha b hb hDone
        rw [Transducer.run_fst, List.mem_flatMap] at hb
        obtain ⟨⟨state, u⟩, hu, hb⟩ := hb
        have hMem : u ∈ rest := by
          rw [← Transducer.trace_map_snd (fun s v => decodeValue v s) (decodeValue v s).2 rest]
          exact List.mem_map.mpr ⟨_, hu, rfl⟩
        exact not_content_of_none (hHere u hMem (isStop_of_done ha hDone)) hb

/-! ### Joining text -/

/-- Adjacent text blocks as one. -/
def joinTexts : List Block → List Block
  | [] => []
  | .text t :: rest =>
      match joinTexts rest with
      | .text u :: more => .text (t ++ u) :: more
      | more => .text t :: more
  | b :: rest => b :: joinTexts rest

/-- The answer with adjacent text blocks sent as one. -/
def joined : List Sent → List Sent
  | [] => []
  | .text fs :: rest =>
      match joined rest with
      | .text gs :: more => .text (fs ++ gs) :: more
      | more => .text fs :: more
  | b :: rest => b :: joined rest

theorem joinTexts_block (answer : List Sent) :
    joinTexts (answer.map Sent.block) = (joined answer).map Sent.block := by
  induction answer with
  | nil => rfl
  | cons b rest ih =>
      cases b with
      | text fs =>
          simp only [List.map_cons, Sent.block, joinTexts, joined, ih]
          cases joined rest with
          | nil => rfl
          | cons c more => cases c <;> simp [Sent.block]
      | _ => simp only [List.map_cons, Sent.block, joinTexts, joined, ih]

theorem joined_events (answer : List Sent) :
    (joined answer).flatMap Sent.events = answer.flatMap Sent.events := by
  induction answer with
  | nil => rfl
  | cons b rest ih =>
      rw [List.flatMap_cons, ← ih]
      cases b with
      | text fs =>
          simp only [joined]
          cases joined rest with
          | nil => rfl
          | cons c more => cases c <;> simp [Sent.events]
      | _ => rfl

/-- Whether two text blocks stand side by side. -/
def Apart {α : Type} (isText : α → Bool) (blocks : List α) : Prop :=
  blocks.IsChain fun a b => ¬ (isText a = true ∧ isText b = true)

theorem joined_apart (answer : List Sent) : Apart Sent.isText (joined answer) := by
  unfold Apart
  induction answer with
  | nil => exact List.IsChain.nil
  | cons b rest ih =>
      cases b with
      | text fs =>
          simp only [joined]
          cases hRest : joined rest with
          | nil => exact List.IsChain.singleton _
          | cons c more =>
              rw [hRest, List.isChain_cons] at ih
              cases c with
              | text gs => exact List.isChain_cons.mpr ⟨ih.1, ih.2⟩
              | _ => exact List.isChain_cons.mpr ⟨by simp [Sent.isText], List.isChain_cons.mpr ih⟩
      | _ => exact List.isChain_cons.mpr ⟨by simp [Sent.isText], ih⟩

end Gateway.Wire.Anthropic
