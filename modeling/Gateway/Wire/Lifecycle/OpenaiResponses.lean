import Gateway.Service.Terminal.OpenaiResponses
import Gateway.Wire.Lifecycle.Ended

/-! The life of a Responses stream: its events are numbered, its output items
follow one another, each added, filled and closed, and the completed response
lists them. -/
namespace Gateway.Wire.OpenaiResponses

open Json

/-! ### Well-formed streams -/

/-- An event by its name and its members. -/
abbrev Event := String × List (String × Value)

/-- Events numbered from `n` on. -/
def numbered (n : Nat) : List Event → List Frame
  | [] => []
  | (name, data) :: rest =>
      .named name (obj (("type", .string name.toList) :: data ++ [("sequence_number", .nat n)])) ::
        numbered (n + 1) rest

/-- The events that announce the response, and tell of no item. -/
def isAnnouncement (ev : Event) : Bool :=
  ev.1 = "response.created" || ev.1 = "response.in_progress"

inductive ItemKind where
  | message
  | reasoning
  | tool (callId name : Str)

/-- An output item, with the fragments that it is sent in. -/
structure Item where
  kind : ItemKind
  fragments : List Str

def ItemKind.id (index : Nat) : ItemKind → Str
  | message => itemId "msg_" index
  | reasoning => itemId "rs_" index
  | tool _ _ => itemId "fc_" index

/-- The events that add an item. -/
def ItemKind.added (index : Nat) (kind : ItemKind) : List Event :=
  let id := kind.id index
  match kind with
  | message =>
      [("response.output_item.added", [("output_index", .nat index),
          ("item", obj [("id", .string id), ("type", .string "message".toList),
            ("role", .string "assistant".toList), ("content", .array []),
            ("status", .string "in_progress".toList)])]),
        ("response.content_part.added", [("item_id", .string id), ("output_index", .nat index),
          ("content_index", .nat 0), ("part", obj [("type", .string "output_text".toList),
            ("text", .string []), ("annotations", .array []), ("logprobs", .array [])])])]
  | reasoning =>
      [("response.output_item.added", [("output_index", .nat index),
          ("item", obj [("id", .string id), ("type", .string "reasoning".toList),
            ("summary", .array []), ("content", .null), ("status", .string "in_progress".toList)])]),
        ("response.reasoning_part.added", [("item_id", .string id), ("output_index", .nat index),
          ("content_index", .nat 0), ("part", obj [("type", .string "reasoning_text".toList),
            ("text", .string [])])])]
  | tool callId name =>
      [("response.output_item.added", [("output_index", .nat index),
        ("item", obj [("id", .string id), ("type", .string "function_call".toList),
          ("call_id", .string callId), ("name", .string name), ("arguments", .string []),
          ("status", .string "in_progress".toList)])])]

/-- The event of a fragment. -/
def OpenItem.delta (item : OpenItem) (fragment : Str) : Event :=
  match item with
  | .message id index _ => ("response.output_text.delta", [("item_id", .string id),
      ("output_index", .nat index), ("content_index", .nat 0), ("delta", .string fragment),
      ("logprobs", .array [])])
  | .reasoning id index _ => ("response.reasoning_text.delta", [("item_id", .string id),
      ("output_index", .nat index), ("content_index", .nat 0), ("delta", .string fragment)])
  | .tool id index _ _ _ => ("response.function_call_arguments.delta", [("item_id", .string id),
      ("output_index", .nat index), ("delta", .string fragment)])

namespace Item

/-- The item with its fragments put together. -/
def whole (index : Nat) (item : Item) : OpenItem :=
  let id := item.kind.id index
  match item.kind with
  | .message => .message id index item.fragments.flatten
  | .reasoning => .reasoning id index item.fragments.flatten
  | .tool callId name => .tool id index callId name item.fragments.flatten

/-- The events of an item before it is closed. -/
def begun (index : Nat) (item : Item) : List Event :=
  item.kind.added index ++ item.fragments.map (item.whole index).delta

/-- The events of an item. -/
def events (index : Nat) (item : Item) : List Event :=
  item.begun index ++ (item.whole index).closing ++
    [("response.output_item.done", [("output_index", .nat index), ("item", (item.whole index).completed)])]

end Item

/-- Items one after the other, numbered from an index. -/
def itemEvents (index : Nat) : List Item → List Event
  | [] => []
  | item :: rest => item.events index ++ itemEvents (index + 1) rest

/-- The items as they are when they are closed. -/
def closedItems (index : Nat) : List Item → List Value
  | [] => []
  | item :: rest => (item.whole index).completed :: closedItems (index + 1) rest

/-- The frames are numbered. Apart from announcements they are those of the items
in order, and last comes the completed response, which lists them. -/
def WellFormed (frames : List Frame) : Prop :=
  ∃ events items response,
    frames = numbered 0 (events ++ [("response.completed", [("response", response)])]) ∧
      events.filter (fun ev => !isAnnouncement ev) = itemEvents 0 items ∧
        optArr response "output" = some (closedItems 0 items)

theorem numbered_append (n : Nat) (before after : List Event) :
    numbered n (before ++ after) = numbered n before ++ numbered (n + before.length) after := by
  induction before generalizing n with
  | nil => rfl
  | cons ev rest ih =>
      obtain ⟨name, data⟩ := ev
      rw [List.cons_append, numbered, numbered, ih, List.length_cons, Nat.add_right_comm, Nat.add_assoc]
      rfl

theorem itemEvents_append (index : Nat) (before after : List Item) :
    itemEvents index (before ++ after) =
      itemEvents index before ++ itemEvents (index + before.length) after := by
  induction before generalizing index with
  | nil => rfl
  | cons item rest ih =>
      rw [List.cons_append, itemEvents, itemEvents, ih, List.append_assoc, List.length_cons,
        Nat.add_right_comm, Nat.add_assoc]

theorem closedItems_append (index : Nat) (before after : List Item) :
    closedItems index (before ++ after) =
      closedItems index before ++ closedItems (index + before.length) after := by
  induction before generalizing index with
  | nil => rfl
  | cons item rest ih =>
      rw [List.cons_append, closedItems, closedItems, ih, List.cons_append, List.length_cons,
        Nat.add_right_comm, Nat.add_assoc]

theorem writeEvents_eq (s : EmitState) (events : List Event) :
    writeEvents s events = (numbered s.seq events, { s with seq := s.seq + events.length }) := by
  unfold writeEvents
  induction events generalizing s with
  | nil => rfl
  | cons ev rest ih =>
      obtain ⟨name, data⟩ := ev
      rw [Transducer.run_cons, ih]
      simp only [writeEvent, numbered, List.length_cons, List.singleton_append, Nat.add_right_comm,
        Nat.add_assoc]

/-! ### What is written before the end -/

/-- The item that is open, after `count` that are closed, and its events. -/
inductive Unfinished (count : Nat) : Nat → Option OpenItem → List Event → Prop where
  | none : Unfinished count count none []
  | some (item : Item) : Unfinished count (count + 1) (some (item.whole count)) (item.begun count)

/-- The items that are closed, and the one that is open. -/
inductive Written (s : EmitState) : List Frame → Prop where
  | mk {events rest : List Event} {items : List Item} (seq : s.seq = events.length)
      (told : events.filter (fun ev => !isAnnouncement ev) = itemEvents 0 items ++ rest)
      (closed : s.doneItems = closedItems 0 items)
      (unfinished : Unfinished items.length s.nextIndex s.open rest) : Written s (numbered 0 events)

section

variable {s : EmitState} {out : List Frame}

theorem Written.congr {s' : EmitState} (h : Written s out) (hSeq : s'.seq = s.seq)
    (hClosed : s'.doneItems = s.doneItems) (hNext : s'.nextIndex = s.nextIndex)
    (hOpen : s'.open = s.open) : Written s' out := by
  cases h with
  | mk seq told closed unfinished =>
      refine .mk (hSeq.trans seq) told (hClosed.trans closed) ?_
      rw [hNext, hOpen]
      exact unfinished

/-- Announcements may come anywhere. -/
theorem Written.announce {events : List Event} (h : Written s out)
    (hAll : ∀ ev ∈ events, isAnnouncement ev = true) :
    Written (writeEvents s events).2 (out ++ (writeEvents s events).1) := by
  rw [writeEvents_eq]
  cases h with
  | @mk before rest items seq told closed unfinished =>
      have hNone : events.filter (fun ev => !isAnnouncement ev) = [] := by
        rw [List.filter_eq_nil_iff]
        intro ev hev
        simp [hAll ev hev]
      rw [seq, ← Nat.zero_add before.length, ← numbered_append]
      refine .mk (by simp) ?_ closed unfinished
      rw [List.filter_append, hNone, List.append_nil]
      exact told

theorem told_added (kind : ItemKind) (index : Nat) :
    (kind.added index).filter (fun ev => !isAnnouncement ev) = kind.added index := by
  cases kind <;> simp [ItemKind.added, isAnnouncement]

theorem told_delta (item : OpenItem) (fragment : Str) : isAnnouncement (item.delta fragment) = false := by
  cases item <;> simp [OpenItem.delta, isAnnouncement]

theorem told_closing (item : OpenItem) (data : List (String × Value)) :
    (item.closing ++ [("response.output_item.done", data)]).filter (fun ev => !isAnnouncement ev) =
      item.closing ++ [("response.output_item.done", data)] := by
  cases item <;> simp [OpenItem.closing, isAnnouncement]

theorem item_index (item : Item) (index : Nat) : (item.whole index).index = index := by
  obtain ⟨kind, fragments⟩ := item
  cases kind <;> rfl

/-- The open item is closed and kept. -/
theorem Written.closeOpen (h : Written s out) :
    Written (closeOpen s).2 (out ++ (OpenaiResponses.closeOpen s).1) := by
  cases h with
  | @mk events rest items seq told closed unfinished =>
      unfold OpenaiResponses.closeOpen
      generalize hOpen : s.open = opened at unfinished
      generalize hNext : s.nextIndex = next at unfinished
      cases unfinished with
      | none =>
          rw [List.append_nil]
          refine .mk seq told closed ?_
          rw [hNext, hOpen]
          exact .none
      | some item =>
          let closing := (item.whole items.length).closing ++ [("response.output_item.done",
            [("output_index", Value.nat (item.whole items.length).index),
              ("item", (item.whole items.length).completed)])]
          have hTold : (events ++ closing).filter (fun ev => !isAnnouncement ev) =
              itemEvents 0 (items ++ [item]) ++ [] := by
            rw [List.filter_append, told, told_closing, itemEvents_append, Nat.zero_add, itemEvents,
              itemEvents, Item.events, item_index]
            simp
          have hClosed : s.doneItems ++ [(item.whole items.length).completed] =
              closedItems 0 (items ++ [item]) := by
            rw [closedItems_append, closed, Nat.zero_add]
            rfl
          dsimp only
          rw [writeEvents_eq]
          dsimp only
          rw [seq, ← Nat.zero_add events.length, ← numbered_append]
          refine .mk (by simp) hTold hClosed ?_
          rw [List.length_append, List.length_singleton]
          exact .none

/-- An item is added once no other is open. -/
theorem Written.add (h : Written s out) (kind : ItemKind) (hShut : s.open = none) :
    Written { (writeEvents { s with nextIndex := s.nextIndex + 1 } (kind.added s.nextIndex)).2 with
        «open» := some (Item.whole s.nextIndex ⟨kind, []⟩) }
      (out ++ (writeEvents { s with nextIndex := s.nextIndex + 1 } (kind.added s.nextIndex)).1) := by
  rw [writeEvents_eq]
  cases h with
  | @mk events rest items seq told closed unfinished =>
      rw [hShut] at unfinished
      generalize hNext : s.nextIndex = next at unfinished
      cases unfinished with
      | none =>
          dsimp only
          rw [seq, ← Nat.zero_add events.length, ← numbered_append]
          refine .mk (by simp) ?_ closed (.some ⟨kind, []⟩)
          rw [List.filter_append, told, told_added]
          simp [Item.begun]

/-- The item with one more fragment. -/
def OpenItem.extend (item : OpenItem) (fragment : Str) : OpenItem :=
  match item with
  | .message id index text => .message id index (text ++ fragment)
  | .reasoning id index text => .reasoning id index (text ++ fragment)
  | .tool id index callId name args => .tool id index callId name (args ++ fragment)

theorem whole_concat (kind : ItemKind) (fragments : List Str) (fragment : Str) (index : Nat) :
    Item.whole index ⟨kind, fragments ++ [fragment]⟩ =
      (Item.whole index ⟨kind, fragments⟩).extend fragment := by
  cases kind <;> simp [Item.whole, OpenItem.extend]

theorem delta_extend (item : OpenItem) (fragment : Str) : (item.extend fragment).delta = item.delta := by
  cases item <;> rfl

/-- A fragment goes into the open item. -/
theorem Written.extend {item : OpenItem} (h : Written s out) (hOpen : s.open = some item)
    (fragment : Str) : Written { s with «open» := some (item.extend fragment), seq := s.seq + 1 }
      (out ++ numbered s.seq [item.delta fragment]) := by
  cases h with
  | @mk events rest items seq told closed unfinished =>
      rw [hOpen] at unfinished
      generalize hNext : s.nextIndex = next at unfinished
      cases unfinished with
      | some item =>
          obtain ⟨kind, fragments⟩ := item
          rw [seq, ← Nat.zero_add events.length, ← numbered_append]
          have hUnfinished : Unfinished items.length _ _ _ := .some ⟨kind, fragments ++ [fragment]⟩
          rw [whole_concat] at hUnfinished
          refine .mk (by simp) ?_ closed hUnfinished
          rw [List.filter_append, told, List.filter_singleton, told_delta]
          simp [Item.begun, whole_concat, delta_extend]

theorem Written.ensureMessage (h : Written s out) :
    Written (ensureMessage s).2 (out ++ (OpenaiResponses.ensureMessage s).1) ∧
      ∃ id index acc, (OpenaiResponses.ensureMessage s).2.open = some (.message id index acc) := by
  by_cases hMessage : ∃ id index acc, s.open = some (.message id index acc)
  · obtain ⟨id, index, acc, hOpen⟩ := hMessage
    rw [ensureMessage_of_message hOpen, List.append_nil]
    exact ⟨h, id, index, acc, hOpen⟩
  · push Not at hMessage
    refine ⟨?_, _, _, _, ensureMessage_open_of_other hMessage⟩
    have hAdded := h.closeOpen.add .message (closeOpen_open s)
    unfold OpenaiResponses.ensureMessage
    split
    · next hOpen => exact absurd hOpen (hMessage _ _ _)
    · rw [List.append_assoc] at hAdded
      exact hAdded

theorem Written.ensureReasoning (h : Written s out) :
    Written (ensureReasoning s).2 (out ++ (OpenaiResponses.ensureReasoning s).1) ∧
      ∃ id index acc, (OpenaiResponses.ensureReasoning s).2.open = some (.reasoning id index acc) := by
  by_cases hReasoning : ∃ id index acc, s.open = some (.reasoning id index acc)
  · obtain ⟨id, index, acc, hOpen⟩ := hReasoning
    rw [ensureReasoning_of_reasoning hOpen, List.append_nil]
    exact ⟨h, id, index, acc, hOpen⟩
  · push Not at hReasoning
    refine ⟨?_, _, _, _, ensureReasoning_open_of_other hReasoning⟩
    have hAdded := h.closeOpen.add .reasoning (closeOpen_open s)
    unfold OpenaiResponses.ensureReasoning
    split
    · next hOpen => exact absurd hOpen (hReasoning _ _ _)
    · rw [List.append_assoc] at hAdded
      exact hAdded

theorem finish_free (hHeld : s.pendingCompleted = false) : s.finish = ([], s) := by
  unfold EmitState.finish
  rw [hHeld]
  rfl

theorem encodeEvent_report (hHeld : s.pendingCompleted = false) (usage : Usage) :
    encodeEvent s (.usageDelta usage) =
      ([], { s with usage := some ((s.usage.getD {}).merge usage) }) :=
  finish_free hHeld

/-- An event before the end. -/
theorem Written.step {e : StreamEvent} (h : Written s out) (hHeld : s.pendingCompleted = false)
    (hDone : e.isDone = false) : Written (encodeEvent s e).2 (out ++ (encodeEvent s e).1) := by
  cases e with
  | messageStart model =>
      have hNamed : Written { s with
          model := model
          respId := if s.respId.isEmpty then "resp_stream".toList else s.respId } out :=
        h.congr rfl rfl rfl rfl
      refine hNamed.announce fun ev hev => ?_
      rcases List.mem_cons.mp hev with rfl | hev
      · rfl
      · cases List.mem_singleton.mp hev
        rfl
  | textDelta text =>
      obtain ⟨hReady, id, index, acc, hOpen⟩ := h.ensureMessage
      have hWritten := hReady.extend hOpen text
      unfold encodeEvent
      dsimp only
      rw [hOpen]
      rw [List.append_assoc] at hWritten
      exact hWritten
  | thinkingDelta text =>
      obtain ⟨hReady, id, index, acc, hOpen⟩ := h.ensureReasoning
      have hWritten := hReady.extend hOpen text
      unfold encodeEvent
      dsimp only
      rw [hOpen]
      rw [List.append_assoc] at hWritten
      exact hWritten
  | toolUseStart id name =>
      have hAdded := h.closeOpen.add (.tool id name) (closeOpen_open s)
      rw [List.append_assoc] at hAdded
      exact hAdded
  | toolUseDelta partialJson =>
      unfold encodeEvent
      dsimp only
      split
      · next hOpen => exact h.extend hOpen partialJson
      · rw [List.append_nil]
        exact h
  | usageDelta usage =>
      rw [encodeEvent_report hHeld, List.append_nil]
      exact h.congr rfl rfl rfl rfl
  | done reason => cases hDone

theorem Written.run {events : List StreamEvent} (h : Written s out) (hHeld : s.gate.held = false)
    (hDone : ∀ e ∈ events, e.isDone = false) :
    Written (encodeSse events s).2 (out ++ (encodeSse events s).1) := by
  unfold encodeSse
  induction events generalizing s out with
  | nil => simpa using h
  | cons e rest ih =>
      have hFirst := hDone e List.mem_cons_self
      have hNext : (encodeEvent s e).2.gate.held = false := by
        rw [gate_encodeEvent]
        exact Gate.held_after hHeld hFirst
      have hRest := ih (h.step hHeld hFirst) hNext fun e he => hDone e (List.mem_cons_of_mem _ he)
      rwa [List.append_assoc] at hRest

/-! ### The end -/

/-- The response lists what is closed. -/
theorem output_responseObj (s : EmitState) (status : String) (output : List Value) :
    optArr (s.responseObj status output) "output" = some output := by
  have hCache : "output" ∉ (cacheFields s.promptCacheKey s.promptCacheRetention).map Prod.fst := by
    cases s.promptCacheKey <;> simp [cacheFields]
  simp only [EmitState.responseObj, optArr, get_obj_append hCache, bind_get_obj]
  simp

/-- The completed response, when no item is open. -/
theorem Written.completed (h : Written s out) (hShut : s.open = none) :
    WellFormed (out ++ (writeCompleted s).1) := by
  cases h with
  | @mk events rest items seq told closed unfinished =>
      rw [hShut] at unfinished
      generalize hNext : s.nextIndex = next at unfinished
      cases unfinished with
      | none =>
          rw [List.append_nil] at told
          refine ⟨events, items, s.responseObj "completed" s.doneItems, ?_, told, ?_⟩
          · rw [numbered_append, Nat.zero_add, ← seq]
            rfl
          · rw [output_responseObj, closed]

/-- Once the end is out, reports write nothing. -/
theorem reports_free {reports : List StreamEvent} (hHeld : s.pendingCompleted = false)
    (hReports : ∀ e ∈ reports, e.isUsage = true) :
    (encodeSse reports s).1 = [] ∧ (encodeSse reports s).2.pendingCompleted = false := by
  unfold encodeSse
  induction reports generalizing s with
  | nil => exact ⟨rfl, hHeld⟩
  | cons e rest ih =>
      have hFirst := hReports e List.mem_cons_self
      cases e with
      | usageDelta usage =>
          rw [Transducer.run_cons, encodeEvent_report hHeld]
          exact ih hHeld fun e he => hReports e (List.mem_cons_of_mem _ he)
      | _ => cases hFirst

/-- An end that is held back goes out with the first report, or when all is over. -/
theorem Written.reports_held {reports : List StreamEvent} (h : Written s out) (hShut : s.open = none)
    (hHeld : s.pendingCompleted = true) (hReports : ∀ e ∈ reports, e.isUsage = true) :
    WellFormed (out ++ ((encodeSse reports s).1 ++ (encodeSse reports s).2.finish.1)) := by
  cases reports with
  | nil =>
      have hFinish : s.finish = writeCompleted { s with pendingCompleted := false } := by
        unfold EmitState.finish
        rw [if_pos hHeld]
      have hFree : Written { s with pendingCompleted := false } out := h.congr rfl rfl rfl rfl
      show WellFormed (out ++ s.finish.1)
      rw [hFinish]
      exact hFree.completed hShut
  | cons e rest =>
      have hFirst := hReports e List.mem_cons_self
      cases e with
      | usageDelta usage =>
          let told : EmitState :=
            { s with usage := some ((s.usage.getD {}).merge usage), pendingCompleted := false }
          have hStep : encodeEvent s (.usageDelta usage) = writeCompleted told := by
            show EmitState.finish _ = _
            unfold EmitState.finish
            rw [if_pos hHeld]
          have hTold : Written told out := h.congr rfl rfl rfl rfl
          obtain ⟨hNone, hFree⟩ := reports_free (s := (writeCompleted told).2) rfl
            fun e he => hReports e (List.mem_cons_of_mem _ he)
          unfold encodeSse at hNone hFree ⊢
          rw [Transducer.run_cons, hStep, hNone, finish_free hFree, List.append_nil, List.append_nil]
          exact hTold.completed hShut
      | _ => cases hFirst

/-- The end completes the response, at once or with what follows. -/
theorem Written.done {reports : List StreamEvent} (h : Written s out)
    (hHeld : s.pendingCompleted = false) (reason : StopReason)
    (hReports : ∀ e ∈ reports, e.isUsage = true) :
    WellFormed (out ++ ((encodeSse (.done reason :: reports) s).1 ++
      (encodeSse (.done reason :: reports) s).2.finish.1)) := by
  have hStill : (OpenaiResponses.closeOpen s).2.pendingCompleted = false :=
    (congrArg Gate.held (closeOpen_gate s)).trans hHeld
  have hEvent := h.closeOpen
  unfold encodeSse
  cases hUsage : s.usage with
  | none =>
      have hStep : encodeEvent s (.done reason) = ((OpenaiResponses.closeOpen s).1,
          { (OpenaiResponses.closeOpen s).2 with pendingCompleted := true }) := by
        simp only [encodeEvent, closeOpen_usage, hUsage]
      have hHolding : Written { (OpenaiResponses.closeOpen s).2 with pendingCompleted := true }
          (out ++ (OpenaiResponses.closeOpen s).1) := hEvent.congr rfl rfl rfl rfl
      have hEnd := hHolding.reports_held (closeOpen_open s) rfl hReports
      unfold encodeSse at hEnd
      rw [Transducer.run_cons, hStep]
      simpa only [List.append_assoc] using hEnd
  | some u =>
      have hStep : encodeEvent s (.done reason) = ((OpenaiResponses.closeOpen s).1 ++
          (writeCompleted (OpenaiResponses.closeOpen s).2).1,
            (writeCompleted (OpenaiResponses.closeOpen s).2).2) := by
        simp only [encodeEvent, closeOpen_usage, hUsage]
      obtain ⟨hNone, hFree⟩ := reports_free (s := (writeCompleted (OpenaiResponses.closeOpen s).2).2)
        hStill hReports
      unfold encodeSse at hNone hFree
      rw [Transducer.run_cons, hStep, hNone, finish_free hFree, List.append_nil, List.append_nil,
        ← List.append_assoc]
      exact hEvent.completed (closeOpen_open s)

end

/-- All frames of an answer: those of its batches, and those still owed. -/
def streamOf (key retention : Option Str) (batches : List (List StreamEvent)) : List Frame :=
  let (frames, state) := Transducer.run (fun s batch => encodeSse batch s)
    (EmitState.setPromptCache {} key retention) batches
  frames ++ state.finish.1

end Gateway.Wire.OpenaiResponses
