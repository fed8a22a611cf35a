import Gateway.Wire.Anthropic.Answer
import Gateway.Wire.Reconstruction.Anthropic

/-! The blocks a client puts together from a stream of events, and the answers
that come out of it as they went in. -/
namespace Gateway.Wire.Anthropic

open Json

/-! ### Placing events -/

/-- An event placed on the blocks so far, latest first: a delta goes to the
latest block where that is of its kind, and else opens one. -/
def place : List Block → StreamEvent → List Block
  | .text u :: rest, .textDelta t => .text (u ++ t) :: rest
  | blocks, .textDelta t => .text t :: blocks
  | .thinking u s :: rest, .thinkingDelta t => .thinking (u ++ t) s :: rest
  | blocks, .thinkingDelta t => .thinking t [] :: blocks
  | .toolUse id name json :: rest, .toolUseDelta t => .toolUse id name (json ++ t) :: rest
  | blocks, .toolUseDelta t => .toolUse [] [] t :: blocks
  | blocks, .toolUseStart id name => .toolUse id name [] :: blocks
  | blocks, _ => blocks

theorem place_toolUseStart (blocks : List Block) (id name : Str) :
    place blocks (.toolUseStart id name) = .toolUse id name [] :: blocks := by
  cases blocks with
  | nil => rfl
  | cons b earlier => cases b <;> rfl

/-- The client has the blocks, and the encoder has the latest of them open. -/
def Live (s : EmitState) (blocks : List Block) : Prop :=
  Holds s blocks.reverse ∧ s.open = blocks.head?.bind Block.kind

/-- Where a delta lands: on the latest block, or on one opened for it. -/
theorem Live.lands {s : EmitState} {blocks : List Block} (h : Live s blocks)
    (kind : BlockKind) (delta : Value) (stopped : Bool) :
    ∃ b earlier, (writeDelta s kind delta).1.foldl Reader.readFrame ⟨blocks.reverse, stopped⟩ =
        ⟨(b.extend delta :: earlier).reverse, stopped⟩ ∧
      Live (writeDelta s kind delta).2 (b.extend delta :: earlier) ∧ b.kind = some kind ∧
      if blocks.head?.bind Block.kind = some kind then blocks = b :: earlier
      else b = freshBlock kind ∧ earlier = blocks := by
  obtain ⟨closed, b, hRead, hBlocks, hLength, hKind, hOpen⟩ := read_writeDelta h.1 kind delta stopped
  have hExtended := (Block.extend_kind delta b).trans hKind
  refine ⟨b, closed.reverse, by simpa using hRead, ⟨?_, ?_⟩, hKind, ?_⟩
  · simp only [Holds, hOpen]
    exact ⟨closed, b.extend delta, by simp, hLength, hExtended⟩
  · rw [hOpen, List.head?_cons, Option.bind_some, hExtended]
  · rw [h.2] at hBlocks
    split_ifs at hBlocks ⊢
    · simpa using congrArg List.reverse hBlocks.symm
    · obtain ⟨hClosed, hFresh⟩ := List.append_inj' hBlocks rfl
      exact ⟨by simpa using hFresh, by rw [hClosed, List.reverse_reverse]⟩

/-- A delta of a kind, to a block of that kind. -/
def deltaValue : BlockKind → Str → Value
  | .text, t => obj [("type", .string "text_delta".toList), ("text", .string t)]
  | .thinking, t => obj [("type", .string "thinking_delta".toList), ("thinking", .string t)]
  | .tool, t => obj [("type", .string "input_json_delta".toList), ("partial_json", .string t)]

def deltaEvent : BlockKind → Str → StreamEvent
  | .text, t => .textDelta t
  | .thinking, t => .thinkingDelta t
  | .tool, t => .toolUseDelta t

theorem encodeEvent_deltaEvent (s : EmitState) (kind : BlockKind) (t : Str) :
    encodeEvent s (deltaEvent kind t) = writeDelta s kind (deltaValue kind t) := by
  cases kind <;> rfl

theorem place_of_kind {b : Block} {kind : BlockKind} (hKind : b.kind = some kind) (t : Str)
    (earlier : List Block) :
    place (b :: earlier) (deltaEvent kind t) = b.extend (deltaValue kind t) :: earlier := by
  cases b <;> cases hKind <;> simp [place, deltaEvent, deltaValue, Block.extend]

theorem place_of_other {blocks : List Block} {kind : BlockKind}
    (hOther : blocks.head?.bind Block.kind ≠ some kind) (t : Str) :
    place blocks (deltaEvent kind t) = (freshBlock kind).extend (deltaValue kind t) :: blocks := by
  cases blocks with
  | nil => cases kind <;> simp [place, deltaEvent, deltaValue, freshBlock, Block.extend]
  | cons b earlier =>
      cases kind <;> cases b <;>
        simp_all [place, deltaEvent, deltaValue, freshBlock, Block.extend, Block.kind]

theorem Live.read_deltaEvent {s : EmitState} {blocks : List Block} (h : Live s blocks)
    (stopped : Bool) (kind : BlockKind) (t : Str) :
    (encodeEvent s (deltaEvent kind t)).1.foldl Reader.readFrame ⟨blocks.reverse, stopped⟩ =
        ⟨(place blocks (deltaEvent kind t)).reverse, stopped⟩ ∧
      Live (encodeEvent s (deltaEvent kind t)).2 (place blocks (deltaEvent kind t)) := by
  obtain ⟨b, earlier, hRead, hLive, hKind, hPlace⟩ := h.lands kind (deltaValue kind t) stopped
  have hPlaced : place blocks (deltaEvent kind t) =
      b.extend (deltaValue kind t) :: earlier := by
    split_ifs at hPlace with hHead
    · rw [hPlace, place_of_kind hKind]
    · rw [hPlace.1, hPlace.2, place_of_other hHead]
  rw [encodeEvent_deltaEvent, hPlaced]
  exact ⟨hRead, hLive⟩

/-- One content event on the stream. -/
theorem Live.read_encodeEvent {s : EmitState} {blocks : List Block} (h : Live s blocks)
    (stopped : Bool) {e : StreamEvent} (hContent : isContent e = true) :
    (encodeEvent s e).1.foldl Reader.readFrame ⟨blocks.reverse, stopped⟩ =
        ⟨(place blocks e).reverse, stopped⟩ ∧ Live (encodeEvent s e).2 (place blocks e) := by
  cases e with
  | textDelta t => exact h.read_deltaEvent stopped .text t
  | thinkingDelta t => exact h.read_deltaEvent stopped .thinking t
  | toolUseDelta t => exact h.read_deltaEvent stopped .tool t
  | toolUseStart id name =>
      rw [place_toolUseStart]
      refine ⟨?_, ⟨blocks.reverse, _, List.reverse_cons, ?_, rfl⟩, rfl⟩
      · simp [encodeEvent, List.foldl_append, startBlock]
      · simpa [encodeEvent] using h.1.ensureStarted.closeOpen
  | messageStart model => cases hContent
  | usageDelta usage => cases hContent
  | done reason => cases hContent

/-- An event without content leaves the client's blocks. -/
theorem quiet_encodeEvent (s : EmitState) (r : Reader) {e : StreamEvent}
    (hQuiet : isContent e = false) :
    ((encodeEvent s e).1.foldl Reader.readFrame r).blocks = r.blocks := by
  cases e with
  | messageStart model =>
      simp [encodeEvent, emitMessageStart, Reader.readFrame, Frame.named, Reader.read]
  | usageDelta usage => rfl
  | done reason => simp [encodeEvent, List.foldl_append, Reader.readFrame, Frame.named, Reader.read]
  | _ => cases hQuiet

theorem place_quiet (blocks : List Block) {e : StreamEvent} (hQuiet : isContent e = false) :
    place blocks e = blocks := by
  cases e with
  | messageStart model => cases blocks with
      | nil => rfl
      | cons b earlier => cases b <;> rfl
  | usageDelta usage => cases blocks with
      | nil => rfl
      | cons b earlier => cases b <;> rfl
  | done reason => cases blocks with
      | nil => rfl
      | cons b earlier => cases b <;> rfl
  | _ => cases hQuiet

theorem foldl_place_quiet (blocks : List Block) {events : List StreamEvent}
    (hQuiet : ∀ e ∈ events, isContent e = false) : events.foldl place blocks = blocks := by
  induction events with
  | nil => rfl
  | cons e rest ih =>
      rw [List.foldl_cons, place_quiet blocks (hQuiet e (by simp))]
      exact ih fun e he => hQuiet e (by simp [he])

theorem quiet_encodeSse (s : EmitState) (r : Reader) {events : List StreamEvent}
    (hQuiet : ∀ e ∈ events, isContent e = false) :
    ((encodeSse events s).1.foldl Reader.readFrame r).blocks = r.blocks := by
  unfold encodeSse
  induction events generalizing s r with
  | nil => rfl
  | cons e rest ih =>
      rw [Transducer.run_cons, List.foldl_append,
        ih _ _ fun e he => hQuiet e (by simp [he]), quiet_encodeEvent s r (hQuiet e (by simp))]

/-- The client ends up with the blocks the events are placed on. -/
theorem Live.read_encodeSse {s : EmitState} {blocks : List Block} (h : Live s blocks) (stopped : Bool)
    {events : List StreamEvent} (hOrderly : Orderly events) :
    ((encodeSse events s).1.foldl Reader.readFrame ⟨blocks.reverse, stopped⟩).blocks =
      (events.foldl place blocks).reverse := by
  unfold encodeSse
  induction events generalizing s blocks stopped with
  | nil => rfl
  | cons e rest ih =>
      obtain ⟨hHere, hRest⟩ := List.pairwise_cons.mp hOrderly
      rw [Transducer.run_cons, List.foldl_append, List.foldl_cons]
      by_cases hContent : isContent e = true
      · obtain ⟨hRead, hLive⟩ := h.read_encodeEvent stopped hContent
        rw [hRead]
        exact ih hLive stopped hRest
      have hQuiet : isContent e = false := Bool.eq_false_iff.mpr hContent
      rw [place_quiet blocks hQuiet]
      cases e with
      | done reason =>
          -- nothing but the end follows, whatever the encoder's state
          have hAfter : ∀ e ∈ rest, isContent e = false := fun e he => hHere e he rfl
          rw [foldl_place_quiet blocks hAfter]
          exact (quiet_encodeSse _ _ hAfter).trans (quiet_encodeEvent s _ rfl)
      | messageStart model =>
          have hSame : (encodeEvent s (.messageStart model)).1.foldl Reader.readFrame
              ⟨blocks.reverse, stopped⟩ = ⟨blocks.reverse, stopped⟩ := by
            simp [encodeEvent, emitMessageStart, Reader.readFrame, Frame.named,
              Reader.read]
          rw [hSame]
          exact ih (show Live (encodeEvent s (.messageStart model)).2 blocks from h) stopped hRest
      | usageDelta usage =>
          exact ih (show Live (encodeEvent s (.usageDelta usage)).2 blocks from h) stopped hRest
      | _ => cases hQuiet

/-! ### The size of what is placed -/

def Block.size : Block → Nat
  | .text t => 1 + t.length
  | .thinking t s => 1 + t.length + s.length
  | .toolUse _ _ json => 1 + json.length
  | .redacted _ | .unknown => 1

def size (blocks : List Block) : Nat := (blocks.map Block.size).sum

theorem size_cons (b : Block) (earlier : List Block) :
    size (b :: earlier) = b.size + size earlier := by
  simp [size]

theorem size_extend {b : Block} {kind : BlockKind} (hKind : b.kind = some kind) (t : Str) :
    (b.extend (deltaValue kind t)).size = b.size + t.length := by
  cases b <;> cases hKind <;> simp [Block.extend, deltaValue, Block.size] <;> omega

theorem extend_nil {b : Block} {kind : BlockKind} (hKind : b.kind = some kind) :
    b.extend (deltaValue kind []) = b := by
  cases b <;> cases hKind <;> simp [Block.extend, deltaValue]

theorem freshBlock_kind (kind : BlockKind) : (freshBlock kind).kind = some kind := by
  cases kind <;> rfl

theorem size_freshBlock (kind : BlockKind) : (freshBlock kind).size = 1 := by
  cases kind <;> rfl

/-- A delta adds its length, and one more where it opens a block. -/
theorem size_place_deltaEvent (blocks : List Block) (kind : BlockKind) (t : Str) :
    size (place blocks (deltaEvent kind t)) = size blocks + t.length +
      if blocks.head?.bind Block.kind = some kind then 0 else 1 := by
  split_ifs with hHead
  · obtain ⟨b, hb, hKind⟩ := Option.bind_eq_some_iff.mp hHead
    obtain ⟨earlier, rfl⟩ := List.head?_eq_some_iff.mp hb
    rw [place_of_kind hKind, size_cons, size_cons, size_extend hKind]
    omega
  · rw [place_of_other hHead, size_cons, size_extend (freshBlock_kind kind), size_freshBlock]
    omega

theorem place_deltaEvent_of_size {blocks : List Block} (kind : BlockKind) {t : Str}
    (hSize : size (place blocks (deltaEvent kind t)) ≤ size blocks) :
    place blocks (deltaEvent kind t) = blocks := by
  rw [size_place_deltaEvent] at hSize
  split_ifs at hSize with hHead
  · obtain ⟨b, hb, hKind⟩ := Option.bind_eq_some_iff.mp hHead
    obtain ⟨earlier, rfl⟩ := List.head?_eq_some_iff.mp hb
    have hNil : t = [] := List.length_eq_zero_iff.mp (by omega)
    rw [place_of_kind hKind, hNil, extend_nil hKind]
  · omega

/-- An event that does not change the size changes nothing. -/
theorem size_le_place (blocks : List Block) (e : StreamEvent) :
    size blocks ≤ size (place blocks e) ∧
      (size (place blocks e) ≤ size blocks → place blocks e = blocks) := by
  have hDelta (kind : BlockKind) (t : Str) :
      size blocks ≤ size (place blocks (deltaEvent kind t)) := by
    rw [size_place_deltaEvent]
    omega
  by_cases hQuiet : isContent e = false
  · rw [place_quiet blocks hQuiet]
    exact ⟨le_rfl, fun _ => rfl⟩
  cases e with
  | textDelta t => exact ⟨hDelta .text t, place_deltaEvent_of_size .text⟩
  | thinkingDelta t => exact ⟨hDelta .thinking t, place_deltaEvent_of_size .thinking⟩
  | toolUseDelta t => exact ⟨hDelta .tool t, place_deltaEvent_of_size .tool⟩
  | toolUseStart id name =>
      rw [place_toolUseStart, size_cons, Block.size]
      exact ⟨by omega, fun h => absurd h (by omega)⟩
  | _ => exact absurd rfl hQuiet

theorem size_le_foldl_place (blocks : List Block) (events : List StreamEvent) :
    size blocks ≤ size (events.foldl place blocks) ∧
      (size (events.foldl place blocks) ≤ size blocks → events.foldl place blocks = blocks) := by
  induction events generalizing blocks with
  | nil => exact ⟨le_rfl, fun _ => rfl⟩
  | cons e rest ih =>
      obtain ⟨hHere, hSame⟩ := size_le_place blocks e
      obtain ⟨hRest, hRestSame⟩ := ih (place blocks e)
      refine ⟨hHere.trans hRest, fun hSize => ?_⟩
      have hStill := hSame (hRest.trans hSize)
      rw [List.foldl_cons, hRestSame (hSize.trans hHere), hStill]

/-! ### Placing an answer -/

theorem extend_extend {b : Block} {kind : BlockKind} (hKind : b.kind = some kind) (t u : Str) :
    (b.extend (deltaValue kind t)).extend (deltaValue kind u) =
      b.extend (deltaValue kind (t ++ u)) := by
  cases b <;> cases hKind <;> simp [Block.extend, deltaValue]

theorem place_place (blocks : List Block) (kind : BlockKind) (t u : Str) :
    place (place blocks (deltaEvent kind t)) (deltaEvent kind u) =
      place blocks (deltaEvent kind (t ++ u)) := by
  by_cases hHead : blocks.head?.bind Block.kind = some kind
  · obtain ⟨b, hb, hKind⟩ := Option.bind_eq_some_iff.mp hHead
    obtain ⟨earlier, rfl⟩ := List.head?_eq_some_iff.mp hb
    have hExtended := (Block.extend_kind (deltaValue kind t) b).trans hKind
    rw [place_of_kind hKind, place_of_kind hKind, place_of_kind hExtended, extend_extend hKind]
  · have hExtended := (Block.extend_kind (deltaValue kind t) (freshBlock kind)).trans
      (freshBlock_kind kind)
    rw [place_of_other hHead, place_of_other hHead, place_of_kind hExtended,
      extend_extend (freshBlock_kind kind)]

/-- Fragments in a row are placed like one. -/
theorem foldl_place_deltas (blocks : List Block) (kind : BlockKind) (fragments : List Str) :
    (fragments.map (deltaEvent kind)).foldl place blocks =
      if fragments = [] then blocks else place blocks (deltaEvent kind fragments.flatten) := by
  induction fragments generalizing blocks with
  | nil => rfl
  | cons t rest ih =>
      rw [List.map_cons, List.foldl_cons, ih, if_neg (List.cons_ne_nil t rest)]
      split_ifs with hRest
      · simp [hRest]
      · rw [place_place, List.flatten_cons]

namespace Sent

/-- The block that the block's events leave by themselves: no signature. -/
def bare : Sent → Block
  | .thinking fragments _ => .thinking fragments.flatten []
  | b => b.block

/-- A block that comes through when its neighbours let it: something of it is
sent, and nothing of it is lost. -/
def kept : Sent → Bool
  | .text fragments => !fragments.isEmpty
  | .thinking fragments signature => !fragments.isEmpty && signature.flatten.isEmpty
  | .redacted _ => false
  | .toolUse .. => true

theorem freshBlock_extend (kind : BlockKind) (t : Str) :
    (freshBlock kind).extend (deltaValue kind t) =
      match kind with
      | .text => .text t
      | .thinking => .thinking t []
      | .tool => .toolUse [] [] t := by
  cases kind <;> simp [freshBlock, deltaValue, Block.extend]

theorem place_toolUse (blocks : List Block) (id name : Str) (fragments : List Str) :
    (toolUse id name fragments).events.foldl place blocks =
      (toolUse id name fragments).block :: blocks := by
  have hKind : (Block.toolUse id name []).kind = some .tool := rfl
  rw [events, List.foldl_cons, place_toolUseStart]
  refine (foldl_place_deltas _ .tool fragments).trans ?_
  split_ifs with hNone
  · simp [hNone, block]
  · rw [place_of_kind hKind]
    simp [Block.extend, deltaValue, block]

/-- A block adds itself whole to the blocks so far, or no block. -/
theorem place_cases (b : Sent) (blocks : List Block) :
    (b.events.foldl place blocks).length = blocks.length ∨
      b.events.foldl place blocks = b.bare :: blocks ∧
        (b.kept = true ∨ b.bare ≠ b.block) ∧
        (b.isThinking = true → blocks.head?.bind Block.kind ≠ some .thinking) := by
  have hDeltas (kind : BlockKind) (fragments : List Str) := foldl_place_deltas blocks kind fragments
  cases b with
  | text fragments =>
      rw [show (text fragments).events = fragments.map (deltaEvent .text) from rfl, hDeltas]
      split_ifs with hNone
      · exact Or.inl rfl
      by_cases hHead : blocks.head?.bind Block.kind = some .text
      · obtain ⟨b, hb, hKind⟩ := Option.bind_eq_some_iff.mp hHead
        obtain ⟨earlier, rfl⟩ := List.head?_eq_some_iff.mp hb
        exact Or.inl (by rw [place_of_kind hKind]; rfl)
      · rw [place_of_other hHead, freshBlock_extend]
        exact Or.inr ⟨rfl, Or.inl (by simp [kept, hNone]), fun h => by cases h⟩
  | thinking fragments signature =>
      rw [show (thinking fragments signature).events = fragments.map (deltaEvent .thinking) from rfl,
        hDeltas]
      split_ifs with hNone
      · exact Or.inl rfl
      by_cases hHead : blocks.head?.bind Block.kind = some .thinking
      · obtain ⟨b, hb, hKind⟩ := Option.bind_eq_some_iff.mp hHead
        obtain ⟨earlier, rfl⟩ := List.head?_eq_some_iff.mp hb
        exact Or.inl (by rw [place_of_kind hKind]; rfl)
      · rw [place_of_other hHead, freshBlock_extend]
        refine Or.inr ⟨rfl, ?_, fun _ => hHead⟩
        by_cases hSigned : signature.flatten = []
        · exact Or.inl (by simp only [kept, hSigned]; simp [hNone])
        · refine Or.inr fun hSame => hSigned ?_
          simp only [bare, block, Block.thinking.injEq] at hSame
          exact hSame.2.symm
  | redacted data => exact Or.inl rfl
  | toolUse id name fragments =>
      exact Or.inr ⟨place_toolUse blocks id name fragments, Or.inl rfl, fun h => by cases h⟩

/-- A block that comes through, on blocks whose latest is of another kind. -/
theorem place_kept {b : Sent} {blocks : List Block} (hKept : b.kept = true)
    (hText : b.isText = true → blocks.head?.bind Block.kind ≠ some .text)
    (hThinking : b.isThinking = true → blocks.head?.bind Block.kind ≠ some .thinking) :
    b.events.foldl place blocks = b.block :: blocks := by
  cases b with
  | text fragments =>
      have hSome : fragments ≠ [] := by simpa [kept] using hKept
      refine (foldl_place_deltas blocks .text fragments).trans ?_
      rw [if_neg hSome, place_of_other (hText rfl), freshBlock_extend]
      rfl
  | thinking fragments signature =>
      obtain ⟨hSome, hUnsigned⟩ : fragments ≠ [] ∧ signature.flatten = [] := by
        simpa only [kept, Bool.and_eq_true, Bool.not_eq_true', List.isEmpty_eq_false_iff,
          List.isEmpty_iff] using hKept
      refine (foldl_place_deltas blocks .thinking fragments).trans ?_
      rw [if_neg hSome, place_of_other (hThinking rfl), freshBlock_extend, block, hUnsigned]
  | redacted data => cases hKept
  | toolUse id name fragments => exact place_toolUse blocks id name fragments

end Sent

/-- The blocks of an answer, latest first, as they come out of its events. -/
def placed (answer : List Sent) : List Block := (answer.flatMap Sent.events).foldl place []

theorem placed_concat (answer : List Sent) (b : Sent) :
    placed (answer ++ [b]) = b.events.foldl place (placed answer) := by
  simp [placed, List.flatMap_append]

theorem length_placed_le (answer : List Sent) : (placed answer).length ≤ answer.length := by
  induction answer using List.reverseRecOn with
  | nil => exact le_rfl
  | append_singleton answer b ih =>
      rw [placed_concat, List.length_append, List.length_singleton]
      rcases b.place_cases (placed answer) with hSame | ⟨hNew, -⟩
      · omega
      · rw [hNew, List.length_cons]
        omega

/-- Every block comes through: no two blocks of thinking stand side by side. -/
def Kept (answer : List Sent) : Prop :=
  (∀ b ∈ answer, b.kept = true) ∧ Apart Sent.isThinking answer

theorem head_reverse_block (answer : List Sent) :
    ((answer.map Sent.block).reverse).head?.bind Block.kind =
      answer.getLast?.bind (fun b => b.block.kind) := by
  rw [List.head?_reverse, List.getLast?_map]
  cases answer.getLast? <;> rfl

/-- An answer comes out of its events as it went in exactly when each block
comes through. -/
theorem placed_eq_iff {answer : List Sent} (hApart : Apart Sent.isText answer) :
    placed answer = (answer.map Sent.block).reverse ↔ Kept answer := by
  induction answer using List.reverseRecOn with
  | nil => simp [placed, Kept, Apart]
  | append_singleton answer b ih =>
      obtain ⟨hEarlier, -, hLast⟩ := List.isChain_append.mp hApart
      have hIff := ih hEarlier
      have hLength := length_placed_le answer
      rw [placed_concat, List.map_append, List.reverse_append, List.map_singleton,
        List.reverse_singleton, List.singleton_append]
      constructor
      · intro hSame
        have hCount := congrArg List.length hSame
        simp only [List.length_cons, List.length_reverse, List.length_map] at hCount
        rcases b.place_cases (placed answer) with hNone | ⟨hNew, hWhole, hThinking⟩
        · omega
        rw [hNew, List.cons.injEq] at hSame
        obtain ⟨hBlock, hRest⟩ := hSame
        obtain ⟨hKept, hThoughts⟩ := hIff.mp hRest
        refine ⟨?_, List.isChain_append.mpr ⟨hThoughts, List.isChain_singleton _, ?_⟩⟩
        · intro c hc
          rcases List.mem_append.mp hc with hc | hc
          · exact hKept c hc
          · rw [List.mem_singleton.mp hc]
            exact hWhole.resolve_right fun h => h hBlock
        · intro c hc d hd
          simp only [List.head?_cons, Option.mem_some_iff] at hd
          subst hd
          rintro ⟨hFirst, hSecond⟩
          refine hThinking hSecond ?_
          rw [hRest, head_reverse_block, Option.mem_def.mp hc]
          cases c <;> cases hFirst
          rfl
      · rintro ⟨hKept, hThoughts⟩
        obtain ⟨hBefore, -, hLastThought⟩ := List.isChain_append.mp hThoughts
        have hRest := hIff.mpr ⟨fun c hc => hKept c (by simp [hc]), hBefore⟩
        have hHead {kind : BlockKind} (h : (placed answer).head?.bind Block.kind = some kind) :
            ∃ c ∈ answer.getLast?, c.block.kind = some kind := by
          rw [hRest, head_reverse_block] at h
          exact Option.bind_eq_some_iff.mp h
        rw [← hRest]
        refine Sent.place_kept (hKept b (by simp)) (fun hb h => ?_) (fun hb h => ?_)
        · obtain ⟨c, hc, hKind⟩ := hHead h
          refine hLast c hc b rfl ⟨?_, hb⟩
          cases c <;> cases hKind
          rfl
        · obtain ⟨c, hc, hKind⟩ := hHead h
          refine hLastThought c hc b rfl ⟨?_, hb⟩
          cases c <;> cases hKind
          rfl

/-! ### An answer that is cut short -/

theorem size_sent_le (b : Sent) (blocks : List Block) :
    size (b.events.foldl place blocks) ≤ b.block.size + size blocks := by
  have hDeltas (kind : BlockKind) (fragments : List Str) :
      size ((fragments.map (deltaEvent kind)).foldl place blocks) ≤
        1 + fragments.flatten.length + size blocks := by
    rw [foldl_place_deltas]
    split_ifs with hNone
    · omega
    · rw [size_place_deltaEvent]
      split_ifs <;> omega
  cases b with
  | text fragments => exact hDeltas .text fragments
  | thinking fragments signature =>
      refine (hDeltas .thinking fragments).trans ?_
      simp only [Sent.block, Block.size]
      omega
  | redacted data => exact Nat.le_add_left _ _
  | toolUse id name fragments => rw [Sent.place_toolUse, size_cons]

theorem size_placed_le (answer : List Sent) :
    size (placed answer) ≤ size (answer.map Sent.block).reverse := by
  have hReverse (blocks : List Block) : size blocks.reverse = size blocks := by
    simp [size, List.sum_reverse]
  rw [hReverse]
  induction answer using List.reverseRecOn with
  | nil => exact le_rfl
  | append_singleton answer b ih =>
      have hStep := size_sent_le b (placed answer)
      rw [placed_concat]
      simp only [size, List.map_append, List.map_cons, List.map_nil, List.sum_append,
        List.sum_cons, List.sum_nil] at hStep ih ⊢
      omega

/-- The events up to a cut leave the answer as it went in exactly when each
block comes through and what is cut off adds nothing. -/
theorem placed_cut_iff {answer : List Sent} (hApart : Apart Sent.isText answer)
    {seen later : List StreamEvent} (hCut : seen ++ later = answer.flatMap Sent.events) :
    seen.foldl place [] = (answer.map Sent.block).reverse ↔
      Kept answer ∧ (seen ++ later).foldl place [] = seen.foldl place [] := by
  have hPlaced : placed answer = later.foldl place (seen.foldl place []) := by
    rw [placed, ← hCut, List.foldl_append]
  rw [List.foldl_append, ← hPlaced, ← placed_eq_iff hApart]
  constructor
  · intro hSeen
    have hSame : placed answer = seen.foldl place [] := by
      rw [hPlaced]
      refine (size_le_foldl_place _ later).2 ?_
      rw [← hPlaced, hSeen]
      exact size_placed_le answer
    exact ⟨hSame.trans hSeen, hSame⟩
  · rintro ⟨hWhole, hSame⟩
    exact hSame.symm.trans hWhole

/-! ### Text blocks side by side -/

def Block.isText : Block → Bool
  | .text _ => true
  | _ => false

theorem joinTexts_of_apart {blocks : List Block} (h : Apart Block.isText blocks) :
    joinTexts blocks = blocks := by
  unfold Apart at h
  induction blocks with
  | nil => rfl
  | cons b rest ih =>
      obtain ⟨hHead, hRest⟩ := List.isChain_cons.mp h
      cases b with
      | text t =>
          rw [joinTexts, ih hRest]
          cases rest with
          | nil => rfl
          | cons c more =>
              cases c with
              | text u => exact absurd ⟨rfl, rfl⟩ (hHead _ rfl)
              | _ => rfl
      | _ =>
          rw [joinTexts, ih hRest]
          simp

theorem Block.isText_iff (b : Block) : b.isText = true ↔ b.kind = some .text := by
  cases b <;> simp [Block.isText, Block.kind]

theorem place_deltaEvent_apart {blocks : List Block} (h : Apart Block.isText blocks)
    (kind : BlockKind) (t : Str) : Apart Block.isText (place blocks (deltaEvent kind t)) := by
  by_cases hHead : blocks.head?.bind Block.kind = some kind
  · obtain ⟨b, hb, hKind⟩ := Option.bind_eq_some_iff.mp hHead
    obtain ⟨earlier, rfl⟩ := List.head?_eq_some_iff.mp hb
    rw [place_of_kind hKind]
    obtain ⟨hNext, hEarlier⟩ := List.isChain_cons.mp h
    refine List.isChain_cons.mpr ⟨fun c hc => ?_, hEarlier⟩
    have := hNext c hc
    rwa [Block.isText_iff, Block.extend_kind, ← Block.isText_iff]
  · rw [place_of_other hHead]
    refine List.isChain_cons.mpr ⟨fun c hc => ?_, h⟩
    rw [Block.isText_iff, Block.isText_iff, Block.extend_kind, freshBlock_kind]
    rintro ⟨hText, hNext⟩
    refine hHead ?_
    rw [Option.mem_def.mp hc, Option.bind_some, hNext, hText]

theorem place_apart {blocks : List Block} (h : Apart Block.isText blocks) (e : StreamEvent) :
    Apart Block.isText (place blocks e) := by
  by_cases hQuiet : isContent e = false
  · rwa [place_quiet blocks hQuiet]
  cases e with
  | textDelta t => exact place_deltaEvent_apart h .text t
  | thinkingDelta t => exact place_deltaEvent_apart h .thinking t
  | toolUseDelta t => exact place_deltaEvent_apart h .tool t
  | toolUseStart id name =>
      rw [place_toolUseStart]
      exact List.isChain_cons.mpr ⟨fun c _ => by simp [Block.isText], h⟩
  | _ => exact absurd rfl hQuiet

/-- The client never holds two text blocks side by side. -/
theorem joinTexts_foldl_place (events : List StreamEvent) :
    joinTexts (events.foldl place []).reverse = (events.foldl place []).reverse := by
  have hApart : Apart Block.isText (events.foldl place []) := by
    suffices ∀ blocks, Apart Block.isText blocks →
        Apart Block.isText (events.foldl place blocks) from this [] List.IsChain.nil
    induction events with
    | nil => exact fun _ h => h
    | cons e rest ih => exact fun blocks h => ih _ (place_apart h e)
  refine joinTexts_of_apart ?_
  unfold Apart at *
  rw [List.isChain_reverse]
  exact hApart.imp fun a b hab hba => hab hba.symm

end Gateway.Wire.Anthropic
