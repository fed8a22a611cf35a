import Gateway.Service.Record
import Gateway.Service.RecordedUsage

/-! A streamed turn from its first item until its client has it all or is gone.
A client that goes away drops the relay where it stands; a relay that is dropped
before the turn counts as recorded leaves a task behind that records it. -/
namespace Gateway.Service

open Json Wire

/-- Where the relay stands. -/
inductive Phase where
  /-- Between two items, whether the client asks for more or not. -/
  | «open» (st : StreamState)
  /-- Suspended while the turn is recorded, with the effects that are left. -/
  | finishing (st : StreamState) (pending : List Effect)
  | «over»

/-- The relay, and what the task it left behind has to do. -/
structure Streaming where
  phase : Phase
  spawned : List Effect := []

/-- What can happen next, in any order. A move that does not apply changes
nothing. -/
inductive Move where
  | item (i : Item)
  /-- The client asks for more after the last item. -/
  | poll
  /-- The next effect of the recording takes place. -/
  | advance
  /-- The client is gone. -/
  | drop
  /-- The next effect of the task left behind takes place. -/
  | spawned

namespace Streaming

variable (rctx : RecordCtx)

/-- A turn is recorded: first what takes no call. -/
def record (turn : Turn) (st : StreamState) : List Effect × Streaming :=
  (rctx.finishNow turn, { phase := .finishing st (rctx.finishLater turn) })

/-- The relay is dropped. -/
def drop (st : StreamState) : Streaming :=
  { phase := .over, spawned := if st.recorded then [] else rctx.finish (st.turn 499 true) }

def step (s : Streaming) (move : Move) : List Effect × Streaming :=
  match s.phase, move with
  | .open st, .item i =>
      if st.done then ([], s)
      else match st.receive i with
        | .more st => ([], { s with phase := .open st })
        | .yield _ st => ([], { s with phase := .open st })
        | .record turn _ st => record rctx turn st
  | .open st, .poll =>
      if !st.done then ([], s)
      else if st.recorded then ([], { s with phase := .over })
      else record rctx (st.turn st.status false) st.taken
  | .open st, .drop => ([], drop rctx st)
  | .finishing st pending, .advance =>
      match pending with
      | [] => ([], { s with phase := .open st.afterRecord })
      | [e] => ([e], { s with phase := .open st.afterRecord })
      | e :: rest => ([e], { s with phase := .finishing st rest })
  | .finishing st _, .drop => ([], drop rctx st)
  | _, .spawned =>
      match s.spawned with
      | [] => ([], s)
      | e :: rest => ([e], { s with spawned := rest })
  | _, _ => ([], s)

/-- The relay as it is handed to the client. -/
def start (upstream surface : WireFormat) (status : Nat) (echo : Option Str × Option Str)
    (includeUsage : Bool) : Streaming :=
  { phase := .open (translateStream upstream surface rctx.requestId status echo includeUsage) }

end Streaming

/-! ### What has been read -/

/-- The events that an item brings. -/
def StreamState.decoded (st : StreamState) : Item → List StreamEvent
  | .chunk bytes => (st.readChunk bytes).1
  | .failed => []
  | .ended => (st.decoder.decodeLines (cutLine st.buf)).1

/-- The events that a move reads. -/
def Streaming.reads (s : Streaming) (move : Move) : List StreamEvent :=
  match s.phase, move with
  | .open st, .item i => if st.done then [] else st.decoded i
  | _, _ => []

/-- The usage accumulated over some moves. -/
def usageRead (past : List (Streaming × Move)) : Usage :=
  usageOf (past.flatMap fun p => p.1.reads p.2)

/-- What an item leaves of a relay that has not recorded the turn. -/
structure StreamState.Took (st : StreamState) (i : Item) (st' : StreamState) : Prop where
  usage : st'.usage = st.usage ⊔ usageOf (st.decoded i)
  recorded : st'.recorded = st.recorded

theorem StreamState.receive_took (st : StreamState) (i : Item) :
    (∃ st', (st.receive i = .more st' ∨ ∃ frames, st.receive i = .yield frames st') ∧
      st.Took i st' ∧ st'.done = st.done) ∨
    ∃ turn output st', st.receive i = .record turn output st' ∧ st.Took i st' ∧
      turn.usage = st'.usage := by
  have hUsage (lines : List (List UInt8)) : (st.read lines).2.usage =
      st.usage ⊔ usageOf (st.decoder.decodeLines lines).1 := foldl_noteUsage _ _
  cases i with
  | chunk bytes =>
      have hRead : (st.readChunk bytes).2.usage = st.usage ⊔ usageOf (st.readChunk bytes).1 :=
        foldl_noteUsage _ _
      unfold StreamState.receive
      by_cases hEmpty : (st.readChunk bytes).1.isEmpty = true
      · simp only [hEmpty, if_true]
        exact Or.inl ⟨_, Or.inl rfl, ⟨hRead, rfl⟩, rfl⟩
      by_cases hBytes :
          (frameBytes ((st.readChunk bytes).2.write (st.readChunk bytes).1).1).isEmpty = true
      · simp only [hEmpty, hBytes, if_true]
        exact Or.inl ⟨_, Or.inl rfl, ⟨hRead, rfl⟩, rfl⟩
      by_cases hEnds : (!((st.readChunk bytes).2.write (st.readChunk bytes).1).2.recorded &&
          endsStream ((st.readChunk bytes).2.write (st.readChunk bytes).1).2.encoder.surface
            (frameBytes ((st.readChunk bytes).2.write (st.readChunk bytes).1).1)
            (st.readChunk bytes).1) = true
      · simp only [hEmpty, hBytes, hEnds, if_true, Bool.false_eq_true, if_false]
        exact Or.inr ⟨_, _, _, rfl, ⟨hRead, rfl⟩, rfl⟩
      · simp only [hEmpty, hBytes, hEnds, Bool.false_eq_true, if_false]
        exact Or.inl ⟨_, Or.inr ⟨_, rfl⟩, ⟨hRead, rfl⟩, rfl⟩
  | failed => exact Or.inr ⟨_, _, _, rfl, ⟨sup_bot_eq _ |>.symm, rfl⟩, rfl⟩
  | ended => exact Or.inr ⟨_, _, _, rfl, ⟨hUsage _, rfl⟩, rfl⟩

/-- The client does not go away in the middle of the recording, once something
of the billing is done. -/
def Clean (rctx : RecordCtx) (s : Streaming) (move : Move) : Prop :=
  match s.phase, move with
  | .finishing st pending, .drop =>
      rctx.charges st.usage = [] ∧ pending.any Effect.isTelemetry = true
  | _, _ => True

/-! ### The billing of a run -/

variable (rctx : RecordCtx)

theorem RecordCtx.billing_eq (turn : Turn) : rctx.billing turn =
    rctx.charges turn.usage ++ (rctx.finishLater turn).filter Effect.isBilling := by
  rw [billing, finish, List.filter_append, finishNow_billing]

/-- A turn's usage says how many effects bill it. -/
theorem RecordCtx.billing_length {turn turn' : Turn} (h : turn.usage = turn'.usage) :
    (rctx.billing turn).length = (rctx.billing turn').length := by
  have hLater (turn : Turn) : ((rctx.finishLater turn).filter Effect.isBilling).length =
      1 + rctx.subjects.length := by
    rw [finishLater, List.cons_append, List.filter_cons_of_pos rfl, List.filter_append,
      List.filter_eq_self.mpr]
    · simp [Effect.isBilling, add_comm]
    · intro e he
      obtain ⟨subject, -, rfl⟩ := List.mem_map.mp he
      rfl
  rw [billing_eq, billing_eq, List.length_append, List.length_append, hLater, hLater, h]

def AllClean (past : List (Streaming × Move)) : Prop := ∀ p ∈ past, Clean rctx p.1 p.2

/-- What is billed while a run goes on. Once it is over, `made` is what an
interrupted recording had billed. -/
def Billed (past : List (Streaming × Move)) (out : List Effect) (s : Streaming) : Prop :=
  match s.phase with
  | .open st => AllClean rctx past ∧ s.spawned = [] ∧ st.usage = usageRead past ∧
      st.done = st.recorded ∧
      if st.recorded then ∃ turn, turn.usage = st.usage ∧
        out.filter Effect.isBilling = rctx.billing turn
      else out.filter Effect.isBilling = []
  | .finishing st pending => AllClean rctx past ∧ s.spawned = [] ∧ st.usage = usageRead past ∧
      st.recorded = false ∧ ∃ turn before, turn.usage = st.usage ∧
        rctx.finishLater turn = before ++ pending ∧
        out.filter Effect.isBilling = rctx.charges st.usage ++ before.filter Effect.isBilling
  | .over => ∃ made turn, turn.usage = usageRead past ∧
      out.filter Effect.isBilling ++ s.spawned.filter Effect.isBilling =
        made ++ rctx.billing turn ∧
      (AllClean rctx past ↔ made = [])

theorem usageRead_append (past : List (Streaming × Move)) (s : Streaming) (move : Move) :
    usageRead (past ++ [(s, move)]) = usageRead past ⊔ usageOf (s.reads move) := by
  simp [usageRead, usageOf_append]

theorem allClean_append (past : List (Streaming × Move)) (s : Streaming) (move : Move) :
    AllClean rctx (past ++ [(s, move)]) ↔ AllClean rctx past ∧ Clean rctx s move := by
  simp [AllClean, or_imp, forall_and]

/-- A move that changes nothing. -/
theorem Billed.stay {past : List (Streaming × Move)} {out : List Effect} {s : Streaming}
    (h : Billed rctx past out s) {move : Move} (hReads : s.reads move = [])
    (hClean : Clean rctx s move) : Billed rctx (past ++ [(s, move)]) (out ++ []) s := by
  have hUsage : usageRead (past ++ [(s, move)]) = usageRead past := by
    rw [usageRead_append, hReads]
    exact sup_bot_eq _
  unfold Billed at h ⊢
  rw [List.append_nil, hUsage, allClean_append, and_iff_left hClean]
  exact h

/-- A recording starts. -/
theorem billed_record {past : List (Streaming × Move)} {out : List Effect} {turn : Turn}
    {st : StreamState} (hPast : AllClean rctx past) (hUsage : st.usage = usageRead past)
    (hNew : st.recorded = false) (hTurn : turn.usage = st.usage)
    (hNone : out.filter Effect.isBilling = []) :
    Billed rctx past (out ++ (Streaming.record rctx turn st).1)
      (Streaming.record rctx turn st).2 := by
  refine ⟨hPast, rfl, hUsage, hNew, turn, [], hTurn, rfl, ?_⟩
  rw [Streaming.record, List.filter_append, hNone, RecordCtx.finishNow_billing, hTurn]
  simp

/-- The relay is dropped before the turn counts as recorded: its task bills it
once more. -/
theorem billed_drop {past : List (Streaming × Move)} {out : List Effect} {st : StreamState}
    (hUsage : st.usage = usageRead past) (hNew : st.recorded = false)
    (hPast : AllClean rctx past ↔ out.filter Effect.isBilling = []) :
    Billed rctx past out (Streaming.drop rctx st) := by
  refine ⟨_, st.turn 499 true, hUsage, ?_, hPast⟩
  rw [Streaming.drop, hNew]
  rfl

/-- A call is suspended before the telemetry row exactly when nothing of it is
done. -/
theorem any_telemetry_iff {turn : Turn} {before pending : List Effect}
    (h : rctx.finishLater turn = before ++ pending) :
    pending.any Effect.isTelemetry = true ↔ before.filter Effect.isBilling = [] := by
  have hCount := congrArg (List.filter Effect.isTelemetry) h
  rw [RecordCtx.finishLater_telemetry, List.filter_append] at hCount
  cases before with
  | nil =>
      refine iff_of_true ?_ rfl
      rw [List.filter_nil, List.nil_append] at hCount
      rw [List.any_eq_true]
      have hMem := hCount ▸ List.mem_singleton_self (Effect.telemetry (rctx.telemetry turn))
      exact ⟨_, (List.mem_filter.mp hMem).1, rfl⟩
  | cons e rest =>
      obtain ⟨hFirst, -⟩ := List.cons.inj h
      refine iff_of_false (fun hAny => ?_) ?_
      · obtain ⟨later, hLater, hTelemetry⟩ := List.any_eq_true.mp hAny
        have hTwo := congrArg List.length hCount
        rw [← hFirst, List.filter_cons_of_pos rfl, List.length_append, List.length_cons] at hTwo
        have hSome : 0 < (pending.filter Effect.isTelemetry).length :=
          List.length_pos_of_mem (List.mem_filter.mpr ⟨hLater, hTelemetry⟩)
        simp at hTwo
        omega
      · rw [← hFirst, List.filter_cons_of_pos rfl]
        exact List.cons_ne_nil _ _

/-- A move while the relay is between two items. -/
theorem Billed.step_open {past : List (Streaming × Move)} {out : List Effect} {st : StreamState}
    {spawned : List Effect} (h : Billed rctx past out ⟨.open st, spawned⟩) (move : Move) :
    Billed rctx (past ++ [(⟨.open st, spawned⟩, move)])
      (out ++ (Streaming.step rctx ⟨.open st, spawned⟩ move).1)
      (Streaming.step rctx ⟨.open st, spawned⟩ move).2 := by
  have hStay {move : Move} (hReads : Streaming.reads ⟨.open st, spawned⟩ move = []) :
      Billed rctx (past ++ [(⟨.open st, spawned⟩, move)]) (out ++ []) ⟨.open st, spawned⟩ :=
    Billed.stay rctx h hReads trivial
  obtain ⟨hPast, hSpawned, hUsage, hDone, hBilled⟩ := h
  cases hSpawned
  have hPast' (move : Move) : AllClean rctx (past ++ [(⟨.open st, []⟩, move)]) :=
    (allClean_append ..).mpr ⟨hPast, trivial⟩
  have hUsage' {move : Move} (hReads : Streaming.reads ⟨.open st, []⟩ move = []) :
      st.usage = usageRead (past ++ [(⟨.open st, []⟩, move)]) := by
    rw [usageRead_append, hReads, hUsage]
    exact (sup_bot_eq _).symm
  cases move with
  | advance => exact hStay rfl
  | spawned => exact hStay rfl
  | item i =>
      by_cases hEnd : st.done = true
      · simp only [Streaming.step, hEnd, if_true]
        exact hStay (by simp [Streaming.reads, hEnd])
      have hNew : st.recorded = false := hDone ▸ Bool.eq_false_iff.mpr hEnd
      rw [hNew, if_neg Bool.false_ne_true] at hBilled
      have hReads : Streaming.reads ⟨.open st, []⟩ (.item i) = st.decoded i := by
        simp [Streaming.reads, hEnd]
      have hNext {st' : StreamState} (hTook : st.Took i st') :
          st'.usage = usageRead (past ++ [(⟨.open st, []⟩, .item i)]) := by
        rw [usageRead_append, hReads, hTook.usage, hUsage]
      rcases st.receive_took i with ⟨st', hReceive, hTook, hOpen⟩ |
        ⟨turn, output, st', hReceive, hTook, hTurn⟩
      · have hStep : Streaming.step rctx ⟨.open st, []⟩ (.item i) = ([], ⟨.open st', []⟩) := by
          simp only [Streaming.step, hEnd]
          rcases hReceive with hReceive | ⟨frames, hReceive⟩ <;> rw [hReceive] <;> rfl
        rw [hStep]
        refine ⟨hPast' _, rfl, hNext hTook, by rw [hOpen, hTook.recorded, hDone], ?_⟩
        rw [hTook.recorded, hNew, if_neg Bool.false_ne_true, List.append_nil, hBilled]
      · have hStep : Streaming.step rctx ⟨.open st, []⟩ (.item i) =
            Streaming.record rctx turn st' := by
          simp only [Streaming.step, hEnd, hReceive]
          rfl
        rw [hStep]
        exact billed_record rctx (hPast' _) (hNext hTook) (hTook.recorded.trans hNew) hTurn hBilled
  | poll =>
      by_cases hEnd : st.done = true
      · have hOld : st.recorded = true := hDone ▸ hEnd
        simp only [hOld, if_true] at hBilled
        obtain ⟨turn, hTurn, hOnce⟩ := hBilled
        simp only [Streaming.step, hEnd, hOld, Bool.not_true, Bool.false_eq_true, if_false, if_true,
          List.append_nil]
        refine ⟨[], turn, hTurn.trans (hUsage' rfl), ?_, iff_of_true (hPast' _) rfl⟩
        rw [hOnce]
        simp
      · simp only [Streaming.step, hEnd]
        exact hStay rfl
  | drop =>
      show Billed rctx _ (out ++ []) (Streaming.drop rctx st)
      rw [List.append_nil]
      by_cases hOld : st.recorded = true
      · simp only [hOld, if_true] at hBilled
        obtain ⟨turn, hTurn, hOnce⟩ := hBilled
        refine ⟨[], turn, hTurn.trans (hUsage' rfl), ?_, iff_of_true (hPast' _) rfl⟩
        rw [Streaming.drop, if_pos hOld, hOnce]
        simp
      · have hNew : st.recorded = false := Bool.eq_false_iff.mpr hOld
        rw [hNew, if_neg Bool.false_ne_true] at hBilled
        exact billed_drop rctx (hUsage' rfl) hNew (iff_of_true (hPast' _) hBilled)

/-- A move while the turn is being recorded. -/
theorem Billed.step_finishing {past : List (Streaming × Move)} {out : List Effect}
    {st : StreamState} {pending spawned : List Effect}
    (h : Billed rctx past out ⟨.finishing st pending, spawned⟩) (move : Move) :
    Billed rctx (past ++ [(⟨.finishing st pending, spawned⟩, move)])
      (out ++ (Streaming.step rctx ⟨.finishing st pending, spawned⟩ move).1)
      (Streaming.step rctx ⟨.finishing st pending, spawned⟩ move).2 := by
  have hStay (move : Move) (hMove : Clean rctx ⟨.finishing st pending, spawned⟩ move) :
      Billed rctx (past ++ [(⟨.finishing st pending, spawned⟩, move)]) (out ++ [])
        ⟨.finishing st pending, spawned⟩ :=
    Billed.stay rctx h (by cases move <;> rfl) hMove
  obtain ⟨hPast, hSpawned, hUsage, hNew, turn, before, hTurn, hLater, hBilled⟩ := h
  cases hSpawned
  have hUsage' (move : Move) :
      st.usage = usageRead (past ++ [(⟨.finishing st pending, []⟩, move)]) := by
    rw [usageRead_append, hUsage]
    exact (sup_bot_eq _).symm
  cases move with
  | item i => exact hStay (.item i) trivial
  | poll => exact hStay .poll trivial
  | spawned => exact hStay .spawned trivial
  | advance =>
      have hPast' : AllClean rctx (past ++ [(⟨.finishing st pending, []⟩, .advance)]) :=
        (allClean_append ..).mpr ⟨hPast, trivial⟩
      have hDone {effects : List Effect} (hAll : rctx.finishLater turn = before ++ effects) :
          Billed rctx (past ++ [(⟨.finishing st pending, []⟩, .advance)]) (out ++ effects)
            ⟨.open st.afterRecord, []⟩ := by
        refine ⟨hPast', rfl, hUsage' _, rfl, turn, hTurn, ?_⟩
        rw [List.filter_append, hBilled, List.append_assoc, ← List.filter_append, ← hAll, ← hTurn,
          ← RecordCtx.billing_eq]
      cases pending with
      | nil => exact hDone hLater
      | cons e rest =>
          cases rest with
          | nil => exact hDone hLater
          | cons e' rest =>
              refine ⟨hPast', rfl, hUsage' _, hNew, turn, before ++ [e], hTurn, ?_, ?_⟩
              · rw [hLater]
                simp
              · show (out ++ [e]).filter Effect.isBilling = _
                rw [List.filter_append, hBilled, List.filter_append, List.append_assoc]
  | drop =>
      show Billed rctx _ (out ++ []) (Streaming.drop rctx st)
      rw [List.append_nil]
      refine billed_drop rctx (hUsage' _) hNew ?_
      rw [allClean_append, and_iff_right hPast, hBilled, List.append_eq_nil_iff]
      exact and_congr_right fun _ => any_telemetry_iff rctx hLater

theorem Billed.step {past : List (Streaming × Move)} {out : List Effect} {s : Streaming}
    (h : Billed rctx past out s) (move : Move) :
    Billed rctx (past ++ [(s, move)]) (out ++ (s.step rctx move).1) (s.step rctx move).2 := by
  obtain ⟨phase, spawned⟩ := s
  cases phase with
  | «open» st => exact h.step_open rctx move
  | finishing st pending => exact h.step_finishing rctx move
  | «over» =>
      have hStay (move : Move) : Billed rctx (past ++ [(⟨.over, spawned⟩, move)]) (out ++ [])
          ⟨.over, spawned⟩ :=
        Billed.stay rctx h rfl trivial
      cases move with
      | item i => exact hStay (.item i)
      | poll => exact hStay .poll
      | advance => exact hStay .advance
      | drop => exact hStay .drop
      | spawned =>
          cases spawned with
          | nil => exact hStay .spawned
          | cons e rest =>
              obtain ⟨made, turn, hUsage, hMade, hPast⟩ := hStay .spawned
              refine ⟨made, turn, hUsage, ?_, hPast⟩
              show (out ++ [e]).filter Effect.isBilling ++ rest.filter Effect.isBilling = _
              rw [← hMade, ← List.filter_append, ← List.filter_append, List.append_nil,
                List.append_assoc, List.singleton_append]

/-- A run of the relay that is over, with nothing left to do, bills the turn
exactly once, with the usage read so far, if and only if the client never goes
away in the middle of a recording; and no such run bills any part twice. -/
theorem billed_once_iff (upstream surface : WireFormat) (status : Nat)
    (echo : Option Str × Option Str) (includeUsage : Bool) (moves : List Move) :
    let begin := Streaming.start rctx upstream surface status echo includeUsage
    let past := Transducer.trace (Streaming.step rctx) begin moves
    let (effects, s) := Transducer.run (Streaming.step rctx) begin moves
    (AllClean rctx past → ∃ turn, turn.usage = usageRead past ∧
      effects.filter Effect.isBilling <+: rctx.billing turn) ∧
    (s.phase = .over → s.spawned = [] →
      ((∃ turn, turn.usage = usageRead past ∧
          effects.filter Effect.isBilling = rctx.billing turn) ↔ AllClean rctx past)) := by
  intro begin past
  have hBilled : Billed rctx past (Transducer.run (Streaming.step rctx) begin moves).1
      (Transducer.run (Streaming.step rctx) begin moves).2 :=
    Transducer.run_along ⟨by simp [AllClean], rfl, rfl, rfl, rfl⟩
      (fun past out s move h => h.step rctx move) moves
  generalize Transducer.run (Streaming.step rctx) begin moves = result at hBilled ⊢
  obtain ⟨effects, phase, spawned⟩ := result
  cases phase with
  | «open» st =>
      obtain ⟨-, -, hUsage, -, hOpen⟩ := hBilled
      refine ⟨fun _ => ?_, fun hOver => by cases hOver⟩
      split_ifs at hOpen with hRecorded
      · obtain ⟨turn, hTurn, hOnce⟩ := hOpen
        exact ⟨turn, hTurn.trans hUsage, hOnce ▸ List.prefix_rfl⟩
      · exact ⟨st.turn status false, hUsage, hOpen ▸ List.nil_prefix⟩
  | finishing st pending =>
      obtain ⟨-, -, hUsage, -, turn, before, hTurn, hLater, hOnce⟩ := hBilled
      refine ⟨fun _ => ⟨turn, hTurn.trans hUsage, ?_⟩, fun hOver => by cases hOver⟩
      rw [hOnce, RecordCtx.billing_eq, hTurn, hLater, List.filter_append, ← List.append_assoc]
      exact List.prefix_append _ _
  | «over» =>
      obtain ⟨made, turn, hUsage, hMade, hPast⟩ := hBilled
      refine ⟨fun hClean => ⟨turn, hUsage, ?_⟩, fun _ hIdle => ?_⟩
      · rw [hPast.mp hClean, List.nil_append] at hMade
        exact ⟨_, hMade⟩
      · cases hIdle
        rw [List.filter_nil, List.append_nil] at hMade
        constructor
        · rintro ⟨turn', hUsage', hOnce⟩
          have hLength := congrArg List.length (hOnce.symm.trans hMade)
          rw [List.length_append, rctx.billing_length (hUsage'.trans hUsage.symm)] at hLength
          exact hPast.mpr (List.length_eq_zero_iff.mp (by omega))
        · intro hClean
          rw [hPast.mp hClean, List.nil_append] at hMade
          exact ⟨turn, hUsage, hMade⟩

/-- The turn of a client that reads to the end. -/
theorem read_to_end_billed_once :
    let rctx : RecordCtx := { deployment := { modelId := [], providerId := [] } }
    let begin := Streaming.start rctx .anthropic .anthropic 200 (none, none) false
    ∃ turn, turn.usage = {} ∧
      (Transducer.run (Streaming.step rctx) begin [.item .ended, .advance, .advance, .poll]).1.filter
        Effect.isBilling = rctx.billing turn := by
  intro rctx begin
  have hIff := (billed_once_iff rctx .anthropic .anthropic 200 (none, none) false
    [.item .ended, .advance, .advance, .poll]).2 rfl rfl
  refine hIff.mpr ?_
  intro p hp
  simp only [Transducer.trace, List.mem_cons, List.not_mem_nil, or_false] at hp
  rcases hp with rfl | rfl | rfl | rfl <;> trivial

/-- A client that goes away after the row is written and before the call returns
is recorded a second time. -/
theorem hang_up_recorded_twice :
    ¬ ∀ (rctx : RecordCtx) (upstream surface : WireFormat) (moves : List Move),
      let begin := Streaming.start rctx upstream surface 200 (none, none) false
      let past := Transducer.trace (Streaming.step rctx) begin moves
      let (effects, s) := Transducer.run (Streaming.step rctx) begin moves
      s.phase = .over → s.spawned = [] →
        ∃ turn, turn.usage = usageRead past ∧
          effects.filter Effect.isBilling = rctx.billing turn := by
  intro h
  obtain ⟨turn, -, hOnce⟩ := h { deployment := { modelId := [], providerId := [] } } .anthropic
    .anthropic [.item .ended, .advance, .drop, .spawned, .spawned, .spawned] rfl rfl
  have hLength : 2 = 1 := congrArg List.length hOnce
  exact absurd hLength (by decide)

end Gateway.Service
