import Gateway.Interference
import Gateway.Otel.Payloads
import Mathlib.Algebra.BigOperators.Group.Multiset.Basic
import Mathlib.Algebra.Order.Group.Multiset
import Mathlib.Data.List.DropRight

/-! The sink of the turns: each is counted by the registry and queued as an event,
while a worker pushes copies of the one and the contents of the other. -/
namespace Gateway.Otel

open Json Program

/-- The events that are kept for the next push, at most. -/
@[irreducible] def eventQueueCap : Nat := 8192

theorem eventQueueCap_pos : 0 < eventQueueCap := by
  unfold eventQueueCap
  decide

structure OtelSink where
  registry : Registry := fun _ => none
  events : List TracedRecord := []
  dropped : Nat := 0

/-- A full queue gives up its oldest event. -/
def OtelSink.push (s : OtelSink) (rec : TracedRecord) : OtelSink :=
  if eventQueueCap ≤ s.events.length then
    { s with events := s.events.tail ++ [rec], dropped := s.dropped + 1 }
  else { s with events := s.events ++ [rec] }

/-- What is done at once, under one lock, and what is asked of the world outside. -/
inductive SinkQuery where
  | record (rec : TracedRecord)
  | push (rec : TracedRecord)
  | takeDropped
  | now
  | snapshot
  | drain
  | mint
  | post (url : Str) (body : Value)

def SinkQuery.Answer : SinkQuery → Type
  | .record _ | .push _ | .post _ _ => Unit
  | .takeDropped => Nat
  | .now => Timestamp
  | .snapshot => Rows
  | .drain => List TracedRecord
  | .mint => Nat → Str × Str

/-- A subtraction below zero, at which the worker would stop. -/
inductive Underflow where
  | counts

abbrev Sinking := Program SinkQuery SinkQuery.Answer Underflow

def asks (q : SinkQuery) : Sinking q.Answer := ask q

def turn (rec : TracedRecord) : Sinking Unit := do
  asks (.record rec)
  asks (.push rec)

/-- Where and as what the worker pushes. -/
structure Destination where
  endpoint : Str
  service : Str
  startNs : Str

def Destination.url (dest : Destination) (signal : String) : Str :=
  dest.endpoint.rdropWhile (· = '/') ++ "/v1/".toList ++ signal.toList

section

variable (float : ℚ → Number) (round : ℚ → ℚ) (dest : Destination)

/-- A push that fails is not tried again. -/
def pushMetrics (nowNs : Str) (snapshot : Rows) : Sinking Unit :=
  if !snapshot.isEmpty then
    match metricsPayload float dest.service snapshot dest.startNs nowNs with
    | some body => asks (.post (dest.url "metrics") body)
    | none => .fail .counts
  else pure ()

def pushEvents (events : List TracedRecord) : Sinking Unit :=
  if !events.isEmpty then do
    asks (.post (dest.url "logs") (logsPayload float round dest.service events))
    let minted ← asks .mint
    asks (.post (dest.url "traces") (tracesPayload float round dest.service events minted))
  else pure ()

/-- One tick of `push_worker`. -/
def pushRound : Sinking Unit := do
  -- the count of the dropped events is only logged
  let _ ← asks .takeDropped
  let now ← asks .now
  let snapshot ← asks .snapshot
  pushMetrics float dest (nanos now) snapshot
  let events ← asks .drain
  pushEvents float round dest events

end

/-! ### What has happened -/

structure Post where
  url : Str
  body : Value

/-- The sink with what has become of its turns: those that were counted, those that
were queued before each drain since the one before it, and those since the last. -/
structure Watched where
  sink : OtelSink := {}
  posts : List Post := []
  counted : List TracedRecord := []
  windows : List (List TracedRecord) := []
  since : List TracedRecord := []
  warned : Nat := 0

section

variable (float : ℚ → Number) (round : ℚ → ℚ) (dest : Destination)

/-- The answers of the sink. Of the answers from outside nothing is known. -/
def Answered (q : SinkQuery) (s : Watched) (a : q.Answer) (s' : Watched) : Prop :=
  match q with
  | .record rec =>
      s' = { s with
        sink := { s.sink with registry := record round s.sink.registry rec.toTimedRecord }
        counted := s.counted ++ [rec] }
  | .push rec => s' = { s with sink := s.sink.push rec, since := s.since ++ [rec] }
  | .takeDropped =>
      a = s.sink.dropped ∧
        s' = { s with sink := { s.sink with dropped := 0 }, warned := s.warned + s.sink.dropped }
  | .snapshot => Snapshot s.sink.registry a ∧ s' = s
  | .drain =>
      a = s.sink.events ∧
        s' = { s with
          sink := { s.sink with events := [] }, windows := s.windows ++ [s.since], since := [] }
  | .now | .mint => s' = s
  | .post url body => s' = { s with posts := s.posts ++ [⟨url, body⟩] }

/-- The registry has counted the turns. The queue has the last of those since it was
drained, and what it has given up is warned of, or will be. -/
structure Accounts (s : Watched) : Prop where
  registry : s.sink.registry = recorded round (s.counted.map (·.toTimedRecord))
  events : s.sink.events = s.since.rtake eventQueueCap
  dropped : s.warned + s.sink.dropped =
    ((s.windows ++ [s.since]).map fun w => w.length - eventQueueCap).sum

/-- A round of the worker: the turns that were counted when it copied the registry,
the copy, and the turns that were queued since the round before. -/
structure Round where
  counted : List TracedRecord
  rows : Rows
  now : Timestamp
  pushed : List TracedRecord := []
  minted : Nat → Str × Str := fun _ => ([], [])

namespace Round

def metricsPost (r : Round) : List Post :=
  if r.rows.isEmpty then []
  else
    [⟨dest.url "metrics",
      (metricsPayload float dest.service r.rows dest.startNs (nanos r.now)).getD .null⟩]

/-- Those of the queued turns that the queue has kept. -/
def kept (r : Round) : List TracedRecord := r.pushed.rtake eventQueueCap

def eventPosts (r : Round) : List Post :=
  if r.kept.isEmpty then []
  else
    [⟨dest.url "logs", logsPayload float round dest.service r.kept⟩,
      ⟨dest.url "traces", tracesPayload float round dest.service r.kept r.minted⟩]

def posts (r : Round) : List Post := r.metricsPost float dest ++ r.eventPosts float round dest

end Round

/-- Rounds whose copies are of more and more of the turns. -/
structure Rounds (rs : List Round) (s : Watched) : Prop where
  copies : ∀ r ∈ rs, Snapshot (recorded round (r.counted.map (·.toTimedRecord))) r.rows
  rising : (rs.map Round.counted).Pairwise (· <+: ·)
  counted : ∀ r ∈ rs, r.counted <+: s.counted

/-- The worker has pushed what its rounds push, but for an end of the last one, which
may not have come to its drain yet. -/
def PushedBy (rs : List Round) (s : Watched) : Prop :=
  (rs.map Round.pushed = s.windows ∨ rs.map Round.pushed = s.windows ++ [[]]) ∧
    s.posts <+: rs.flatMap (Round.posts float round dest) ∧
    rs.dropLast.flatMap (Round.posts float round dest) <+: s.posts

variable {round}

/-! ### The queue -/

/-- A full queue has the last of the turns, one of which makes way. -/
theorem push_spec {s : OtelSink} {since : List TracedRecord}
    (h : s.events = since.rtake eventQueueCap) (rec : TracedRecord) :
    (s.push rec).events = (since ++ [rec]).rtake eventQueueCap ∧
      (s.push rec).dropped + (since.length - eventQueueCap) =
        s.dropped + ((since ++ [rec]).length - eventQueueCap) ∧
      (s.push rec).registry = s.registry := by
  have hCap := eventQueueCap_pos
  have hLength : s.events.length = min eventQueueCap since.length := by
    rw [h, List.rtake, List.length_drop]
    omega
  unfold OtelSink.push
  rw [hLength, h, List.length_append, List.length_singleton]
  simp only [List.rtake, List.length_append, List.length_singleton]
  split_ifs with hFull
  · have hEnough : eventQueueCap ≤ since.length := le_trans hFull (min_le_right _ _)
    refine ⟨?_, ?_, rfl⟩
    · have hDrop : since.length - eventQueueCap + 1 = since.length + 1 - eventQueueCap := by omega
      rw [List.tail_drop, List.drop_append_of_le_length (by omega), hDrop]
    · show s.dropped + 1 + _ = _
      omega
  · have hFew : since.length < eventQueueCap := by omega
    refine ⟨?_, ?_, rfl⟩
    · rw [Nat.sub_eq_zero_of_le hFew.le, Nat.sub_eq_zero_of_le hFew]
      rfl
    · show s.dropped + _ = _
      omega

namespace Accounts

variable {s s' : Watched}

theorem recorded (h : Accounts round s) (rec : TracedRecord)
    (hStep : Answered round (.record rec) s () s') : Accounts round s' := by
  cases hStep
  refine ⟨?_, h.events, h.dropped⟩
  show record round s.sink.registry rec.toTimedRecord = _
  rw [h.registry, Otel.recorded, Otel.recorded, List.map_append, List.foldl_append]
  rfl

theorem pushed (h : Accounts round s) (rec : TracedRecord)
    (hStep : Answered round (.push rec) s () s') : Accounts round s' := by
  cases hStep
  obtain ⟨hEvents, hDropped, hRegistry⟩ := push_spec h.events rec
  refine ⟨hRegistry.trans h.registry, hEvents, ?_⟩
  have hBefore := h.dropped
  simp only [List.map_append, List.map_cons, List.map_nil, List.sum_append, List.sum_singleton] at hBefore ⊢
  omega

theorem taken (h : Accounts round s) {dropped : Nat} (hStep : Answered round .takeDropped s dropped s') :
    Accounts round s' := by
  obtain ⟨-, rfl⟩ := hStep
  exact ⟨h.registry, h.events, h.dropped⟩

theorem drained (h : Accounts round s) {events : List TracedRecord}
    (hStep : Answered round .drain s events s') :
    Accounts round s' ∧ events = s.since.rtake eventQueueCap := by
  obtain ⟨rfl, rfl⟩ := hStep
  refine ⟨⟨h.registry, (List.rtake_nil _).symm, ?_⟩, h.events⟩
  have hBefore := h.dropped
  simp only [List.map_append, List.map_cons, List.map_nil, List.sum_append, List.sum_singleton] at hBefore ⊢
  simpa using hBefore

end Accounts

/-! ### A copy of the registry -/

theorem isSome_mapM {α β : Type} {f : α → Option β} {xs : List α} (h : ∀ x ∈ xs, (f x).isSome) :
    (xs.mapM f).isSome := by
  induction xs with
  | nil => rfl
  | cons x xs ih =>
      obtain ⟨y, hy⟩ := Option.isSome_iff_exists.mp (h x List.mem_cons_self)
      obtain ⟨ys, hys⟩ := Option.isSome_iff_exists.mp (ih fun x hx => h x (List.mem_cons_of_mem _ hx))
      rw [List.mapM_cons, hy, hys]
      rfl

theorem isSome_bind {α β : Type} {x : Option α} {f : α → Option β} (h : x.isSome)
    (hf : ∀ a, (f a).isSome) : (x >>= f).isSome := by
  cases x with
  | none => cases h
  | some a => exact hf a

/-- No count of a copy steps down. -/
theorem isSome_metricsPayload {recs : List TimedRecord} {rows : Rows}
    (h : Snapshot (Otel.recorded round recs) rows) (serviceName startNs nowNs : Str) :
    (metricsPayload float serviceName rows startNs nowNs).isSome := by
  have hExported (m : Metric) (row : Labels × Series) (hRow : row ∈ rows) : (m.exported row.2).isSome := by
    obtain ⟨ds, hSome, -⟩ := (histograms_sound round recs row.1 ((h.mem _ _).mp hRow) m).2.exported
    rw [hSome]
    rfl
  have hPoints (m : Metric) (f : Labels × Series → List Nat → Value) :
      (rows.mapM fun row => (m.exported row.2).map (f row)).isSome := by
    apply isSome_mapM
    intro row hRow
    rw [Option.isSome_map]
    exact hExported m row hRow
  apply isSome_bind (hPoints .firstToken _)
  intro firstToken
  apply isSome_bind (hPoints .queue _)
  intro queue
  apply isSome_bind (hPoints .outputRate _)
  intro output
  apply isSome_bind (hPoints .latency _)
  intro latency
  rfl

/-! ### What the calls leave alone -/

variable (round)

/-- What a call keeps of what the worker relies on. -/
structure Spared (s s' : Watched) : Prop where
  accounts : Accounts round s → Accounts round s'
  posts : s'.posts = s.posts
  windows : s'.windows = s.windows
  counted : s.counted <+: s'.counted

def OfTurn : SinkQuery → Prop
  | .record _ | .push _ => True
  | _ => False

variable {round}

theorem Spared.refl (s : Watched) : Spared round s s := ⟨id, rfl, rfl, List.prefix_rfl⟩

theorem Spared.trans (s s' s'' : Watched) (h : Spared round s s') (h' : Spared round s' s'') :
    Spared round s s'' :=
  ⟨fun hs => h'.accounts (h.accounts hs), h'.posts.trans h.posts, h'.windows.trans h.windows,
    h.counted.trans h'.counted⟩

theorem spared_turn (q : SinkQuery) (s : Watched) (a : q.Answer) (s' : Watched) (hq : OfTurn q)
    (h : Answered round q s a s') : Spared round s s' := by
  cases q with
  | record rec =>
      have hAccounts (hs : Accounts round s) := hs.recorded rec h
      cases h
      exact ⟨hAccounts, rfl, rfl, List.prefix_append _ _⟩
  | push rec =>
      have hAccounts (hs : Accounts round s) := hs.pushed rec h
      cases h
      exact ⟨hAccounts, rfl, rfl, List.prefix_rfl⟩
  | takeDropped => cases hq
  | now => cases hq
  | snapshot => cases hq
  | drain => cases hq
  | mint => cases hq
  | post url body => cases hq

theorem Rounds.later {rs : List Round} {s s' : Watched} (h : Rounds round rs s)
    (hCounted : s.counted <+: s'.counted) : Rounds round rs s' :=
  ⟨h.copies, h.rising, fun r hr => (h.counted r hr).trans hCounted⟩

/-! ### A round -/

variable (round)

/-- Between two rounds. -/
structure Resting (rs : List Round) (s : Watched) : Prop where
  accounts : Accounts round s
  rounds : Rounds round rs s
  windows : rs.map Round.pushed = s.windows
  posts : s.posts = rs.flatMap (Round.posts float round dest)

/-- In a round that has pushed as much as `sent`, before or after its drain. -/
structure During (rs : List Round) (r : Round) (drained : Bool) (sent : List Post) (s : Watched) :
    Prop where
  accounts : Accounts round s
  rounds : Rounds round (rs ++ [r]) s
  windows : (rs ++ [r]).map Round.pushed = s.windows ++ if drained then [] else [[]]
  part : sent <+: r.posts float round dest
  posts : s.posts = rs.flatMap (Round.posts float round dest) ++ sent

def Always (s : Watched) : Prop :=
  Accounts round s ∧ ∃ rs, Rounds round rs s ∧ PushedBy float round dest rs s

variable {float round dest} {rs : List Round} {r : Round} {drained : Bool} {sent : List Post}
  {s s' : Watched}

theorem Always.spared (s s' : Watched) (hSpared : Spared round s s') (h : Always float round dest s) :
    Always float round dest s' := by
  obtain ⟨hAccounts, rs, hRounds, hPushed⟩ := h
  refine ⟨hSpared.accounts hAccounts, rs, hRounds.later hSpared.counted, ?_⟩
  unfold PushedBy at hPushed ⊢
  rw [hSpared.windows, hSpared.posts]
  exact hPushed

theorem During.spared (hSpared : Spared round s s') (h : During float round dest rs r drained sent s) :
    During float round dest rs r drained sent s' where
  accounts := hSpared.accounts h.accounts
  rounds := h.rounds.later hSpared.counted
  windows := by rw [hSpared.windows]; exact h.windows
  part := h.part
  posts := hSpared.posts.trans h.posts

theorem During.always (h : During float round dest rs r drained sent s) : Always float round dest s := by
  have hWindows := h.windows
  refine ⟨h.accounts, rs ++ [r], h.rounds, ?_, ?_, ?_⟩
  · cases drained with
    | true => exact .inl (hWindows.trans (List.append_nil _))
    | false => exact .inr hWindows
  · rw [h.posts, List.flatMap_append, List.flatMap_singleton]
    exact (List.prefix_append_right_inj _).mpr h.part
  · rw [List.dropLast_concat, h.posts]
    exact List.prefix_append _ _

theorem Resting.spared (hSpared : Spared round s s') (h : Resting float round dest rs s) :
    Resting float round dest rs s' where
  accounts := hSpared.accounts h.accounts
  rounds := h.rounds.later hSpared.counted
  windows := by rw [hSpared.windows]; exact h.windows
  posts := hSpared.posts.trans h.posts

theorem Resting.always (h : Resting float round dest rs s) : Always float round dest s := by
  refine ⟨h.accounts, rs, h.rounds, .inl h.windows, ?_, ?_⟩
  · rw [h.posts]
  · rw [h.posts]
    exact (List.dropLast_prefix rs).flatMap _

/-- The worker sends one more of the posts of its round. -/
theorem During.post (h : During float round dest rs r drained sent s) {url : Str} {body : Value}
    (hSent : sent ++ [⟨url, body⟩] <+: r.posts float round dest)
    (hStep : Answered round (.post url body) s () s') :
    During float round dest rs r drained (sent ++ [⟨url, body⟩]) s' := by
  cases hStep
  refine ⟨⟨h.accounts.registry, h.accounts.events, h.accounts.dropped⟩,
    ⟨h.rounds.copies, h.rounds.rising, h.rounds.counted⟩, h.windows, hSent, ?_⟩
  show s.posts ++ _ = _
  rw [h.posts, List.append_assoc]

theorem Rounds.last {r' : Round} (h : Rounds round (rs ++ [r]) s) (hCounted : r'.counted = r.counted)
    (hRows : r'.rows = r.rows) : Rounds round (rs ++ [r']) s := by
  refine ⟨?_, ?_, ?_⟩
  · intro x hx
    rcases List.mem_append.mp hx with hx | hx
    · exact h.copies x (List.mem_append_left _ hx)
    · rw [List.mem_singleton.mp hx, hCounted, hRows]
      exact h.copies r (List.mem_append_right _ (List.mem_singleton_self r))
  · have hRising := h.rising
    rw [List.map_append, List.map_singleton] at hRising ⊢
    rw [hCounted]
    exact hRising
  · intro x hx
    rcases List.mem_append.mp hx with hx | hx
    · exact h.counted x (List.mem_append_left _ hx)
    · rw [List.mem_singleton.mp hx, hCounted]
      exact h.counted r (List.mem_append_right _ (List.mem_singleton_self r))

/-- A round with the same copy and the same turns. -/
theorem During.last {r' : Round} (h : During float round dest rs r drained sent s) (hCounted : r'.counted = r.counted)
    (hRows : r'.rows = r.rows) (hPushed : r'.pushed = r.pushed)
    (hPart : sent <+: r'.posts float round dest) : During float round dest rs r' drained sent s where
  accounts := h.accounts
  rounds := h.rounds.last hCounted hRows
  windows := by
    have hWindows := h.windows
    rw [List.map_append, List.map_singleton] at hWindows ⊢
    rw [hPushed]
    exact hWindows
  part := hPart
  posts := h.posts

theorem pushMetrics_among (h : During float round dest rs r drained [] s) :
    (pushMetrics float dest (nanos r.now) r.rows).among (Answered round) (Spared round)
      (Always float round dest)
      (fun res s => res = .ok () ∧ During float round dest rs r drained (r.metricsPost float dest) s) s := by
  have hCopy := h.rounds.copies r (List.mem_append_right _ (List.mem_singleton_self r))
  obtain ⟨body, hBody⟩ := Option.isSome_iff_exists.mp
    (isSome_metricsPayload float hCopy dest.service dest.startNs (nanos r.now))
  have hPart : r.metricsPost float dest <+: r.posts float round dest := List.prefix_append _ _
  unfold pushMetrics
  unfold Round.metricsPost at hPart ⊢
  rw [hBody, Option.getD_some] at hPart ⊢
  cases hEmpty : r.rows.isEmpty with
  | true =>
      rw [if_neg (by simp), if_pos rfl]
      exact ⟨h.always, rfl, h⟩
  | false =>
      rw [hEmpty, if_neg Bool.false_ne_true] at hPart
      rw [if_neg Bool.false_ne_true]
      refine And.intro h.always fun s' hSpared a s'' hStep => ?_
      have hSent := (h.spared hSpared).post hPart hStep
      exact ⟨hSent.always, rfl, hSent⟩

theorem pushEvents_among (h : During float round dest rs r true (r.metricsPost float dest) s) :
    (pushEvents float round dest r.kept).among (Answered round) (Spared round) (Always float round dest)
      (fun res s => (∃ a, res = .ok a) ∧ ∃ rs, Resting float round dest rs s) s := by
  have hEnd {r' : Round} {s : Watched}
      (h : During float round dest rs r' true (r'.posts float round dest) s) :
      Resting float round dest (rs ++ [r']) s := by
    refine ⟨h.accounts, h.rounds, h.windows.trans (List.append_nil _), ?_⟩
    rw [h.posts, List.flatMap_append, List.flatMap_singleton]
  unfold pushEvents
  cases hEmpty : r.kept.isEmpty with
  | true =>
      rw [if_neg (by simp)]
      have hPosts : r.posts float round dest = r.metricsPost float dest := by
        rw [Round.posts, Round.eventPosts, hEmpty, if_pos rfl, List.append_nil]
      exact ⟨h.always, ⟨(), rfl⟩, _, hEnd (hPosts ▸ h)⟩
  | false =>
      have hPosts (minted : Nat → Str × Str) : { r with minted }.posts float round dest =
          r.metricsPost float dest ++ [⟨dest.url "logs", logsPayload float round dest.service r.kept⟩] ++
            [⟨dest.url "traces", tracesPayload float round dest.service r.kept minted⟩] := by
        rw [Round.posts, Round.eventPosts, Round.kept]
        show _ ++ (if r.kept.isEmpty then _ else _) = _
        rw [hEmpty, if_neg Bool.false_ne_true, List.append_assoc]
        rfl
      have hFirst : r.metricsPost float dest ++
          [⟨dest.url "logs", logsPayload float round dest.service r.kept⟩] <+: r.posts float round dest := by
        rw [show r.posts float round dest = _ from hPosts r.minted]
        exact List.prefix_append _ _
      refine And.intro h.always fun s₁ hSpared₁ a s₂ hLogs => ?_
      have hLogged := (h.spared hSpared₁).post hFirst hLogs
      refine ⟨hLogged.always, fun s₃ hSpared₃ minted s₄ hMint => ?_⟩
      have hMinted : During float round dest rs { r with minted } true (r.metricsPost float dest ++
          [⟨dest.url "logs", logsPayload float round dest.service r.kept⟩]) s₄ := by
        have hPart := hPosts minted ▸ List.prefix_append _ [_]
        cases hMint
        exact (hLogged.spared hSpared₃).last rfl rfl rfl hPart
      refine ⟨hMinted.always, fun s₅ hSpared₅ a s₆ hTraces => ?_⟩
      have hDone := (hMinted.spared hSpared₅).post (hPosts minted ▸ List.prefix_rfl) hTraces
      exact ⟨hDone.always, ⟨(), rfl⟩, _, hEnd (hPosts minted ▸ hDone)⟩

/-- The drain ends a window, of which the queue has the last. -/
theorem drain_among (h : During float round dest rs r false (r.metricsPost float dest) s) :
    (asks .drain >>= pushEvents float round dest).among (Answered round) (Spared round)
      (Always float round dest)
      (fun res s => (∃ a, res = .ok a) ∧ ∃ rs, Resting float round dest rs s) s := by
  refine And.intro h.always fun s' hSpared events s'' hDrain => ?_
  have hBefore := h.spared hSpared
  obtain ⟨hAccounts, hKept⟩ := hBefore.accounts.drained hDrain
  have hAfter : s''.windows = s'.windows ++ [s'.since] ∧ s''.counted = s'.counted ∧
      s''.posts = s'.posts := by
    rw [hDrain.2]
    exact ⟨rfl, rfl, rfl⟩
  obtain ⟨hEnded, hCounted, hPosts⟩ := hAfter
  have hRest : rs.map Round.pushed = s'.windows := by
    have hWindows := hBefore.windows
    rw [List.map_append] at hWindows
    exact (List.append_inj' hWindows rfl).1
  have hNow : (rs ++ [{ r with pushed := s'.since }]).map Round.pushed = s''.windows ++ [] := by
    rw [List.map_append, hRest, hEnded, List.append_nil]
    rfl
  have hLast : Rounds round (rs ++ [{ r with pushed := s'.since }]) s'' := by
    apply Rounds.later _ (hCounted ▸ List.prefix_rfl : s'.counted <+: s''.counted)
    apply hBefore.rounds.last
    · rfl
    · rfl
  have hDuring : During float round dest rs { r with pushed := s'.since } true
      (r.metricsPost float dest) s'' :=
    ⟨hAccounts, hLast, hNow, List.prefix_append _ _, hPosts.trans hBefore.posts⟩
  show (pushEvents float round dest events).among _ _ _ _ _
  rw [hKept]
  exact pushEvents_among hDuring

/-- The copy begins a round, which ends at rest. -/
theorem copy_among (h : Resting float round dest rs s) {now : Timestamp} {rows : Rows}
    (hSnapshot : Snapshot s.sink.registry rows) :
    (pushMetrics float dest (nanos now) rows >>= fun _ =>
        asks .drain >>= pushEvents float round dest).among (Answered round) (Spared round)
      (Always float round dest)
      (fun res s => (∃ a, res = .ok a) ∧ ∃ rs, Resting float round dest rs s) s := by
  have hDuring : During float round dest rs { counted := s.counted, rows, now } false [] s := by
    refine ⟨h.accounts, ⟨?_, ?_, ?_⟩, ?_, List.nil_prefix, ?_⟩
    · intro r hr
      rcases List.mem_append.mp hr with hr | hr
      · exact h.rounds.copies r hr
      · rw [List.mem_singleton.mp hr, ← h.accounts.registry]
        exact hSnapshot
    · rw [List.map_append]
      apply List.pairwise_append.mpr ⟨h.rounds.rising, List.pairwise_singleton _ _, _⟩
      intro a ha b hb
      obtain ⟨r, hr, rfl⟩ := List.mem_map.mp ha
      rw [List.mem_singleton.mp hb]
      exact h.rounds.counted r hr
    · intro r hr
      rcases List.mem_append.mp hr with hr | hr
      · exact h.rounds.counted r hr
      · rw [List.mem_singleton.mp hr]
    · rw [List.map_append, h.windows]
      rfl
    · rw [h.posts, List.append_nil]
  apply among_bind
  apply among_mono (pushMetrics_among hDuring)
  intro res s' ⟨hRes, hSent⟩
  subst hRes
  exact drain_among hSent

/-- The worker comes from rest to rest. -/
theorem pushRound_among (h : ∃ rs, Resting float round dest rs s) :
    (pushRound float round dest).among (Answered round) (Spared round) (Always float round dest)
      (fun res s => (∃ a, res = .ok a) ∧ ∃ rs, Resting float round dest rs s) s := by
  obtain ⟨rs, hRest⟩ := h
  refine And.intro hRest.always fun s₁ hSpared₁ dropped s₂ hTake => ?_
  have hTaken : Resting float round dest rs s₂ := by
    have hBefore := hRest.spared hSpared₁
    have hAccounts := hBefore.accounts.taken hTake
    obtain ⟨-, rfl⟩ := hTake
    exact ⟨hAccounts, ⟨hBefore.rounds.copies, hBefore.rounds.rising, hBefore.rounds.counted⟩,
      hBefore.windows, hBefore.posts⟩
  refine And.intro hTaken.always fun s₃ hSpared₃ now s₄ hNow => ?_
  obtain rfl : s₄ = s₃ := hNow
  have hTold := hTaken.spared hSpared₃
  refine And.intro hTold.always fun s₅ hSpared₅ rows s₆ hCopy => ?_
  obtain ⟨hSnapshot, rfl⟩ := hCopy
  exact copy_among (hTold.spared hSpared₅) hSnapshot

/-! ### Every order of the calls and the worker -/

/-- The turn that a call has counted and not queued yet. -/
def owed : Sinking Unit → Multiset TracedRecord
  | .query (.push rec) _ => {rec}
  | _ => 0

/-- A call of a turn, as far as it has come. -/
def OfCall (p : Sinking Unit) : Prop :=
  (∃ rec, p = turn rec) ∨ (∃ rec, p = asks (.push rec)) ∨ p = .done ()

theorem moved {α : Type} {c c' w n n' o o' rest : Multiset α} (hMoved : c' + o + n = c + o' + n')
    (hBefore : c = w + n + (o + rest)) : c' = w + n' + (o' + rest) := by
  subst hBefore
  have hSum : c' + (o + n) = w + n' + (o' + rest) + (o + n) := by
    rw [← add_assoc, hMoved]
    ac_rfl
  exact add_right_cancel hSum

theorem ofCall_next {q : SinkQuery} {next : q.Answer → Sinking Unit} (h : OfCall (.query q next))
    {s s' : Watched} {a : q.Answer} (hStep : Answered round q s a s') :
    OfCall (next a) ∧ s'.windows = s.windows ∧
      (s'.counted : Multiset TracedRecord) + owed (.query q next) + s.since =
        s.counted + owed (next a) + s'.since := by
  rcases h with ⟨rec, hTurn⟩ | ⟨rec, hPush⟩ | hDone
  · cases hTurn
    cases hStep
    have hCounted : ((s.counted ++ [rec] : List TracedRecord) : Multiset TracedRecord) + 0 =
        s.counted + {rec} := by
      rw [add_zero, ← Multiset.coe_add, Multiset.coe_singleton]
    exact ⟨.inr (.inl ⟨rec, rfl⟩), rfl, congrArg (· + (s.since : Multiset TracedRecord)) hCounted⟩
  · cases hPush
    cases hStep
    have hQueued : (s.counted : Multiset TracedRecord) + {rec} + s.since =
        s.counted + 0 + (s.since ++ [rec] : List TracedRecord) := by
      rw [add_zero, ← Multiset.coe_add, Multiset.coe_singleton, add_right_comm, add_assoc]
    exact ⟨.inr (.inr rfl), rfl, hQueued⟩
  · cases hDone

theorem wary_pushRound (seen : List ((q : SinkQuery) × q.Answer)) :
    (pushRound float round dest).Wary (fun _ q => ¬ OfTurn q) seen := by
  have hEvents (events : List TracedRecord) (seen : List ((q : SinkQuery) × q.Answer)) :
      (pushEvents float round dest events).Wary (fun _ q => ¬ OfTurn q) seen := by
    unfold pushEvents
    split_ifs
    · exact wary_query.mpr ⟨id, fun _ => wary_query.mpr ⟨id, fun _ => wary_query.mpr
        ⟨id, fun _ => wary_done _⟩⟩⟩
    · exact wary_done _
  have hMetrics (nowNs : Str) (rows : Rows) (seen : List ((q : SinkQuery) × q.Answer)) :
      (pushMetrics float dest nowNs rows).Wary (fun _ q => ¬ OfTurn q) seen := by
    unfold pushMetrics
    split_ifs
    · split
      · exact wary_query.mpr ⟨id, fun _ => wary_done _⟩
      · exact wary_fail _
    · exact wary_done _
  have hDrain (seen : List ((q : SinkQuery) × q.Answer)) :
      (asks .drain >>= pushEvents float round dest).Wary (fun _ q => ¬ OfTurn q) seen :=
    wary_query.mpr ⟨id, fun _ => hEvents _ _⟩
  exact wary_query.mpr ⟨id, fun _ => wary_query.mpr ⟨id, fun _ => wary_query.mpr
    ⟨id, fun _ => (hMetrics _ _ _).bind fun _ seen => hDrain seen⟩⟩⟩

/-- A query of the worker counts no turn, and queues none. -/
theorem counted_worker {q : SinkQuery} {a : q.Answer} (hq : ¬ OfTurn q) (h : Answered round q s a s') :
    s'.counted = s.counted ∧ s'.windows.flatten ++ s'.since = s.windows.flatten ++ s.since := by
  cases q with
  | record rec => exact absurd trivial hq
  | push rec => exact absurd trivial hq
  | takeDropped =>
      obtain ⟨-, rfl⟩ := h
      exact ⟨rfl, rfl⟩
  | now =>
      cases h
      exact ⟨rfl, rfl⟩
  | snapshot =>
      obtain ⟨-, rfl⟩ := h
      exact ⟨rfl, rfl⟩
  | drain =>
      obtain ⟨-, rfl⟩ := h
      exact ⟨rfl, by simp⟩
  | mint =>
      cases h
      exact ⟨rfl, rfl⟩
  | post url body =>
      cases h
      exact ⟨rfl, rfl⟩

variable (float round dest)

abbrev Process := Beside SinkQuery SinkQuery.Answer Underflow Unit Unit Watched

/-- Any number of calls of `turn`, and the worker. -/
def Process.Step : Process → Process → Prop :=
  Beside.Step (Answered round) (pushRound float round dest) fun p => ∃ rec, p = turn rec

def Process.start : Process := { state := {}, worker := pushRound float round dest }

variable {float round dest}

/-- The turns that were queued are those that were counted, but for those of calls in
between. -/
theorem queued {w : Process}
    (run : Relation.ReflTransGen (Process.Step float round dest) (.start float round dest) w) :
    ((w.state.counted : Multiset TracedRecord) =
        (w.state.windows.flatten ++ w.state.since : List TracedRecord) + (w.calls.map owed).sum) ∧
      (∀ p ∈ w.calls, OfCall p) ∧ ∃ seen, w.worker.Wary (fun _ q => ¬ OfTurn q) seen := by
  induction run with
  | refl => exact ⟨rfl, by simp [Process.start], [], wary_pushRound []⟩
  | tail _ last ih =>
      obtain ⟨hQueued, hCalls, seen, hWary⟩ := ih
      cases last with
      | call w starts =>
          obtain ⟨rec, rfl⟩ := starts
          refine ⟨?_, ?_, seen, hWary⟩
          · rw [Multiset.map_cons, Multiset.sum_cons, show owed (turn rec) = 0 from rfl, zero_add]
            exact hQueued
          · intro p hp
            rcases Multiset.mem_cons.mp hp with rfl | hp
            · exact .inl ⟨rec, rfl⟩
            · exact hCalls p hp
      | answerCall answered =>
          obtain ⟨hNext, hWindows, hMoved⟩ := ofCall_next (hCalls _ (Multiset.mem_cons_self _ _)) answered
          refine ⟨?_, ?_, seen, hWary⟩
          · rw [Multiset.map_cons, Multiset.sum_cons, ← Multiset.coe_add] at hQueued ⊢
            rw [hWindows]
            exact moved hMoved hQueued
          · intro p hp
            rcases Multiset.mem_cons.mp hp with rfl | hp
            · exact hNext
            · exact hCalls p (Multiset.mem_cons_of_mem hp)
      | @leave s worker p r calls result =>
          have hOwed : owed p = 0 := by
            cases p with
            | done a => rfl
            | fail e => rfl
            | query q next => cases result
          rw [Multiset.map_cons, Multiset.sum_cons, hOwed, zero_add] at hQueued
          exact ⟨hQueued, fun p hp => hCalls p (Multiset.mem_cons_of_mem hp), seen, hWary⟩
      | answerWorker answered =>
          obtain ⟨hQuery, hNext⟩ := wary_query.mp hWary
          obtain ⟨hCounted, hPushed⟩ := counted_worker hQuery answered
          refine ⟨?_, hCalls, _, hNext _⟩
          show ((_ : List TracedRecord) : Multiset TracedRecord) = _
          rw [hCounted, hPushed]
          exact hQueued
      | again => exact ⟨hQueued, hCalls, [], wary_pushRound []⟩

end

/-- A turn whose caller named a trace. -/
def tracedTurn : TracedRecord where
  toTimedRecord := shortTurn
  traceId := some (List.replicate 32 'a')

def collector : Destination := ⟨"http://c".toList, "gateway".toList, "0".toList⟩

end Gateway.Otel
