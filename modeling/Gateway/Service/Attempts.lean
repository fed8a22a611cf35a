import Gateway.Service.Handle
import Gateway.Wire.OpenaiChat.Request

/-! The requests that a turn sends upstream: to its candidates in order, one each,
until an answer commits the turn. -/
namespace Gateway.Service

open Json Wire

/-! ### Outcomes of attempts -/

/-- How an attempt came out. -/
inductive Settled where
  | lost (e : Error)
  | refused (status : Nat) (e : Error)
  | accepted (status : Nat)

namespace Settled

/-- Whether the turn is passed on, for better or worse. -/
def commits : Settled → Bool
  | .lost _ => false
  | .refused status _ => !(isRetryable status || isModelNotFound status)
  | .accepted _ => true

def error : Settled → Option Error
  | .lost e => some e
  | .refused _ e => some e
  | .accepted _ => none

end Settled

/-- The error of a turn that fails. -/
def Stage.error : Stage → Option Error
  | .failing e _ => some e
  | .returned (.failed e) => some e
  | _ => none

def isChat (d : Deployment) : Bool :=
  match d.upstreamFormat with
  | .chat _ => true
  | _ => false

/-- Whom requests were sent to. -/
def sentTo (acts : List Act) : List Deployment :=
  acts.filterMap fun
    | .sent d => some d
    | .did _ => none

theorem sentTo_append (acts more : List Act) : sentTo (acts ++ more) = sentTo acts ++ sentTo more :=
  List.filterMap_append

@[simp] theorem sentTo_did (effects : List Effect) : sentTo (effects.map .did) = [] := by
  simp [sentTo, List.filterMap_map]

/-- The attempt that an input settles. -/
def settles (s : TurnState) (input : Input) : Option (Deployment × Settled) :=
  match s.stage, input with
  | .dispatching d _ _, .answer (.error e) => some (d, .lost e)
  | .dispatching d _ _, .answer (.ok resp) =>
      if isSuccess resp.status then some (d, .accepted resp.status)
      else match resp.body with
        | .full bytes =>
            some (d, .refused resp.status (.upstream d.provider resp.status (bodyMessage bytes)))
        | .stream => none
  | .draining d _ status read, .move (.item i) =>
      match drain read i with
      | (_, false) => none
      | (read, true) => some (d, .refused status (.upstream d.provider status (bodyMessage read)))
  | _, _ => none

namespace Inbound

variable (t : Inbound)

/-- The candidates of the turn, as far as access permits them. -/
def candidates : List Deployment :=
  match t.resolved with
  | .error _ => []
  | .ok candidates => filterAccess candidates t.ctx

/-- The candidate's request can be emitted. -/
def Emittable (d : Deployment) : Prop :=
  ∀ f, d.upstreamFormat = .chat f →
    (t.codec.emitRequest f t.chat { targetModel := d.upstreamModel, stream := true }).isOk = true

def AllEmittable : Prop := ∀ d ∈ t.candidates, t.Emittable d

/-- The next chat candidate is tried, or there is none left, or its request
cannot be emitted. -/
theorem dispatch_cases (lastErr : Option Error) (embedOnly : Bool) (rest : List Deployment) :
    (rest.filter isChat = [] ∧ ∃ e, t.dispatch lastErr embedOnly rest = t.fail e ∧
        (embedOnly = false → e = lastErr.getD (.noEligibleProvider t.chat.model))) ∨
      (∃ d f later, rest.filter isChat = d :: later.filter isChat ∧ later ⊆ rest ∧
        t.dispatch lastErr embedOnly rest = ([.sent d], { stage := .dispatching d f later })) ∨
      ((∃ e, t.dispatch lastErr embedOnly rest = t.fail e) ∧ ∃ d ∈ rest, ¬ t.Emittable d) := by
  induction rest with
  | nil =>
      refine Or.inl ⟨rfl, _, rfl, fun h => ?_⟩
      rw [h]
      rfl
  | cons d rest ih =>
      cases hFormat : d.upstreamFormat with
      | chat f =>
          have hChat : isChat d = true := by simp [isChat, hFormat]
          apply Or.inr
          rw [dispatch, hFormat]
          dsimp only
          cases hBody : t.codec.emitRequest f t.chat
              { targetModel := d.upstreamModel, stream := true } with
          | error e =>
              refine Or.inr ⟨⟨e, rfl⟩, d, List.mem_cons_self, fun hEmit => ?_⟩
              have hOk := hEmit f hFormat
              rw [hBody] at hOk
              exact absurd hOk Bool.false_ne_true
          | ok body =>
              exact Or.inl ⟨d, f, rest, List.filter_cons_of_pos hChat,
                List.subset_cons_self d rest, rfl⟩
      | embed f =>
          have hChat : ¬ isChat d = true := by simp [isChat, hFormat]
          rw [List.filter_cons_of_neg hChat, dispatch, hFormat]
          exact Or.imp_right (Or.imp
            (fun ⟨c, f, later, hNext, hLater, hSend⟩ =>
              ⟨c, f, later, hNext, List.subset_cons_of_subset d hLater, hSend⟩)
            (fun ⟨hFail, c, hc, hNot⟩ => ⟨hFail, c, List.mem_cons_of_mem d hc, hNot⟩)) ih
      | media f =>
          have hChat : ¬ isChat d = true := by simp [isChat, hFormat]
          rw [List.filter_cons_of_neg hChat, dispatch, hFormat]
          exact Or.imp_right (Or.imp
            (fun ⟨c, f, later, hNext, hLater, hSend⟩ =>
              ⟨c, f, later, hNext, List.subset_cons_of_subset d hLater, hSend⟩)
            (fun ⟨hFail, c, hc, hNot⟩ => ⟨hFail, c, List.mem_cons_of_mem d hc, hNot⟩)) ih

/-! ### What a run has tried -/

/-- No attempt so far has committed the turn. -/
def Open (os : List (Deployment × Settled)) : Prop := ∀ o ∈ os, o.2.commits = false

/-- An attempt at `d` is under way, after the ones that came to nothing. -/
def Trying (chats sent : List Deployment) (os : List (Deployment × Settled)) (d : Deployment)
    (rest : List Deployment) : Prop :=
  sent = os.map Prod.fst ++ [d] ∧ chats = sent ++ rest.filter isChat ∧ Open os ∧
    rest ⊆ t.candidates

/-- Every attempt was in vain, and if every request could be emitted, then every
candidate was tried. -/
def Exhausted (chats sent : List Deployment) (os : List (Deployment × Settled)) (e : Error) :
    Prop :=
  sent = os.map Prod.fst ∧ sent <+: chats ∧ Open os ∧
    (t.AllEmittable → chats = sent ∧
      (chats ≠ [] → os.getLast?.bind (fun o => o.2.error) = some e))

/-- The last attempt committed the turn. -/
def Committed (chats sent : List Deployment) (os : List (Deployment × Settled)) : Prop :=
  sent = os.map Prod.fst ∧ sent <+: chats ∧
    ∃ earlier o, os = earlier ++ [o] ∧ Open earlier ∧ o.2.commits = true

/-- What is known of the attempts wherever the turn stands. -/
structure InOrder (chats sent : List Deployment) (os : List (Deployment × Settled)) : Prop where
  sentPrefix : sent <+: chats
  settledPrefix : os.map Prod.fst <+: sent
  next : ∀ i, i + 1 < sent.length → ∃ o, os[i]? = some o ∧ o.2.commits = false

/-- What is known of them at each stage. -/
def Stands (chats sent : List Deployment) (os : List (Deployment × Settled)) : Stage → Prop
  | .dispatching d _ rest => t.Trying chats sent os d rest
  | .draining d rest _ _ => t.Trying chats sent os d rest
  | .failing e _ => t.Exhausted chats sent os e
  | .recording .. => Committed chats sent os
  | .aggregating .. => Committed chats sent os
  | .streaming .. => Committed chats sent os
  | .returned reply =>
      Committed chats sent os ∨ ∃ e, reply = .failed e ∧ t.Exhausted chats sent os e
  | .gone => InOrder chats sent os

variable {chats sent : List Deployment} {os : List (Deployment × Settled)}

theorem Open.get? {os : List (Deployment × Settled)} (h : Open os) {i : Nat}
    (hi : i < os.length) : ∃ o, os[i]? = some o ∧ o.2.commits = false :=
  ⟨os[i], List.getElem?_eq_getElem hi, h _ (List.getElem_mem hi)⟩

theorem Open.append {o : Deployment × Settled} (h : Open os) (hNext : o.2.commits = false) :
    Open (os ++ [o]) := by
  intro p hp
  rcases List.mem_append.mp hp with hp | hp
  · exact h p hp
  · rwa [List.mem_singleton.mp hp]

theorem Trying.inOrder {d : Deployment} {rest : List Deployment}
    (h : t.Trying chats sent os d rest) : InOrder chats sent os := by
  obtain ⟨hSent, hChats, hOpen, -⟩ := h
  refine ⟨⟨_, hChats.symm⟩, ⟨[d], hSent.symm⟩, ?_⟩
  intro i hi
  apply hOpen.get?
  rw [hSent, List.length_append, List.length_map] at hi
  exact Nat.lt_of_succ_lt_succ hi

theorem Exhausted.inOrder {e : Error} (h : t.Exhausted chats sent os e) :
    InOrder chats sent os := by
  obtain ⟨hSent, hChats, hOpen, -⟩ := h
  refine ⟨hChats, ⟨[], by rw [hSent, List.append_nil]⟩, ?_⟩
  intro i hi
  apply hOpen.get?
  rw [hSent, List.length_map] at hi
  omega

theorem Committed.inOrder (h : Committed chats sent os) : InOrder chats sent os := by
  obtain ⟨hSent, hChats, earlier, o, hOs, hOpen, -⟩ := h
  refine ⟨hChats, ⟨[], by rw [hSent, List.append_nil]⟩, ?_⟩
  intro i hi
  have hEarlier : i < earlier.length := by
    rw [hSent, hOs, List.length_map, List.length_append, List.length_singleton] at hi
    omega
  obtain ⟨p, hGet, hNot⟩ := hOpen.get? hEarlier
  exact ⟨p, by rw [hOs, List.getElem?_append_left hEarlier, hGet], hNot⟩

theorem Stands.inOrder {stage : Stage} (h : t.Stands chats sent os stage) :
    InOrder chats sent os := by
  cases stage with
  | dispatching d f rest => exact Trying.inOrder t h
  | draining d rest status read => exact Trying.inOrder t h
  | failing e pending => exact Exhausted.inOrder t h
  | recording pending reply => exact Committed.inOrder h
  | aggregating d status fold => exact Committed.inOrder h
  | streaming d phase => exact Committed.inOrder h
  | returned reply =>
      rcases h with h | ⟨e, -, h⟩
      · exact h.inOrder
      · exact h.inOrder t
  | gone => exact h

/-- The attempt under way commits the turn. -/
theorem Trying.commit {d : Deployment} {rest : List Deployment} {o : Settled}
    (h : t.Trying chats sent os d rest) (hCommits : o.commits = true) :
    Committed chats sent (os ++ [(d, o)]) := by
  obtain ⟨hSent, hChats, hOpen, -⟩ := h
  refine ⟨?_, ⟨_, hChats.symm⟩, os, (d, o), rfl, hOpen, hCommits⟩
  rw [List.map_append, hSent]
  rfl

/-- What the turn goes on to, and what it does on the way, keeps the attempts in
order. -/
def Goes (chats sent : List Deployment) (os : List (Deployment × Settled))
    (next : List Act × TurnState) : Prop :=
  t.Stands chats (sent ++ sentTo next.1) os next.2.stage

theorem Goes.quiet {next : List Act × TurnState} (hQuiet : sentTo next.1 = [])
    (h : t.Stands chats sent os next.2.stage) : t.Goes chats sent os next := by
  rw [Goes, hQuiet, List.append_nil]
  exact h

theorem dispatch_goes {lastErr : Option Error} {embedOnly : Bool} {rest : List Deployment}
    (hRest : rest ⊆ t.candidates) (hSent : sent = os.map Prod.fst)
    (hChats : chats = sent ++ rest.filter isChat) (hOpen : Open os)
    (hLast : sent ≠ [] → embedOnly = false ∧
      ∃ e, lastErr = some e ∧ os.getLast?.bind (fun o => o.2.error) = some e) :
    t.Goes chats sent os (t.dispatch lastErr embedOnly rest) := by
  rcases t.dispatch_cases lastErr embedOnly rest with
    ⟨hNone, e, hFail, hError⟩ | ⟨d, f, later, hNext, hLater, hSend⟩ | ⟨⟨e, hFail⟩, d, hd, hNot⟩
  · have hAll : chats = sent := by rw [hChats, hNone, List.append_nil]
    rw [hFail]
    refine Goes.quiet t rfl ⟨hSent, ⟨_, hChats.symm⟩, hOpen, fun _ => ⟨hAll, ?_⟩⟩
    intro hSome
    rw [hAll] at hSome
    obtain ⟨hEmbed, e', hLastErr, hOutcome⟩ := hLast hSome
    have hSame := hError hEmbed
    rw [hLastErr] at hSame
    rw [hOutcome, hSame]
    rfl
  · rw [hSend]
    show t.Trying chats (sent ++ [d]) os d later
    refine ⟨by rw [hSent], ?_, hOpen, fun c hc => hRest (hLater hc)⟩
    rw [hChats, hNext, List.append_assoc]
    rfl
  · rw [hFail]
    exact Goes.quiet t rfl ⟨hSent, ⟨_, hChats.symm⟩, hOpen, fun hAll => absurd (hAll d (hRest hd)) hNot⟩

theorem begin_goes : t.Goes (t.candidates.filter isChat) [] [] t.begin := by
  have hOpen : Open [] := fun o ho => absurd ho List.not_mem_nil
  unfold begin
  cases hResolved : t.resolved with
  | error e =>
      have hNone : t.candidates = [] := by rw [candidates, hResolved]
      rw [hNone]
      exact Goes.quiet t rfl ⟨rfl, List.nil_prefix, hOpen, fun _ => ⟨rfl, fun h => absurd rfl h⟩⟩
  | ok resolved =>
      have hSome : t.candidates = filterAccess resolved t.ctx := by rw [candidates, hResolved]
      dsimp only
      rw [← hSome]
      split
      · have hNone : t.candidates = [] := List.isEmpty_iff.mp ‹_›
        rw [hNone]
        exact Goes.quiet t rfl ⟨rfl, List.nil_prefix, hOpen, fun _ => ⟨rfl, fun h => absurd rfl h⟩⟩
      · exact t.dispatch_goes (List.Subset.refl _) rfl rfl hOpen (fun h => absurd rfl h)

/-- After an attempt that came to nothing the next candidate is tried. -/
theorem Trying.retry {d : Deployment} {rest : List Deployment} {o : Settled} {e : Error}
    (h : t.Trying chats sent os d rest) (hNot : o.commits = false) (hError : o.error = some e) :
    t.Goes chats sent (os ++ [(d, o)]) (t.dispatch (some e) false rest) := by
  obtain ⟨hSent, hChats, hOpen, hRest⟩ := h
  apply t.dispatch_goes hRest
  · rw [List.map_append, hSent]
    rfl
  · exact hChats
  · exact hOpen.append hNot
  · intro _
    refine ⟨rfl, e, rfl, ?_⟩
    rw [List.getLast?_append]
    exact hError

theorem commit_goes (h : Committed chats sent os) (d : Deployment) (turn : Turn) (reply : Reply) :
    t.Goes chats sent os (t.commit d turn reply) :=
  Goes.quiet t (sentTo_did _) h

theorem Trying.refuse {d : Deployment} {rest : List Deployment}
    (h : t.Trying chats sent os d rest) (status : Nat) (message : Str) :
    t.Goes chats sent (os ++ [(d, .refused status (.upstream d.provider status message))])
      (t.refuse d rest status message) := by
  unfold Inbound.refuse
  dsimp only
  split
  · next hNext => exact h.retry t (by simp [Settled.commits, hNext]) rfl
  · next hNot =>
      have hCommits : (Settled.refused status
          (.upstream d.provider status message)).commits = true := by
        simpa [Settled.commits] using hNot
      exact t.commit_goes (h.commit t hCommits) _ _ _

theorem emitFull_goes (h : Committed chats sent os) (d : Deployment) (status : Nat)
    (resp : ChatResponse) : t.Goes chats sent os (t.emitFull d status resp) := by
  unfold emitFull
  split
  · exact Goes.quiet t rfl (Or.inl h)
  · exact t.commit_goes h _ _ _

theorem accept_goes (h : Committed chats sent os) (d : Deployment) (f : WireFormat)
    (status : Nat) (body : ResponseBody) : t.Goes chats sent os (t.accept d f status body) := by
  unfold accept
  split
  · exact Goes.quiet t rfl h
  · exact Goes.quiet t rfl h
  · split
    · exact Goes.quiet t rfl (Or.inl h)
    · split
      · exact t.commit_goes h _ _ _
      · exact t.emitFull_goes h _ _ _

theorem aggregate_goes (h : Committed chats sent os) (d : Deployment) (status : Nat)
    (fold : Fold) (i : Item) : t.Goes chats sent os (t.aggregate d status fold i) := by
  cases i with
  | chunk bytes => exact Goes.quiet t rfl h
  | failed => exact t.commit_goes h _ _ _
  | ended => exact t.emitFull_goes h _ _ _

theorem advance_goes (pending : List Effect) {suspended : List Effect → Stage} {done : Stage}
    (hMore : ∀ rest, t.Stands chats sent os (suspended rest))
    (hDone : t.Stands chats sent os done) :
    t.Goes chats sent os (advance pending suspended done) := by
  cases pending with
  | nil => exact Goes.quiet t rfl hDone
  | cons e rest =>
      cases rest with
      | nil => exact Goes.quiet t rfl hDone
      | cons e' rest => exact Goes.quiet t rfl (hMore _)

theorem Trying.answered {d : Deployment} {rest : List Deployment}
    (h : t.Trying chats sent os d rest) (f : WireFormat) (r : Except Error UpstreamResponse)
    (spawned : List Effect) :
    t.Goes chats sent (os ++ (settles ⟨.dispatching d f rest, spawned⟩ (.answer r)).toList)
      (t.answered d f rest r) := by
  cases r with
  | error e => exact h.retry t rfl rfl
  | ok resp =>
      obtain ⟨status, body⟩ := resp
      unfold Inbound.answered settles
      dsimp only
      split
      · exact t.accept_goes (h.commit t rfl) _ _ _ _
      · cases body with
        | full bytes => exact h.refuse t status (bodyMessage bytes)
        | stream =>
            apply Goes.quiet t rfl
            rw [Option.toList_none, List.append_nil]
            exact h

theorem Trying.drained {d : Deployment} {rest : List Deployment}
    (h : t.Trying chats sent os d rest) (status : Nat) (read : List UInt8) (i : Item)
    (spawned : List Effect) :
    t.Goes chats sent
      (os ++ (settles ⟨.draining d rest status read, spawned⟩ (.move (.item i))).toList)
      (t.step ⟨.draining d rest status read, spawned⟩ (.move (.item i))) := by
  unfold step settles
  dsimp only
  generalize drain read i = r
  obtain ⟨read, done⟩ := r
  cases done with
  | false =>
      apply Goes.quiet t rfl
      rw [Option.toList_none, List.append_nil]
      exact h
  | true => exact h.refuse t status (bodyMessage read)

/-- Tasks left behind send no requests. -/
theorem spawned_goes {s : TurnState} (h : t.Stands chats sent os s.stage) :
    t.Goes chats sent os (match s.spawned with
      | [] => ([], s)
      | e :: rest => ([.did e], { s with spawned := rest })) := by
  split
  · exact Goes.quiet t rfl h
  · exact Goes.quiet t rfl h

/-- A step sends at most to the next candidate, and only once the last attempt
came to nothing. -/
theorem step_goes {s : TurnState} (h : t.Stands chats sent os s.stage) (input : Input) :
    t.Goes chats sent (os ++ (settles s input).toList) (t.step s input) := by
  obtain ⟨stage, spawned⟩ := s
  have hKeep : ∀ {next : List Act × TurnState}, t.Goes chats sent os next →
      t.Goes chats sent (os ++ (none : Option (Deployment × Settled)).toList) next := by
    intro next hNext
    rwa [Option.toList_none, List.append_nil]
  have hStay : t.Goes chats sent os ([], ⟨stage, spawned⟩) := Goes.quiet t rfl h
  have hLeft := t.spawned_goes (s := ⟨stage, spawned⟩) h
  have hGone : ∀ acts, sentTo acts = [] → ∀ left, t.Goes chats sent os (acts, ⟨.gone, left⟩) :=
    fun acts hQuiet left => Goes.quiet t hQuiet (Stands.inOrder t h)
  cases stage with
  | dispatching d f rest =>
      cases input with
      | answer r => exact Trying.answered t h f r spawned
      | move m =>
          cases m with
          | drop => exact hKeep (hGone _ rfl _)
          | spawned => exact hKeep hLeft
          | _ => exact hKeep hStay
  | draining d rest status read =>
      cases input with
      | answer r => exact hKeep hStay
      | move m =>
          cases m with
          | item i => exact Trying.drained t h status read i spawned
          | drop => exact hKeep (hGone _ rfl _)
          | spawned => exact hKeep hLeft
          | _ => exact hKeep hStay
  | failing e pending =>
      cases input with
      | answer r => exact hKeep hStay
      | move m =>
          cases m with
          | advance => exact hKeep (t.advance_goes pending (fun _ => h) (Or.inr ⟨e, rfl, h⟩))
          | drop => exact hKeep (hGone _ rfl _)
          | spawned => exact hKeep hLeft
          | _ => exact hKeep hStay
  | recording pending reply =>
      cases input with
      | answer r => exact hKeep hStay
      | move m =>
          cases m with
          | advance => exact hKeep (t.advance_goes pending (fun _ => h) (Or.inl h))
          | drop => exact hKeep (hGone _ rfl _)
          | spawned => exact hKeep hLeft
          | _ => exact hKeep hStay
  | aggregating d status fold =>
      cases input with
      | answer r => exact hKeep hStay
      | move m =>
          cases m with
          | item i => exact hKeep (t.aggregate_goes h d status fold i)
          | drop => exact hKeep (hGone _ rfl _)
          | spawned => exact hKeep hLeft
          | _ => exact hKeep hStay
  | streaming d phase =>
      cases input with
      | answer r => exact hKeep hStay
      | move m => exact hKeep (Goes.quiet t (sentTo_did _) h)
  | returned reply =>
      cases input with
      | answer r => exact hKeep hStay
      | move m =>
          cases m with
          | spawned => exact hKeep hLeft
          | _ => exact hKeep hStay
  | gone =>
      cases input with
      | answer r => exact hKeep hStay
      | move m =>
          cases m with
          | spawned => exact hKeep hLeft
          | _ => exact hKeep hStay

/-! ### Runs -/

/-- The attempts that came out in a run so far. -/
def settled (past : List (TurnState × Input)) : List (Deployment × Settled) :=
  past.flatMap fun p => (settles p.1 p.2).toList

theorem run_stands (inputs : List Input) :
    t.Stands (t.candidates.filter isChat) (sentTo (t.run inputs).1) (settled (t.history inputs))
      (t.run inputs).2.stage := by
  let Inv : List (TurnState × Input) → List Act → TurnState → Prop := fun past acts s =>
    t.Stands (t.candidates.filter isChat) (sentTo (t.begin.1 ++ acts)) (settled past) s.stage
  have hStart : Inv [] [] t.begin.2 := by
    have hBegin := t.begin_goes
    rw [Goes, List.nil_append] at hBegin
    show t.Stands _ (sentTo (t.begin.1 ++ [])) [] _
    rwa [List.append_nil]
  have hStep : ∀ past acts s input, Inv past acts s →
      Inv (past ++ [(s, input)]) (acts ++ (t.step s input).1) (t.step s input).2 := by
    intro past acts s input hPast
    have hNext := t.step_goes hPast input
    have hSettled : settled (past ++ [(s, input)]) =
        settled past ++ (settles s input).toList := by
      simp [settled]
    show t.Stands _ (sentTo (t.begin.1 ++ (acts ++ (t.step s input).1)))
      (settled (past ++ [(s, input)])) _
    rw [hSettled, ← List.append_assoc, sentTo_append]
    exact hNext
  have hInv : Inv (t.history inputs) (Transducer.run t.step t.begin.2 inputs).1
      (t.run inputs).2 := Transducer.run_along hStart hStep inputs
  exact hInv

/-- Nobody is asked but the candidates. -/
theorem sent_subset (inputs : List Input) : sentTo (t.run inputs).1 ⊆ t.candidates :=
  fun _ hd => List.mem_of_mem_filter
    ((Stands.inOrder t (t.run_stands inputs)).sentPrefix.subset hd)

/-- Requests go to an in-order prefix of the chat candidates, each after the one
before it came to nothing. When none of them commits the turn, all were tried,
and the turn fails with the last attempt's error. -/
theorem sent_in_order (inputs : List Input) :
    let chats := t.candidates.filter isChat
    let sent := sentTo (t.run inputs).1
    let os := settled (t.history inputs)
    let stage := (t.run inputs).2.stage
    sent <+: chats ∧ os.map Prod.fst <+: sent ∧
      (∀ i, i + 1 < sent.length → ∃ o, os[i]? = some o ∧ o.2.commits = false) ∧
      (t.AllEmittable → stage ≠ .gone → os.length = sent.length →
        (∀ o ∈ os, o.2.commits = false) →
        sent = chats ∧ ∃ e, stage.error = some e ∧
          (chats ≠ [] → os.getLast?.bind (fun o => o.2.error) = some e)) := by
  intro chats sent os stage
  have hRun : t.Stands chats sent os stage := t.run_stands inputs
  obtain ⟨hSent, hOs, hNext⟩ := Stands.inOrder t hRun
  refine ⟨hSent, hOs, hNext, ?_⟩
  intro hEmit hThere hSettled hOpen
  have hTrying : ∀ {d rest}, ¬ t.Trying chats sent os d rest := by
    rintro d rest ⟨hLast, -⟩
    have hLength := congrArg List.length hLast
    rw [List.length_append, List.length_map, hSettled] at hLength
    exact absurd hLength (Nat.ne_of_lt (Nat.lt_succ_self _))
  have hCommitted : ¬ Committed chats sent os := by
    rintro ⟨-, -, earlier, o, hLast, -, hCommits⟩
    have hIn : o ∈ os := by simp [hLast]
    exact absurd (hOpen o hIn) (by simp [hCommits])
  cases hStage : stage with
  | dispatching d f rest => exact absurd (hStage ▸ hRun) hTrying
  | draining d rest status read => exact absurd (hStage ▸ hRun) hTrying
  | recording pending reply =>
      rw [hStage] at hRun
      exact absurd hRun hCommitted
  | aggregating d status fold =>
      rw [hStage] at hRun
      exact absurd hRun hCommitted
  | streaming d phase =>
      rw [hStage] at hRun
      exact absurd hRun hCommitted
  | gone => exact absurd hStage hThere
  | failing e pending =>
      rw [hStage] at hRun
      obtain ⟨-, -, -, hAll⟩ := hRun
      exact ⟨(hAll hEmit).1.symm, e, rfl, (hAll hEmit).2⟩
  | returned reply =>
      rw [hStage] at hRun
      rcases hRun with hRun | ⟨e, hReply, -, -, -, hAll⟩
      · exact absurd hRun hCommitted
      · exact ⟨(hAll hEmit).1.symm, e, by rw [hReply]; rfl, (hAll hEmit).2⟩

/-- A turn with two candidates that take chat requests. -/
def twoCandidates : Inbound where
  codec :=
    { emitRequest := fun _ req opts => .ok (Text.toUtf8 (OpenaiChat.emitRequest req opts).1)
      parseResponse := fun _ _ => .error (.wire [])
      emitResponse := fun _ _ => .error (.wire []) }
  surface := .openaiChat
  chat := { model := "m".toList }
  ctx := { access := {}, excludedModelIds := [], excludedProviderIds := [] }
  resolved := .ok [{ modelId := "m".toList, providerId := "p".toList },
    { modelId := "m".toList, providerId := "q".toList }]

theorem twoCandidates_emittable (d : Deployment) : twoCandidates.Emittable d := fun _ _ => rfl

/-- Both candidates are overloaded, and the second one's error is returned. -/
theorem both_overloaded :
    let run := twoCandidates.run [.answer (.ok ⟨503, .full []⟩), .answer (.ok ⟨500, .full []⟩)]
    (sentTo run.1).length = 2 ∧ ∃ e, run.2.stage.error = some e := by
  have hTried := twoCandidates.sent_in_order
    [.answer (.ok ⟨503, .full []⟩), .answer (.ok ⟨500, .full []⟩)]
  have hOpen : ∀ o ∈ settled (twoCandidates.history
      [.answer (.ok ⟨503, .full []⟩), .answer (.ok ⟨500, .full []⟩)]), o.2.commits = false := by
    intro o ho
    rcases List.mem_cons.mp ho with rfl | ho
    · rfl
    · rw [List.mem_singleton.mp ho]
      rfl
  obtain ⟨-, e, hError, -⟩ := hTried.2.2.2 (fun d _ => twoCandidates_emittable d)
    Stage.noConfusion rfl hOpen
  exact ⟨rfl, e, hError⟩

/-- A model that one candidate does not know is asked of the next, though its
status is not one to retry. -/
theorem unknown_model_tried_on :
    ¬ ∀ (t : Inbound), t.AllEmittable → ∀ (inputs : List Input) (i : Nat)
        (o : Deployment × Settled), i + 1 < (sentTo (t.run inputs).1).length →
        (settled (t.history inputs))[i]? = some o →
        ∀ status e, o.2 = .refused status e → isRetryable status = true := by
  intro h
  have hTried := h twoCandidates (fun d _ => twoCandidates_emittable d)
    [.answer (.ok ⟨404, .full []⟩)] 0 _ (Nat.lt_succ_self 1) rfl 404 _ rfl
  exact absurd hTried (by decide)

end Inbound

end Gateway.Service
