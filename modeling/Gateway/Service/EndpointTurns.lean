import Gateway.Service.Endpoints

/-! What a turn on a buffered endpoint asks of its candidates, what it answers, and
that it is recorded once however it ends. -/
namespace Gateway.Service.Endpoint

open Json Wire Program

/-! ### What is asked and answered -/

/-- What the message of an error body may be. -/
def MessageOf : ResponseBody → Str → Prop
  | .full bytes, message => message = bodyMessage bytes
  | .stream, message => ∃ items, message = bodyMessage (readStream [] items)

/-- What the bytes of a success may be. -/
def BytesOf : ResponseBody → List UInt8 → Prop
  | .full bytes, read => read = bytes
  | .stream, read => ∃ message, MessageOf .stream message ∧ read = Text.toUtf8 message

/-- Why a candidate is passed over: it did not answer, or its answer is worth
another try. -/
inductive PassedOver (d : Deployment) : Except Error HeadedResponse → Error → Prop where
  | unreached (e : Error) : PassedOver d (.error e) e
  | retryable {resp : HeadedResponse} {message : Str} (fails : isSuccess resp.status = false)
      (again : (isRetryable resp.status || isModelNotFound resp.status) = true)
      (reads : MessageOf resp.body message) :
      PassedOver d (.ok resp) (.upstream d.provider resp.status message)

section

variable {K : Type} (t : Endpoint K)

/-- The candidates that may be asked. -/
def serving : List Deployment :=
  match t.resolved with
  | .error _ => []
  | .ok candidates => (filterAccess candidates t.ctx).filter fun d => (t.kind d.upstreamFormat).isSome

/-- The attempts at one candidate, and what they came to. -/
inductive Asked (d : Deployment) : List Attempt → Except Error HeadedResponse → Prop where
  | once {a : Except Error HeadedResponse}
      (kept : t.asksAgain = true → ∀ message, a ≠ .error (.connectionLost message)) :
      Asked d [(d, a)] a
  | again {message : Str} {a : Except Error HeadedResponse} (asksAgain : t.asksAgain = true) :
      Asked d [(d, .error (.connectionLost message)), (d, a)] a

/-- The candidates were asked one after the other, and all of them passed over. The
error is the last one's. -/
inductive Tried : List Deployment → List Attempt → Option Error → Prop where
  | start : Tried [] [] none
  | next {ds : List Deployment} {d : Deployment} {before now : List Attempt} {e : Error}
      {lastErr : Option Error} {a : Except Error HeadedResponse} (tried : Tried ds before lastErr)
      (asked : t.Asked d now a) (passed : PassedOver d a e) :
      Tried (ds ++ [d]) (before ++ now) (some e)

/-- A request is sent to the first candidate that was not tried, as the candidate
takes it; or to it again, after its connection was lost. -/
def Due (d : Deployment) (body : List UInt8) (attempts : List Attempt) : Prop :=
  ∃ ds rest before lastErr k, t.serving = ds ++ d :: rest ∧ t.Tried ds before lastErr ∧
    t.kind d.upstreamFormat = some k ∧ t.emitRequest k d = .ok body ∧
    (attempts = before ∨
      t.asksAgain = true ∧ ∃ message, attempts = before ++ [(d, .error (.connectionLost message))])

/-- The attempts end with an answer of the first candidate that was not passed
over. -/
structure Answered (k : K) (d : Deployment) (resp : HeadedResponse) (attempts : List Attempt) : Prop where
  kind : t.kind d.upstreamFormat = some k
  asked : ∃ ds rest before now lastErr, t.serving = ds ++ d :: rest ∧ t.Tried ds before lastErr ∧
    t.Asked d now (.ok resp) ∧ attempts = before ++ now

/-- How a turn ends, from its attempts: what the client gets, what was done, and
whether the guard is still armed. -/
inductive Outcome : List Attempt → Except Error BufferedReply → List Deed → Bool → Prop where
  | unresolved {e : Error} (resolved : t.resolved = .error e) :
      Outcome [] (.error e) (t.guardDeeds e.httpStatus) false
  | refusedAll {candidates : List Deployment} (resolved : t.resolved = .ok candidates)
      (none : filterAccess candidates t.ctx = []) :
      Outcome [] (.error (.noEligibleProvider t.model))
        (t.guardDeeds (Error.noEligibleProvider t.model).httpStatus) false
  | otherKinds (none : t.serving = []) :
      Outcome [] (.error (.badRequest t.mismatch)) (t.guardDeeds 400) false
  | exhausted {attempts : List Attempt} {e : Error} (tried : t.Tried t.serving attempts (some e)) :
      Outcome attempts (.error e) (t.guardDeeds e.httpStatus) false
  | unemitted {ds rest : List Deployment} {d : Deployment} {k : K} {attempts : List Attempt}
      {lastErr : Option Error} {e : Error} (serving : t.serving = ds ++ d :: rest)
      (tried : t.Tried ds attempts lastErr) (kind : t.kind d.upstreamFormat = some k)
      (fails : t.emitRequest k d = .error e) :
      Outcome attempts (.error e) (t.guardDeeds e.httpStatus) false
  | refused {k : K} {d : Deployment} {resp : HeadedResponse} {attempts : List Attempt} {message : Str}
      (answered : t.Answered k d resp attempts) (fails : isSuccess resp.status = false)
      (final : (isRetryable resp.status || isModelNotFound resp.status) = false)
      (reads : MessageOf resp.body message) :
      Outcome attempts (.error (.upstream d.provider resp.status message))
        ((t.recordCtx d).deeds (Inbound.errorTurn resp.status) []) false
  | unread {k : K} {d : Deployment} {resp : HeadedResponse} {attempts : List Attempt}
      {bytes : List UInt8} {e : Error} (answered : t.Answered k d resp attempts)
      (succeeds : isSuccess resp.status = true) (reads : BytesOf resp.body bytes)
      (fails : t.accept k resp bytes = .error e) : Outcome attempts (.error e) [] true
  | served {k : K} {d : Deployment} {resp : HeadedResponse} {attempts : List Attempt}
      {bytes : List UInt8} {served : Served} (answered : t.Answered k d resp attempts)
      (succeeds : isSuccess resp.status = true) (reads : BytesOf resp.body bytes)
      (accepts : t.accept k resp bytes = .ok served) :
      Outcome attempts (.ok ⟨resp.status, served.contentType, served.body⟩)
        ((t.recordCtx d).deeds (servedTurn resp.status served) served.captured) false

end

/-! ### Records -/

/-- A turn is noted by the metrics once, and has one row. -/
def Recorded (deeds : List Deed) : Prop :=
  deeds.countP Deed.isObserved = 1 ∧ deeds.countP Deed.isTelemetry = 1

/-- What is done at once, the row, and what comes after it. -/
structure Plan (now : List Deed) (record : TelemetryRecord) (later : List Deed) : Prop where
  atOnce : ∀ e ∈ now, e.suspends = false
  observed : now.countP Deed.isObserved = 1
  later : ∀ e ∈ later, e.isObserved = false ∧ e.isTelemetry = false

namespace Plan

variable {now later before after : List Deed} {record : TelemetryRecord} {e : Deed}

theorem telemetry_now (h : Plan now record later) : now.countP Deed.isTelemetry = 0 := by
  apply List.countP_eq_zero.mpr
  intro e he hTelemetry
  have hAtOnce := h.atOnce e he
  unfold Deed.isTelemetry at hTelemetry
  split at hTelemetry
  · cases hAtOnce
  · cases hTelemetry

theorem none_later (h : Plan now record later) (hSub : ∀ e ∈ after, e ∈ later) :
    after.countP Deed.isObserved = 0 ∧ after.countP Deed.isTelemetry = 0 := by
  constructor
  · apply List.countP_eq_zero.mpr
    intro e he
    rw [(h.later e (hSub e he)).1]
    exact Bool.false_ne_true
  · apply List.countP_eq_zero.mpr
    intro e he
    rw [(h.later e (hSub e he)).2]
    exact Bool.false_ne_true

/-- The row and some of what comes after it are done. -/
theorem recorded_with (h : Plan now record later) (hSub : ∀ e ∈ after, e ∈ later) :
    Recorded (now ++ .effect (.telemetry record) :: after) := by
  obtain ⟨hObserved, hTelemetry⟩ := h.none_later hSub
  constructor
  · rw [List.countP_append, List.countP_cons_of_neg (by exact Bool.false_ne_true), hObserved, h.observed]
  · rw [List.countP_append, List.countP_cons_of_pos rfl, hTelemetry, h.telemetry_now]

/-- Where the turn is suspended on the way, the metrics have noted it, and its row
is written or being written. -/
theorem cut (h : Plan now record later)
    (hAt : now ++ .effect (.telemetry record) :: later = before ++ e :: after)
    (hSuspends : e.suspends = true) :
    before.countP Deed.isObserved = 1 ∧ (before.countP Deed.isTelemetry = 1 ∨
      e.isTelemetry = true ∧ before.countP Deed.isTelemetry = 0) := by
  rcases List.append_eq_append_iff.mp hAt with ⟨more, rfl, hRest⟩ | ⟨more, rfl, hRest⟩
  · cases more with
    | nil =>
        cases hRest
        rw [List.append_nil]
        exact ⟨h.observed, Or.inr ⟨rfl, h.telemetry_now⟩⟩
    | cons first more =>
        obtain ⟨rfl, rfl⟩ := List.cons.inj hRest
        obtain ⟨hObserved, hTelemetry⟩ := h.recorded_with fun e he => List.mem_append_left _ he
        exact ⟨hObserved, Or.inl hTelemetry⟩
  · cases more with
    | nil =>
        cases hRest
        rw [List.append_nil] at h
        exact ⟨h.observed, Or.inr ⟨rfl, h.telemetry_now⟩⟩
    | cons first more =>
        obtain ⟨rfl, -⟩ := List.cons.inj hRest
        have hNot := h.atOnce e (List.mem_append_right _ List.mem_cons_self)
        rw [hSuspends] at hNot
        cases hNot

end Plan

section

variable {K : Type} (t : Endpoint K)

theorem plan_guard (status : Nat) :
    Plan [.effect (.observed (t.guardRecord status))] (t.guardRecord status) [] where
  atOnce := by
    intro e he
    cases List.mem_singleton.mp he
    rfl
  observed := rfl
  later := by
    intro e he
    cases he

theorem plan_deeds (rctx : RecordCtx) (turn : Turn) (captured : List UInt8) :
    Plan ((rctx.finishNow turn).map .effect) (rctx.telemetry turn)
      ((rctx.subjects.map fun subject => .effect (.rollup (rctx.rollup turn.usage subject))) ++
        [.capture (rctx.logRecord turn) captured]) where
  atOnce := by
    intro e he
    obtain ⟨effect, hEffect, rfl⟩ := List.mem_map.mp he
    rcases List.mem_append.mp hEffect with hCharge | hObserved
    · unfold RecordCtx.charges at hCharge
      split at hCharge
      · cases List.mem_singleton.mp hCharge
        rfl
      · cases hCharge
    · cases List.mem_singleton.mp hObserved
      rfl
  observed := by
    unfold RecordCtx.finishNow RecordCtx.charges
    split <;> rfl
  later := by
    intro e he
    rcases List.mem_append.mp he with hRollup | hCapture
    · obtain ⟨subject, -, rfl⟩ := List.mem_map.mp hRollup
      exact ⟨rfl, rfl⟩
    · cases List.mem_singleton.mp hCapture
      exact ⟨rfl, rfl⟩

theorem deeds_eq (rctx : RecordCtx) (turn : Turn) (captured : List UInt8) :
    rctx.deeds turn captured = (rctx.finishNow turn).map .effect ++
      .effect (.telemetry (rctx.telemetry turn)) ::
        ((rctx.subjects.map fun subject => .effect (.rollup (rctx.rollup turn.usage subject))) ++
          [.capture (rctx.logRecord turn) captured]) := by
  simp [RecordCtx.deeds, RecordCtx.writes]

/-- Where a turn may be suspended: what it sends is due, and if it is dropped there
it is recorded once, unless it is dropped with the row being written. -/
structure May (s : Trace) (q : Query) : Prop where
  due : ∀ d body, q = .send d body → t.Due d body s.attempts
  recorded : q.suspends = true → (t.ends s).countP Deed.isObserved = 1 ∧
    ((t.ends s).countP Deed.isTelemetry = 1 ∨
      (∃ e, q = .perform e ∧ e.isTelemetry = true) ∧ (t.ends s).countP Deed.isTelemetry = 0)

variable {t} {α : Type}

theorem recorded_armed {s : Trace} (hArmed : s.armed = true) (hDid : s.did = []) :
    Recorded (t.ends s) := by
  rw [ends, if_pos hArmed, hDid]
  exact ⟨rfl, rfl⟩

theorem may_armed {s : Trace} {q : Query} (hArmed : s.armed = true) (hDid : s.did = [])
    (hDue : ∀ d body, q = .send d body → t.Due d body s.attempts) : t.May s q where
  due := hDue
  recorded := fun _ => ⟨(recorded_armed hArmed hDid).1, Or.inl (recorded_armed hArmed hDid).2⟩

theorem performAll_wp {p : Work α} {post : Except Error α → Trace → Prop} {deeds : List Deed} {s : Trace}
    (hMay : ∀ before e after, deeds = before ++ e :: after →
      t.May { s with did := s.did ++ before } (.perform e))
    (hEnd : p.wp t.May Answers post { s with did := s.did ++ deeds }) :
    (performAll p deeds).wp t.May Answers post s := by
  induction deeds generalizing s with
  | nil =>
      rw [List.append_nil] at hEnd
      exact hEnd
  | cons e rest ih =>
      have hFirst := hMay [] e rest rfl
      rw [List.append_nil] at hFirst
      refine ⟨hFirst, fun a s' hAnswer => ?_⟩
      cases hAnswer
      apply ih
      · intro before e' after hRest
        have hLater := hMay (e :: before) e' after (congrArg (List.cons e) hRest)
        rw [List.append_cons] at hLater
        exact hLater
      · rw [List.append_cons] at hEnd
        exact hEnd

/-- The guard is put aside, and the turn recorded. -/
theorem closing_wp {p : Work α} {post : Except Error α → Trace → Prop} {now later : List Deed}
    {record : TelemetryRecord} {s : Trace} (hPlan : Plan now record later) (hArmed : s.armed = true)
    (hDid : s.did = []) (hEnd : p.wp t.May Answers post
      { s with armed := false, did := now ++ .effect (.telemetry record) :: later }) :
    (query .disarm fun _ => performAll p (now ++ .effect (.telemetry record) :: later)).wp
      t.May Answers post s := by
  refine ⟨may_armed hArmed hDid (fun _ _ h => by cases h), fun a s' hAnswer => ?_⟩
  cases hAnswer
  apply performAll_wp
  · intro before e after hAt
    refine ⟨(fun _ _ h => by cases h), fun hSuspends => ?_⟩
    show (s.did ++ before).countP _ = 1 ∧ ((s.did ++ before).countP _ = 1 ∨ _ ∧ (s.did ++ before).countP _ = 0)
    rw [hDid, List.nil_append]
    obtain ⟨hObserved, hTelemetry⟩ := hPlan.cut hAt hSuspends
    exact ⟨hObserved, hTelemetry.imp_right (And.imp_left fun h => ⟨e, rfl, h⟩)⟩
  · show p.wp t.May Answers post { s with armed := false, did := s.did ++ _ }
    rw [hDid]
    exact hEnd

theorem readBodyMessage_wp {post : Except Error Str → Trace → Prop} {body : ResponseBody} {s : Trace}
    (hArmed : s.armed = true) (hDid : s.did = [])
    (hEnd : ∀ message, MessageOf body message → post (.ok message) s) :
    (readBodyMessage body).wp t.May Answers post s := by
  cases body with
  | full bytes => exact hEnd _ rfl
  | stream =>
      refine ⟨may_armed hArmed hDid (fun _ _ h => by cases h), fun items s' hAnswer => ?_⟩
      cases hAnswer
      exact hEnd _ ⟨items, rfl⟩

theorem readBytes_wp {post : Except Error (List UInt8) → Trace → Prop} {body : ResponseBody} {s : Trace}
    (hArmed : s.armed = true) (hDid : s.did = [])
    (hEnd : ∀ bytes, BytesOf body bytes → post (.ok bytes) s) :
    (readBytes body).wp t.May Answers post s := by
  cases body with
  | full bytes => exact hEnd _ rfl
  | stream =>
      apply wp_bind.mpr
      apply readBodyMessage_wp hArmed hDid
      intro message hMessage
      exact hEnd _ ⟨message, hMessage, rfl⟩

/-! ### The candidates in turn -/

/-- What holds of a turn that is over. -/
def Over (t : Endpoint K) (r : Except Error BufferedReply) (s : Trace) : Prop :=
  t.Outcome s.attempts r s.did s.armed ∧ Recorded (t.ends s)

/-- The guard records the failure. -/
theorem fail_wp {e : Error} {s : Trace} (hArmed : s.armed = true) (hDid : s.did = [])
    (hOutcome : t.Outcome s.attempts (.error e) (t.guardDeeds e.httpStatus) false) :
    (t.fail e).wp t.May Answers t.Over s := by
  apply closing_wp (t.plan_guard e.httpStatus) hArmed hDid
  exact ⟨hOutcome, (t.plan_guard _).recorded_with fun _ h => h⟩

theorem commit_wp {d : Deployment} {turn : Turn} {captured : List UInt8} {p : Work BufferedReply} {s : Trace}
    (hArmed : s.armed = true) (hDid : s.did = [])
    (hEnd : p.wp t.May Answers t.Over
      { s with armed := false, did := (t.recordCtx d).deeds turn captured }) :
    (t.commit d turn captured p).wp t.May Answers t.Over s := by
  unfold commit
  rw [deeds_eq] at hEnd ⊢
  exact closing_wp (plan_deeds _ turn captured) hArmed hDid hEnd

theorem recorded_deeds {d : Deployment} {turn : Turn} {captured : List UInt8} :
    Recorded ((t.recordCtx d).deeds turn captured) := by
  rw [deeds_eq]
  exact (plan_deeds _ turn captured).recorded_with fun _ h => h

theorem Tried.of_none {ds : List Deployment} {attempts : List Attempt} (h : t.Tried ds attempts none) :
    ds = [] ∧ attempts = [] := by
  cases h
  exact ⟨rfl, rfl⟩

/-- What is left to try, and what came of the candidates before. -/
structure Trying (t : Endpoint K) (ds rest : List Deployment) (lastErr : Option Error) (s : Trace) : Prop where
  serving : t.serving = ds ++ rest.filter fun d => (t.kind d.upstreamFormat).isSome
  tried : t.Tried ds s.attempts lastErr
  armed : s.armed = true
  did : s.did = []

/-- A candidate is asked. -/
theorem ask_wp {ds rest : List Deployment} {d : Deployment} {k : K} {lastErr : Option Error}
    {body : List UInt8} {s : Trace} {post : Except Error (Except Error HeadedResponse) → Trace → Prop}
    (h : t.Trying ds (d :: rest) lastErr s) (hKind : t.kind d.upstreamFormat = some k)
    (hEmit : t.emitRequest k d = .ok body)
    (hEnd : ∀ now a, t.Asked d now a → post (.ok a) { s with attempts := s.attempts ++ now }) :
    (t.ask d body).wp t.May Answers post s := by
  have hServing : t.serving = ds ++ d :: rest.filter fun d => (t.kind d.upstreamFormat).isSome := by
    rw [h.serving, List.filter_cons_of_pos (by rw [hKind]; rfl)]
  refine ⟨may_armed h.armed h.did ?_, fun a s₁ hFirst => ?_⟩
  · intro d' body' hSend
    cases hSend
    exact ⟨ds, _, s.attempts, lastErr, k, hServing, h.tried, hKind, hEmit, Or.inl rfl⟩
  · cases hFirst
    have hOnce (hKept : t.asksAgain = true → ∀ message, a ≠ Except.error (.connectionLost message)) :
        post (.ok a) (s.after (.send d body) a) := hEnd _ _ (.once hKept)
    cases a with
    | ok resp => exact hOnce fun _ _ hLost => by cases hLost
    | error e =>
        cases e with
        | connectionLost message =>
            show (if t.asksAgain then query (.send d body) done
              else done (.error (.connectionLost message))).wp t.May Answers post _
            split
            · next hAgain =>
                refine ⟨may_armed h.armed h.did ?_, fun b s₂ hSecond => ?_⟩
                · intro d' body' hSend
                  cases hSend
                  exact ⟨ds, _, s.attempts, lastErr, k, hServing, h.tried, hKind, hEmit,
                    Or.inr ⟨hAgain, message, rfl⟩⟩
                · cases hSecond
                  have hTwice := hEnd [(d, .error (.connectionLost message)), (d, b)] b (.again hAgain)
                  rw [List.append_cons] at hTwice
                  exact hTwice
            · next hNot => exact hOnce fun hAgain => absurd hAgain hNot
        | _ => exact hOnce fun _ _ hLost => by cases hLost

/-- An answer of the candidate that is asked. -/
theorem answered_wp {ds rest : List Deployment} {d : Deployment} {k : K} {lastErr : Option Error}
    {now : List Attempt} {a : Except Error HeadedResponse} {next : Error → Work BufferedReply} {s : Trace}
    (h : t.Trying ds (d :: rest) lastErr s) (hKind : t.kind d.upstreamFormat = some k)
    (hAsked : t.Asked d now a)
    (hNext : ∀ e, t.Trying (ds ++ [d]) rest (some e) { s with attempts := s.attempts ++ now } →
      (next e).wp t.May Answers t.Over { s with attempts := s.attempts ++ now }) :
    (t.answered k d next a).wp t.May Answers t.Over { s with attempts := s.attempts ++ now } := by
  have hServing : t.serving = ds ++ d :: rest.filter fun d => (t.kind d.upstreamFormat).isSome := by
    rw [h.serving, List.filter_cons_of_pos (by rw [hKind]; rfl)]
  have hPassed (e : Error) (hPassed : PassedOver d a e) :
      (next e).wp t.May Answers t.Over { s with attempts := s.attempts ++ now } :=
    hNext e ⟨by rw [hServing]; simp, .next h.tried hAsked hPassed, h.armed, h.did⟩
  have hArmed : Trace.armed { s with attempts := s.attempts ++ now } = true := h.armed
  have hDid : Trace.did { s with attempts := s.attempts ++ now } = [] := h.did
  cases a with
  | error e => exact hPassed e (.unreached e)
  | ok resp =>
      have hAnswered : t.Answered k d resp (s.attempts ++ now) :=
        ⟨hKind, ds, _, s.attempts, now, lastErr, hServing, h.tried, hAsked, rfl⟩
      unfold answered
      dsimp only
      split
      · next hSuccess =>
          apply wp_bind.mpr
          apply readBytes_wp hArmed hDid
          intro bytes hBytes
          show (t.serve k d resp bytes).wp _ _ _ _
          unfold serve
          split
          · next e hAccept =>
              refine ⟨?_, recorded_armed hArmed hDid⟩
              show t.Outcome (s.attempts ++ now) _ s.did s.armed
              rw [h.armed, h.did]
              exact .unread hAnswered hSuccess hBytes hAccept
          · next served hAccept =>
              apply commit_wp hArmed hDid
              exact ⟨.served hAnswered hSuccess hBytes hAccept, recorded_deeds⟩
      · next hFails =>
          have hFails : isSuccess resp.status = false := by simpa using hFails
          apply wp_bind.mpr
          apply readBodyMessage_wp hArmed hDid
          intro message hMessage
          show (t.refuse d resp.status next message).wp _ _ _ _
          unfold refuse
          dsimp only
          split
          · next hAgain => exact hPassed _ (.retryable hFails hAgain hMessage)
          · next hFinal =>
              apply commit_wp hArmed hDid
              refine ⟨.refused hAnswered hFails ?_ hMessage, recorded_deeds⟩
              simpa using hFinal

theorem dispatch_wp {ds rest : List Deployment} {lastErr : Option Error} {otherKind : Bool} {s : Trace}
    (h : t.Trying ds rest lastErr s) (hOther : otherKind = lastErr.isNone) :
    (t.dispatch lastErr otherKind rest).wp t.May Answers t.Over s := by
  induction rest generalizing ds lastErr otherKind s with
  | nil =>
      apply fail_wp h.armed h.did
      have hServing : t.serving = ds := by rw [h.serving, List.filter_nil, List.append_nil]
      cases lastErr with
      | none =>
          subst hOther
          obtain ⟨rfl, hNone⟩ := h.tried.of_none
          rw [hNone]
          exact .otherKinds hServing
      | some e =>
          subst hOther
          exact .exhausted (hServing ▸ h.tried)
  | cons d rest ih =>
      unfold dispatch
      cases hKind : t.kind d.upstreamFormat with
      | none =>
          have hRest : t.Trying ds rest lastErr s := by
            refine ⟨?_, h.tried, h.armed, h.did⟩
            rw [h.serving, List.filter_cons_of_neg (by rw [hKind]; exact Bool.false_ne_true)]
          exact ih hRest hOther
      | some k =>
          dsimp only
          cases hEmit : t.emitRequest k d with
          | error e =>
              apply fail_wp h.armed h.did
              have hServing : t.serving =
                  ds ++ d :: rest.filter fun d => (t.kind d.upstreamFormat).isSome := by
                rw [h.serving, List.filter_cons_of_pos (by rw [hKind]; rfl)]
              exact .unemitted hServing h.tried hKind hEmit
          | ok body =>
              apply wp_bind.mpr
              apply ask_wp h hKind hEmit
              intro now a hAsked
              exact answered_wp h hKind hAsked fun e hTrying => ih hTrying rfl

theorem handle_wp : t.handle.wp t.May Answers t.Over {} := by
  unfold handle
  cases hResolved : t.resolved with
  | error e => exact fail_wp rfl rfl (.unresolved hResolved)
  | ok candidates =>
      dsimp only
      split
      · next hNone =>
          exact fail_wp rfl rfl (.refusedAll hResolved (List.isEmpty_iff.mp hNone))
      · have hServing : t.serving =
            [] ++ (filterAccess candidates t.ctx).filter fun d => (t.kind d.upstreamFormat).isSome := by
          rw [serving, hResolved, List.nil_append]
        exact dispatch_wp ⟨hServing, .start, rfl, rfl⟩ rfl

/-! ### Turns -/

/-- However the candidates answer: a request goes to the candidates that the caller
may use and that are of the kind, in their order and to each as it takes it, a
second time only after a lost connection, and to none before those ahead of it were
passed over; and what the client gets and what is recorded follow from what the
attempts came to. -/
theorem handle_attempts {rest : Work BufferedReply} {s : Trace} (h : Within Answers t.handle {} rest s) :
    (∀ d body next, rest = query (.send d body) next → t.Due d body s.attempts) ∧
      ∀ r, rest.result? = some r → t.Outcome s.attempts r s.did s.armed := by
  have hRest := h.wp handle_wp
  constructor
  · rintro d body next rfl
    exact hRest.1.due d body rfl
  · intro r hResult
    exact ((h.runs_of_result hResult).of_wp handle_wp).1

theorem Deed.eq_telemetry {e : Deed} (h : e.isTelemetry = true) : ∃ record, e = .effect (.telemetry record) := by
  unfold Deed.isTelemetry at h
  split at h
  · exact ⟨_, rfl⟩
  · cases h

/-- The metrics note a turn once, and it has one row, whatever the candidates answer
and wherever the client hangs up. There is no row only where it hangs up while the
row is being written. -/
theorem handle_recorded {rest : Work BufferedReply} {s : Trace} (h : Within Answers t.handle {} rest s)
    (hStops : ∀ q next, rest = query q next → q.suspends = true) :
    (t.ends s).countP Deed.isObserved = 1 ∧ ((t.ends s).countP Deed.isTelemetry = 1 ∨
      (∃ record next, rest = query (.perform (.effect (.telemetry record))) next) ∧
        (t.ends s).countP Deed.isTelemetry = 0) := by
  have hRest := h.wp handle_wp
  cases rest with
  | done a => exact ⟨hRest.2.1, Or.inl hRest.2.2⟩
  | fail e => exact ⟨hRest.2.1, Or.inl hRest.2.2⟩
  | query q next =>
      obtain ⟨hObserved, hTelemetry⟩ := hRest.1.recorded (hStops q next rfl)
      refine ⟨hObserved, hTelemetry.imp_right ?_⟩
      rintro ⟨⟨e, rfl, hWrites⟩, hNone⟩
      obtain ⟨record, rfl⟩ := Deed.eq_telemetry hWrites
      exact ⟨⟨record, next, rfl⟩, hNone⟩

end

/-- Images from two deployments. -/
def sampleImages : Endpoint Unit :=
  handleMedia (fun _ => .wire []) .openaiImages ⟨"m".toList, none⟩ (Text.toUtf8 "{}".toList)
    { access := {}, excludedModelIds := [], excludedProviderIds := [] } 0
    (.ok [{ modelId := "a".toList, providerId := "p".toList, upstreamFormat := .media .openaiImages },
      { modelId := "b".toList, providerId := "p".toList, upstreamFormat := .media .openaiImages }])

/-- The first deployment is overloaded. -/
def overloaded (q : Query) (s : Trace) : q.Answer × Trace :=
  let a : q.Answer := match q with
    | .send d _ => .ok { status := if d.modelId = "a".toList then 503 else 200, body := .full [] }
    | .drain => ([] : List Item)
    | .disarm | .perform _ => ()
  (a, s.after q a)

theorem sampleImages_within : ∃ rest,
    Within Answers sampleImages.handle {} rest (sampleImages.handle.run overloaded {}).2 ∧
      rest.result? = some (sampleImages.handle.run overloaded {}).1 := by
  have hRuns : Runs Answers sampleImages.handle {} (sampleImages.handle.run overloaded {}).1
      (sampleImages.handle.run overloaded {}).2 := run_runs (fun _ _ => rfl) _ _
  exact hRuns.within

theorem sampleImages_attempts : ∃ (rest : Work BufferedReply) (s : Trace), s.attempts.length = 2 ∧
    (∀ d body next, rest = query (.send d body) next → sampleImages.Due d body s.attempts) ∧
      ∀ r, rest.result? = some r → sampleImages.Outcome s.attempts r s.did s.armed := by
  obtain ⟨rest, hWithin, -⟩ := sampleImages_within
  exact ⟨rest, _, by decide +kernel, handle_attempts hWithin⟩

theorem sampleImages_recorded : ∃ (rest : Work BufferedReply) (s : Trace), rest.result?.isSome = true ∧
    (sampleImages.ends s).countP Deed.isObserved = 1 ∧
      ((sampleImages.ends s).countP Deed.isTelemetry = 1 ∨
        (∃ record next, rest = query (.perform (.effect (.telemetry record))) next) ∧
          (sampleImages.ends s).countP Deed.isTelemetry = 0) := by
  obtain ⟨rest, hWithin, hResult⟩ := sampleImages_within
  refine ⟨rest, _, by rw [hResult]; rfl, handle_recorded hWithin ?_⟩
  intro q next hQuery
  rw [hQuery] at hResult
  cases hResult

end Gateway.Service.Endpoint
