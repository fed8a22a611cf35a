import Gateway.Reqlog.Forget

/-! What a capture policy keeps out of the request log. The policy is asked when a
turn is logged, and not when it is flushed, sealed or exported. -/
namespace Gateway.Reqlog

open Json Store Program

/-- What an act offers to the log under the policy in force. -/
def Act.offers (policy : CapturePolicy) : Act → List (RequestLogRecord × CapturePolicy)
  | .log r => [(r, policy)]
  | _ => []

/-- The policy in force after an act. A process that starts again captures nothing
until it is told to. -/
def Act.policyAfter (cfg : ReqlogConfig) (policy : CapturePolicy) : Act → CapturePolicy
  | .applyPolicy policy => policy
  | .crash _ => { enabled := false, retentionDays := cfg.retentionDays }
  | _ => policy

/-- The records of the calls of `log`, each with the policy in force. -/
def offered (cfg : ReqlogConfig) (policy : CapturePolicy) : List Act → List (RequestLogRecord × CapturePolicy)
  | [] => []
  | act :: rest => act.offers policy ++ offered cfg (act.policyAfter cfg policy) rest

section

variable (cfg : ReqlogConfig) (redactBody : List UInt8 → List UInt8)

/-- A row is one of `old`, or that of a record which was offered while capture was
on, as the policy then in force redacts it. -/
def Allowed (old : List Turn) (calls : Nat) (offers : List (RequestLogRecord × CapturePolicy))
    (t : Turn) : Prop :=
  t ∈ old ∨ calls ≤ t.call ∧ ∃ r policy, offers[t.call - calls]? = some (r, policy) ∧
    policy.enabled = true ∧ t = rowOf cfg t.id (t.call, redact redactBody policy.redaction r)

/-- All rows that have left the queue are allowed, and all that will. -/
structure Policed (old : List Turn) (calls : Nat) (offers : List (RequestLogRecord × CapturePolicy))
    (l : DuckLogger) : Prop where
  count : l.calls = calls + offers.length
  left : Left cfg (Allowed cfg redactBody old calls offers) l
  queued : ∀ call r, .record call r ∈ l.queue →
    OfRecords cfg (Allowed cfg redactBody old calls offers) [(call, r)]

end

section

variable {cfg : ReqlogConfig} {redactBody : List UInt8 → List UInt8} {old : List Turn} {calls : Nat}
  {offers : List (RequestLogRecord × CapturePolicy)} {l l' : DuckLogger}

theorem Allowed.later {t : Turn} (h : Allowed cfg redactBody old calls offers t)
    (more : List (RequestLogRecord × CapturePolicy)) :
    Allowed cfg redactBody old calls (offers ++ more) t := by
  apply h.imp_right
  rintro ⟨hCalls, r, policy, hOffer, hRest⟩
  exact ⟨hCalls, r, policy, List.getElem?_append_left (List.getElem?_eq_some_iff.mp hOffer).1 ▸ hOffer, hRest⟩

theorem allowed_last {id : Nat} {r : RequestLogRecord} {policy : CapturePolicy}
    (hEnabled : policy.enabled = true) : Allowed cfg redactBody old calls (offers ++ [(r, policy)])
      (rowOf cfg id (calls + offers.length, redact redactBody policy.redaction r)) := by
  apply Or.inr
  refine ⟨Nat.le_add_right _ _, r, policy, ?_, hEnabled, rfl⟩
  show (offers ++ [(r, policy)])[calls + offers.length - calls]? = _
  simp

theorem Policed.offer (h : Policed cfg redactBody old calls offers l) (r : RequestLogRecord) :
    Policed cfg redactBody old calls (offers ++ [(r, l.policy)]) (l.logRecord cfg redactBody r) := by
  have hLater (t : Turn) (ht : Allowed cfg redactBody old calls offers t) :
      Allowed cfg redactBody old calls (offers ++ [(r, l.policy)]) t := ht.later _
  have hStill {queue : List Msg} {dropped : Nat} (hQueue : ∀ call r', .record call r' ∈ queue →
      .record call r' ∈ l.queue ∨ OfRecords cfg
        (Allowed cfg redactBody old calls (offers ++ [(r, l.policy)])) [(call, r')]) :
      Policed cfg redactBody old calls (offers ++ [(r, l.policy)])
        { l with calls := l.calls + 1, dropped := dropped, queue := queue } := by
    refine ⟨?_, ⟨(h.left.mono hLater).held, (h.left.mono hLater).idle, (h.left.mono hLater).busy⟩, ?_⟩
    · show l.calls + 1 = _
      rw [h.count, List.length_append]
      rfl
    · intro call r' hMem
      rcases hQueue call r' hMem with hOld | hNew
      · exact fun x hx id => hLater _ (h.queued call r' hOld x hx id)
      · exact hNew
  unfold DuckLogger.logRecord
  dsimp only
  split
  · next hEnabled =>
      split
      · exact hStill fun _ _ => Or.inl
      · split
        · apply hStill
          intro call r' hMem
          rcases List.mem_append.mp hMem with hOld | hNew
          · exact Or.inl hOld
          · cases List.mem_singleton.mp hNew
            apply Or.inr
            intro x hx id
            cases List.mem_singleton.mp hx
            rw [h.count]
            exact allowed_last hEnabled
        · exact hStill fun _ _ => Or.inl
  · exact hStill fun _ _ => Or.inl

/-- An act other than `log` offers nothing. -/
theorem Policed.other {act : Act} (h : Policed cfg redactBody old calls offers l)
    (hStep : l.step cfg redactBody act = some l') (hCalls : l'.calls = l.calls)
    (hQueue : ∀ call r, .record call r ∈ l'.queue → .record call r ∈ l.queue) :
    Policed cfg redactBody old calls offers l' where
  count := hCalls.trans h.count
  left := by
    apply h.left.step _ hStep
    intro call r rest hAll _
    apply h.queued
    rw [hAll]
    exact List.mem_cons_self
  queued := fun call r hMem => h.queued call r (hQueue call r hMem)

theorem Policed.step {act : Act} (h : Policed cfg redactBody old calls offers l)
    (hStep : l.step cfg redactBody act = some l') :
    Policed cfg redactBody old calls (offers ++ act.offers l.policy) l' := by
  have hOther (hNone : act.offers l.policy = []) (hCalls : l'.calls = l.calls)
      (hQueue : ∀ call r, .record call r ∈ l'.queue → .record call r ∈ l.queue) :
      Policed cfg redactBody old calls (offers ++ act.offers l.policy) l' := by
    rw [hNone, List.append_nil]
    exact h.other hStep hCalls hQueue
  by_cases hLog : ∃ r, act = .log r
  · obtain ⟨r, rfl⟩ := hLog
    cases hStep
    exact h.offer r
  · cases DuckLogger.step_stepped hStep with
    | logged => exact absurd ⟨_, rfl⟩ hLog
    | applied | timedOut | called | replied | read | restarted => exact hOther rfl rfl fun _ _ => id
    | stopped | crashed => exact hOther rfl rfl fun _ _ hMem => absurd hMem List.not_mem_nil
    | @taken w m rest hPhase hQueue =>
        apply hOther rfl rfl
        intro call r hMem
        rw [hQueue]
        exact List.mem_cons_of_mem _ hMem
    | @sent m hSendable =>
        apply hOther rfl rfl
        intro call r hMem
        rcases List.mem_append.mp hMem with hOld | hNew
        · exact hOld
        · have hRecord := List.mem_singleton.mp hNew
          cases m <;> cases hRecord
          cases hSendable

theorem policy_step {act : Act} (hStep : l.step cfg redactBody act = some l') :
    l'.policy = act.policyAfter cfg l.policy := by
  cases DuckLogger.step_stepped hStep <;> rfl

theorem Policed.run {acts : List Act} (h : Policed cfg redactBody old calls offers l)
    (hRun : l.run cfg redactBody acts = some l') :
    Policed cfg redactBody old calls (offers ++ offered cfg l.policy acts) l' := by
  induction acts generalizing l offers with
  | nil =>
      cases hRun
      rw [offered, List.append_nil]
      exact h
  | cons act rest ih =>
      obtain ⟨l₁, hStep, hRest⟩ := Option.bind_eq_some_iff.mp hRun
      have hNext := ih (h.step hStep) hRest
      rw [policy_step hStep, List.append_assoc] at hNext
      exact hNext

theorem policed_new {disk : Disk} : Policed cfg redactBody disk.held calls [] (.new cfg disk calls) where
  count := rfl
  left := ⟨fun _ ht => Or.inl ht, fun _ hw => Phase.noConfusion hw,
    fun _ _ hBusy => Phase.noConfusion hBusy⟩
  queued := fun _ _ hMem => absurd hMem List.not_mem_nil

/-- A turn that an export returns was on the disk before, or it is what the policy
in force when it was logged let through: nothing of what was offered while capture
was off, and of the rest the bodies as they are redacted, however the policy changed
and wherever the process died between then and now. -/
theorem export_allowed {disk : Disk} {acts : List Act} {i : Nat} {env : Env} {f : CaptureFilter}
    {turns : List CapturedTurn}
    (hRun : (DuckLogger.new cfg disk calls).run cfg redactBody acts = some l)
    (hReturned : l.returned i env = some (f, turns)) : ∀ turn ∈ turns,
      (∃ t ∈ disk.held, turn = t.captured) ∨ calls ≤ turn.call ∧ ∃ r policy id,
        (offered cfg (DuckLogger.new cfg disk calls).policy acts)[turn.call - calls]? =
            some (r, policy) ∧ policy.enabled = true ∧
          turn = (rowOf cfg id (turn.call, redact redactBody policy.redaction r)).captured := by
  intro turn hTurn
  have hCandid : l.Candid := DuckLogger.candid_new.run hRun
  obtain ⟨files, -, rfl⟩ := hCandid.returned hReturned
  obtain ⟨t, hScan, -, rfl⟩ := mem_select hTurn
  have hHeld : t ∈ l.log.disk.held := by
    rcases List.mem_append.mp ((env.scan_perm _).mem_iff.mp hScan) with hTable | hSealed
    · exact Disk.mem_held.mpr (Or.inl hTable)
    · obtain ⟨stamp, -, hMem⟩ := List.mem_flatMap.mp hSealed
      exact Disk.sealed_held hMem
  rcases (policed_new.run hRun).left.held t hHeld with hOld | ⟨hCalls, r, policy, hOffer, hEnabled, hRow⟩
  · exact Or.inl ⟨t, hOld, rfl⟩
  · refine Or.inr ⟨hCalls, r, policy, t.id, hOffer, hEnabled, ?_⟩
    exact congrArg Turn.captured hRow

end

/-- A turn is logged for its metadata alone, and another after capture is off. -/
def turnsOff : List Act :=
  opened 0 ++ .applyPolicy ⟨true, .metadataOnly, 30⟩ :: loggedFor [1] 1000 ++
    [.applyPolicy ⟨false, .none, 30⟩, .log (sampleRecord [2] 2000)] ++ listing 3000

theorem turns_off_allowed : ∃ turns : List CapturedTurn, turns.length = 1 ∧ ∀ turn ∈ turns,
    (∃ t ∈ Disk.held {}, turn = t.captured) ∨ 0 ≤ turn.call ∧ ∃ r policy n,
      (offered {} (DuckLogger.new {} {} 0).policy turnsOff)[turn.call - 0]? = some (r, policy) ∧
        policy.enabled = true ∧
          turn = (rowOf {} n (turn.call, redact id policy.redaction r)).captured := by
  have hCounted : counted turnsOff (.calm 4000) = (some ({}, 1), 1) := by decide +kernel
  have hFirst : ((stands turnsOff).returned 0 (.calm 4000)).map (fun r => (r.1, r.2.length)) =
      some ({}, 1) := congrArg Prod.fst hCounted
  obtain ⟨⟨f, turns⟩, hReturned, hLength⟩ := Option.map_eq_some_iff.mp hFirst
  refine ⟨turns, (Prod.ext_iff.mp hLength).2, ?_⟩
  have hRun : (DuckLogger.new {} {} 0).run {} id turnsOff = some (stands turnsOff) :=
    run_stands (by decide +kernel)
  exact export_allowed hRun hReturned

end Gateway.Reqlog
