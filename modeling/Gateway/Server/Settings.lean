import Gateway.Exclusion
import Gateway.Server.Admin.Api

/-! The capture policy and the log level. A change keeps the new one and has the
process run by it, under one lock and on a task of its own, so that a caller who
hangs up leaves it to finish. -/
namespace Gateway.Server

open Json Store Program Handler

/-- What a change works on: the database, and how the process runs. -/
structure Running where
  db : Db
  policy : CapturePolicy
  /-- None while the process logs as it started. -/
  level : Option LogLevel := none
  /-- Whether the process has refused to log as the database says. -/
  refused : Bool := false

inductive Change where
  | policy (policy : CapturePolicy)
  | level (level : LogLevel)
  deriving DecidableEq

/-- What `put_policy` does on its task. -/
def changePolicy (policy : CapturePolicy) : Handler Reply := do
  store (.setCapturePolicy policy)
  outside (.applyPolicy policy)
  pure (.policy policy)

/-- What `put_level` does on its task. A level is applied before it is kept, and
taken back if it cannot be kept. -/
def changeLevel (level : LogLevel) : Handler Reply := do
  let before ← store .logLevel
  ofExcept (← outside (.applyLevel level))
  match ← tryStore (.setLogLevel level) with
  | .ok () => pure (.level (some level))
  | .error e =>
      match before with
      | some before => discard (outside (.applyLevel before))
      | none => discard (outside .resetLevel)
      fail e

def Change.body : Change → Handler Reply
  | policy p => changePolicy p
  | level l => changeLevel l

/-- The handlers check who asks, and for what, and then make the change. -/
theorem putPolicy_eq (p : Principal) (policy : CapturePolicy) :
    putPolicy p policy = (do
      require p.isAdmin captureRefused
      if policy.enabled then
        let available ← outside .captures
        require available
          (.conflict "capture needs the request log: set [reqlog] enabled = true".toList)
      else pure ()
      changePolicy policy) := rfl

theorem putLevel_eq (p : Principal) (level : LogLevel) :
    putLevel p level = (do
      require p.isAdmin levelRefused
      changeLevel level) := rfl

namespace Running

section

variable (captures : Bool)

/-- The process does as it is told, or refuses. A process without a request log
captures nothing whatever it is told. -/
def told (env : Env) (s : Running) : Outside → Running
  | .applyPolicy policy => if captures then { s with policy := policy } else s
  | .applyLevel level =>
      match env.outside (.applyLevel level) with
      | .ok _ => { s with level := some level }
      | .error _ => { s with refused := s.refused || decide (s.db.logLevel = some level) }
  | .resetLevel =>
      match env.outside .resetLevel with
      | .ok _ => { s with level := none }
      | .error _ => { s with refused := s.refused || decide (s.db.logLevel = none) }
  | _ => s

def after (env : Env) (q : Query) (s : Running) : Running :=
  match q with
  | .outside o => s.told captures env o
  | q => { s with db := (env.answer q s.db).2 }

/-- Before an operator sets a policy, capture is off and the configuration says for
how long a turn is kept. -/
def unset (retentionDays : Nat) : CapturePolicy := { retentionDays := retentionDays }

/-- A process starts by the settings in the database. -/
def boot (retentionDays : Nat) (applied : Bool) (db : Db) : Running where
  db := db
  policy := if captures then db.capturePolicy.getD (unset retentionDays) else {}
  level := if applied then db.logLevel else none
  refused := !applied && db.logLevel.isSome

end

end Running

/-- An answer that a change may get, and the settings after it. -/
def Changes (captures : Bool) (q : Query) (s : Running) (a : q.Answer) (s' : Running) : Prop :=
  ∃ env : Env, a = (env.answer q s.db).1 ∧ s' = s.after captures env q

/-- The policy that is kept after a change that is over. -/
def keepPolicy (kept : Option CapturePolicy) : Change × Except Error Reply → Option CapturePolicy
  | (.policy p, .ok _) => some p
  | _ => kept

def keepLevel (kept : Option LogLevel) : Change × Except Error Reply → Option LogLevel
  | (.level l, .ok _) => some l
  | _ => kept

/-! ### One change -/

section

variable {captures : Bool} {s s' : Running}

theorem Changes.store {st : Statement} {a : Except Error st.Result}
    (h : Changes captures (.store st) s a s') :
    (∃ e, a = .error e ∧ s' = s) ∨ ∃ now db, st.execute now s.db = (a, db) ∧ s' = { s with db } := by
  obtain ⟨env, hAnswer, rfl⟩ := h
  have hAnswers : Answers (.store st) s.db a (env.answer (.store st) s.db).2 :=
    ⟨env, by rw [hAnswer]⟩
  rcases hAnswers.store with ⟨e, rfl, hSame⟩ | ⟨now, hExecute⟩
  · refine .inl ⟨e, rfl, ?_⟩
    show { s with db := (env.answer (.store st) s.db).2 } = s
    rw [hSame]
  · exact .inr ⟨now, _, hExecute, rfl⟩

theorem Changes.outside {o : Outside} {a : o.Result} (h : Changes captures (.outside o) s a s') :
    ∃ env : Env, a = env.outside o ∧ s' = s.told captures env o := h

/-- A statement whose failure ends the change. -/
theorem wp_change_store {st : Statement} {f : st.Result → Handler Reply} {may : Running → Query → Prop}
    {post : Except Error Reply → Running → Prop} (hMay : may s (.store st))
    (hOutage : ∀ e, post (.error e) s)
    (hNext : ∀ now v db, st.execute now s.db = (.ok v, db) →
      (f v).wp may (Changes captures) post { s with db })
    (hFails : ∀ now e db, st.execute now s.db ≠ (.error e, db)) :
    (store st >>= f).wp may (Changes captures) post s := by
  refine ⟨hMay, fun a s' h => ?_⟩
  rcases h.store with ⟨e, rfl, rfl⟩ | ⟨now, db, hExecute, rfl⟩
  · exact hOutage e
  · cases a with
    | ok v => exact hNext now v db hExecute
    | error e => exact absurd hExecute (hFails now e db)

/-- The settings once a policy is kept and applied. -/
def Running.withPolicy (captures : Bool) (s : Running) (policy : CapturePolicy) : Running :=
  { s with
    db := { s.db with capturePolicy := some policy }
    policy := if captures then policy else s.policy }

/-- A change of the policy is made whole or not at all, and the policy in force is
at every moment the one before or the one after. -/
theorem changePolicy_spec (policy : CapturePolicy) (s : Running) :
    (changePolicy policy).wp (fun s' _ => s'.policy = s.policy ∨ s'.policy = policy)
      (Changes captures)
      (fun r s' => (s'.policy = s.policy ∨ s'.policy = policy) ∧
        ((∃ reply, r = .ok reply ∧ s' = s.withPolicy captures policy) ∨
          ∃ e, r = .error e ∧ s' = s)) s := by
  unfold changePolicy
  refine wp_change_store (.inl rfl) (fun e => ⟨.inl rfl, .inr ⟨e, rfl, rfl⟩⟩) ?_
    (fun _ _ _ h => by cases h)
  rintro now v db ⟨⟩
  refine ⟨.inl rfl, fun a s' h => ?_⟩
  obtain ⟨env, -, rfl⟩ := h.outside
  refine ⟨?_, .inl ⟨_, rfl, ?_⟩⟩
  · cases captures
    · exact .inl rfl
    · exact .inr rfl
  · cases captures <;> rfl

/-- The process logs as the database says, unless it has refused to. -/
def Running.Obeyed (s : Running) : Prop := s.refused = false → s.level = s.db.logLevel

/-- A change of the level leaves the level that is kept in force, the new one where
it is kept and the old one where it is not. -/
theorem changeLevel_spec (level : LogLevel) {s : Running} (hObeyed : s.Obeyed) :
    (changeLevel level).wp (fun s' _ => s'.policy = s.policy) (Changes captures)
      (fun r s' => s'.policy = s.policy ∧ s'.Obeyed ∧
        ((∃ reply, r = .ok reply ∧ s'.db = { s.db with logLevel := some level }) ∨
          ∃ e, r = .error e ∧ s'.db = s.db)) s := by
  unfold changeLevel
  refine wp_change_store rfl (fun e => ⟨rfl, hObeyed, .inr ⟨e, rfl, rfl⟩⟩) ?_
    (fun _ _ _ h => by cases h)
  rintro now before db ⟨⟩
  refine ⟨rfl, fun a s₁ h => ?_⟩
  obtain ⟨env, rfl, rfl⟩ := h.outside
  unfold Running.told
  dsimp only
  cases env.outside (.applyLevel level) with
  | error e =>
      refine ⟨rfl, fun hRefused => hObeyed ?_, .inr ⟨e, rfl, rfl⟩⟩
      exact (Bool.or_eq_false_iff.mp hRefused).1
  | ok _ =>
      refine ⟨rfl, fun written s₂ h => ?_⟩
      rcases h.store with ⟨e, rfl, rfl⟩ | ⟨now, db, hExecute, rfl⟩
      · -- the write failed, and the level of before is asked for again
        cases hBefore : s.db.logLevel with
        | some before =>
            refine ⟨rfl, fun _ s₃ h => ?_⟩
            obtain ⟨env, -, rfl⟩ := h.outside
            unfold Running.told
            dsimp only
            cases env.outside (.applyLevel before) with
            | ok _ => exact ⟨rfl, fun _ => hBefore.symm, .inr ⟨e, rfl, rfl⟩⟩
            | error _ =>
                refine ⟨rfl, fun hRefused => ?_, .inr ⟨e, rfl, rfl⟩⟩
                simp [hBefore] at hRefused
        | none =>
            refine ⟨rfl, fun _ s₃ h => ?_⟩
            obtain ⟨env, -, rfl⟩ := h.outside
            unfold Running.told
            dsimp only
            cases env.outside .resetLevel with
            | ok _ => exact ⟨rfl, fun _ => hBefore.symm, .inr ⟨e, rfl, rfl⟩⟩
            | error _ =>
                refine ⟨rfl, fun hRefused => ?_, .inr ⟨e, rfl, rfl⟩⟩
                simp [hBefore] at hRefused
      · cases hExecute
        exact ⟨rfl, fun _ => rfl, .inl ⟨_, rfl, rfl⟩⟩

end

/-! ### All changes -/

/-- The database keeps what the last change that succeeded asked for, and the
process runs by what the database keeps. -/
structure AsKept (captures : Bool) (retentionDays : Nat) (db : Db)
    (ended : List (Change × Except Error Reply)) (s : Running) : Prop where
  keptPolicy : s.db.capturePolicy = ended.foldl keepPolicy db.capturePolicy
  keptLevel : s.db.logLevel = ended.foldl keepLevel db.logLevel
  policy : captures = true → s.policy = s.db.capturePolicy.getD (Running.unset retentionDays)
  level : s.Obeyed

section

variable {captures : Bool} {retentionDays : Nat} {db : Db}

theorem asKept_boot (applied : Bool) :
    AsKept captures retentionDays db [] (.boot captures retentionDays applied db) where
  keptPolicy := rfl
  keptLevel := rfl
  policy := fun hCaptures => if_pos hCaptures
  level := by
    intro hRefused
    cases applied with
    | true => rfl
    | false =>
        have hNone : db.logLevel = none := by simpa [Running.boot] using hRefused
        exact hNone.symm

theorem AsKept.call {ended : List (Change × Except Error Reply)} {s s' : Running} {c : Change}
    {r : Except Error Reply} (h : AsKept captures retentionDays db ended s)
    (run : Runs (Changes captures) c.body s r s') :
    AsKept captures retentionDays db (ended ++ [(c, r)]) s' := by
  cases c with
  | policy p =>
      obtain ⟨-, ⟨reply, rfl, rfl⟩ | ⟨e, rfl, rfl⟩⟩ := run.of_wp (changePolicy_spec p s)
      · refine ⟨?_, ?_, ?_, h.level⟩
        · rw [List.foldl_append]
          rfl
        · rw [List.foldl_append]
          exact h.keptLevel
        · rintro rfl
          rfl
      · refine ⟨?_, ?_, h.policy, h.level⟩
        · rw [List.foldl_append]
          exact h.keptPolicy
        · rw [List.foldl_append]
          exact h.keptLevel
  | level l =>
      obtain ⟨hPolicy, hObeyed, ⟨reply, rfl, hDb⟩ | ⟨e, rfl, hDb⟩⟩ :=
        run.of_wp (changeLevel_spec l h.level)
      · refine ⟨?_, ?_, ?_, hObeyed⟩
        · rw [List.foldl_append, hDb]
          exact h.keptPolicy
        · rw [List.foldl_append, hDb]
          rfl
        · intro hCaptures
          rw [hPolicy, hDb]
          exact h.policy hCaptures
      · refine ⟨?_, ?_, ?_, hObeyed⟩
        · rw [List.foldl_append, hDb]
          exact h.keptPolicy
        · rw [List.foldl_append, hDb]
          exact h.keptLevel
        · intro hCaptures
          rw [hPolicy, hDb]
          exact h.policy hCaptures

/-- The policies that may be in force while a change is made. -/
def Change.policies (before : CapturePolicy) : Option Change → List CapturePolicy
  | some (.policy p) => [before, p]
  | _ => [before]

end

def sampleCapture : CapturePolicy := { enabled := true }

/-- A policy was set, and nothing else is asked for. -/
def policySet : Turnstile Change Query Query.Answer Error Reply Running where
  state := (Running.boot true 30 true {}).withPolicy true sampleCapture
  ended := [(.policy sampleCapture, .ok (.policy sampleCapture))]

theorem reaches_policySet : Relation.ReflTransGen (Turnstile.Step (Changes true) Change.body)
    { state := .boot true 30 true {} } policySet := by
  have hStored : Changes true (.store (.setCapturePolicy sampleCapture)) (.boot true 30 true {}) (.ok ())
      { Running.boot true 30 true {} with db := { capturePolicy := some sampleCapture } } :=
    ⟨calm, rfl, rfl⟩
  have hApplied : Changes true (.outside (.applyPolicy sampleCapture))
      { Running.boot true 30 true {} with db := { capturePolicy := some sampleCapture } } ()
      ((Running.boot true 30 true {}).withPolicy true sampleCapture) := ⟨calm, rfl, rfl⟩
  exact Turnstile.alone (.query hStored (.query hApplied (.done _ _)))

end Gateway.Server
