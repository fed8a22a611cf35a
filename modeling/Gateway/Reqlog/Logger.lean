import Gateway.Reqlog.Effects

/-! The request log as a whole: calls of `log` and messages queue for the worker,
exports read beside it, and at any moment the process may die and be started
again. -/
namespace Gateway.Reqlog

open Json Store Program

/-- An export that has its connection. -/
structure Export where
  filter : CaptureFilter
  rest : Reading (List CapturedTurn)

inductive Phase where
  | down
  | idle (w : Worker)
  | busy (m : Option Msg) (rest : Work (Option Worker × Reply))

structure DuckLogger where
  log : Log := {}
  policy : CapturePolicy
  /-- How often `log` was called. -/
  calls : Nat := 0
  dropped : Nat := 0
  queue : List Msg := []
  phase : Phase := .down
  exports : List Export := []

def Redaction.asStr : Redaction → Str
  | .patterns => "patterns".toList
  | .metadataOnly => "metadata_only".toList
  | .none => "none".toList

/-- The redaction of a policy, on both bodies. -/
def redact (redactBody : List UInt8 → List UInt8) (redaction : Redaction) (r : RequestLogRecord) :
    RequestLogRecord :=
  let r := { r with redaction := Redaction.asStr redaction }
  match redaction with
  | .none => r
  | .metadataOnly => { r with requestBody := [], responseBody := [] }
  | .patterns =>
      { r with requestBody := redactBody r.requestBody, responseBody := redactBody r.responseBody }

/-- A forget is marked with the calls of `log` that came before it. -/
def Msg.marked (calls : Nat) : Msg → Msg
  | forget keys _ => forget keys calls
  | m => m

/-- Whether others than `log` send it. Nothing is sent for no keys. -/
def Msg.sendable : Msg → Bool
  | record _ _ => false
  | forget keys _ => !keys.isEmpty
  | _ => true

inductive Act where
  | log (r : RequestLogRecord)
  | applyPolicy (policy : CapturePolicy)
  | send (m : Msg)
  /-- The worker takes the next message. -/
  | take
  /-- No message came for a while. -/
  | timeout
  /-- The worker's next call is made. -/
  | work (env : Env)
  /-- The worker replies, and an export gets its connection. -/
  | reply
  /-- The next call of the `i`-th export is made. -/
  | read (i : Nat) (env : Env)
  /-- The process dies, and a copy in progress leaves what it has written. -/
  | crash (partials : Table Shard.stamp)
  | restart

namespace DuckLogger

section

variable (cfg : ReqlogConfig) (redactBody : List UInt8 → List UInt8) (l : DuckLogger)

/-- Capture is off until a policy says otherwise. -/
def new (disk : Disk) (calls : Nat) : DuckLogger where
  log := { disk := disk, kept := disk.held }
  policy := { enabled := false, retentionDays := cfg.retentionDays }
  calls := calls

def hasRoom : Bool := decide (l.queue.length < max cfg.queueSize 1)

/-- A record that finds no room is dropped. -/
def logRecord (r : RequestLogRecord) : DuckLogger :=
  let counted := { l with calls := l.calls + 1 }
  if l.policy.enabled then
    match l.phase with
    | .down => { counted with dropped := l.dropped + 1 }
    | _ =>
        if l.hasRoom cfg then
          { counted with
            queue := l.queue ++ [.record l.calls (redact redactBody l.policy.redaction r)] }
        else { counted with dropped := l.dropped + 1 }
  else counted

def connected : Option Msg → Reply → List Export
  | some (.exportFor f), .connection (.ok ()) => [⟨f, exportTwice f⟩]
  | _, _ => []

/-- An export that ends is answered, and is no longer there. -/
def goOn (f : CaptureFilter) : Reading (List CapturedTurn) → List Export
  | .query q next => [⟨f, .query q next⟩]
  | _ => []

def step : Act → Option DuckLogger
  | .log r => some (l.logRecord cfg redactBody r)
  | .applyPolicy policy => some { l with policy := policy }
  | .send m =>
      match l.phase with
      | .down => none
      | _ =>
          if m.sendable && l.hasRoom cfg then some { l with queue := l.queue ++ [m.marked l.calls] }
          else none
  | .take =>
      match l.phase, l.queue with
      | .idle w, m :: rest => some { l with queue := rest, phase := .busy (some m) (w.serve cfg m) }
      | _, _ => none
  | .timeout =>
      match l.phase with
      | .idle w => some { l with phase := .busy none (w.turnOver cfg) }
      | _ => none
  | .work env =>
      match l.phase with
      | .busy m (.query q next) =>
          let (a, log) := l.log.answer { env with retentionDays := l.policy.retentionDays } q
          some { l with log := log, phase := .busy m (next a) }
      | _ => none
  | .reply =>
      match l.phase with
      | .busy m (.done (some w, reply)) =>
          some { l with phase := .idle w, exports := l.exports ++ connected m reply }
      | .busy _ (.done (none, _)) => some { l with phase := .down, queue := [] }
      | _ => none
  | .read i env =>
      match l.exports.drop i with
      | ⟨f, .query q next⟩ :: after =>
          some { l with exports := l.exports.take i ++ goOn f (next (l.log.answer env q).1) ++ after }
      | _ => none
  | .crash partials =>
      some { new cfg {} l.calls with
        log := { l.log with disk := { l.log.disk with pending := [], partials := partials } } }
  | .restart =>
      match l.phase with
      | .down => some { l with phase := .busy none Worker.openLog }
      | _ => none

def run (l : DuckLogger) : List Act → Option DuckLogger
  | [] => some l
  | act :: rest => (l.step cfg redactBody act).bind fun l' => run l' rest

/-- What an export gives its caller after its next call. -/
def returned (i : Nat) (env : Env) : Option (CaptureFilter × List CapturedTurn) :=
  match l.exports.drop i with
  | ⟨f, .query q next⟩ :: _ =>
      match next (l.log.answer env q).1 with
      | .done turns => some (f, turns)
      | _ => none
  | _ => none

/-- What a step does, act by act. -/
inductive Stepped : Act → DuckLogger → Prop where
  | logged {r : RequestLogRecord} {dropped : Nat} {queue : List Msg}
      (queued : queue = l.queue ∨
        queue = l.queue ++ [.record l.calls (redact redactBody l.policy.redaction r)]) :
      Stepped (.log r) { l with calls := l.calls + 1, dropped := dropped, queue := queue }
  | applied {policy : CapturePolicy} : Stepped (.applyPolicy policy) { l with policy := policy }
  | sent {m : Msg} (sendable : m.sendable = true) :
      Stepped (.send m) { l with queue := l.queue ++ [m.marked l.calls] }
  | taken {w : Worker} {m : Msg} {rest : List Msg} (phase : l.phase = .idle w)
      (queue : l.queue = m :: rest) :
      Stepped .take { l with queue := rest, phase := .busy (some m) (w.serve cfg m) }
  | timedOut {w : Worker} (phase : l.phase = .idle w) :
      Stepped .timeout { l with phase := .busy none (w.turnOver cfg) }
  | called {env : Env} {m : Option Msg} {q : Query}
      {next : q.Answer → Work (Option Worker × Reply)} {a : q.Answer} {log : Log}
      (phase : l.phase = .busy m (.query q next)) (answered : Answers q l.log a log) :
      Stepped (.work env) { l with log := log, phase := .busy m (next a) }
  | replied {m : Option Msg} {w : Worker} {reply : Reply}
      (phase : l.phase = .busy m (.done (some w, reply))) :
      Stepped .reply { l with phase := .idle w, exports := l.exports ++ connected m reply }
  | stopped {m : Option Msg} {reply : Reply} (phase : l.phase = .busy m (.done (none, reply))) :
      Stepped .reply { l with phase := .down, queue := [] }
  | read {i : Nat} {env : Env} {f : CaptureFilter} {q : Query}
      {next : q.Answer → Reading (List CapturedTurn)} {after : List Export}
      (exports : l.exports.drop i = ⟨f, .query q next⟩ :: after) :
      Stepped (.read i env)
        { l with exports := l.exports.take i ++ goOn f (next (l.log.answer env q).1) ++ after }
  | crashed {partials : Table Shard.stamp} :
      Stepped (.crash partials) { new cfg {} l.calls with
        log := { l.log with disk := { l.log.disk with pending := [], partials := partials } } }
  | restarted (phase : l.phase = .down) :
      Stepped .restart { l with phase := .busy none Worker.openLog }

variable {cfg redactBody l}

theorem step_log {r : RequestLogRecord} : Stepped cfg redactBody l (.log r) (l.logRecord cfg redactBody r) := by
  unfold logRecord
  dsimp only
  split
  · split
    · exact .logged (Or.inl rfl)
    · split
      · exact .logged (Or.inr rfl)
      · exact .logged (Or.inl rfl)
  · exact .logged (Or.inl rfl)

theorem step_stepped {act : Act} {l' : DuckLogger} (h : l.step cfg redactBody act = some l') :
    Stepped cfg redactBody l act l' := by
  unfold step at h
  cases act with
  | log r =>
      cases h
      exact step_log
  | applyPolicy policy =>
      cases h
      exact .applied
  | send m =>
      dsimp only at h
      split at h
      · cases h
      · split at h
        · next hGuard =>
            cases h
            exact .sent (Bool.and_eq_true_iff.mp hGuard).1
        · cases h
  | take =>
      dsimp only at h
      split at h
      · next hPhase hQueue =>
          cases h
          exact .taken hPhase hQueue
      · cases h
  | timeout =>
      dsimp only at h
      split at h
      · next hPhase =>
          cases h
          exact .timedOut hPhase
      · cases h
  | work env =>
      dsimp only at h
      split at h
      · next m q next hPhase =>
          generalize hAnswer : l.log.answer _ q = answered at h
          obtain ⟨a, log⟩ := answered
          cases h
          exact .called hPhase ⟨_, hAnswer⟩
      · cases h
  | reply =>
      dsimp only at h
      split at h
      · next hPhase =>
          cases h
          exact .replied hPhase
      · next hPhase =>
          cases h
          exact .stopped hPhase
      · cases h
  | read i env =>
      dsimp only at h
      split at h
      · next hExports =>
          cases h
          exact .read hExports
      · cases h
  | crash partials =>
      cases h
      exact .crashed
  | restart =>
      dsimp only at h
      split at h
      · next hPhase =>
          cases h
          exact .restarted hPhase
      · cases h

end

end DuckLogger

end Gateway.Reqlog
