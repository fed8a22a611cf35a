import Gateway.Reqlog.Disk

/-! The thread that alone writes the request log: what it does for each message,
call by call, and what stands on the disk at the calls that could lose a turn. -/
namespace Gateway.Reqlog

open Json Store Program

structure Worker where
  /-- The records that are not flushed, each with the call of `log` it comes from. -/
  buf : List (Nat × RequestLogRecord)
  nextId : Nat
  lastRotate : Nat
  lastDate : Int

/-- An error ends the work with the worker as it then is. -/
abbrev Work := Program Query Query.Answer (Str × Worker)

/-- Flush once the buffer reaches this many rows. -/
def batchFlush : Nat := 256

def truncate (body : List UInt8) (max : Nat) : List UInt8 :=
  if 0 < max ∧ max < body.length then body.take max else body

/-- The row of a record. -/
def rowOf (cfg : ReqlogConfig) (id : Nat) (r : Nat × RequestLogRecord) : Turn :=
  let (call, rec) := r
  { call := call
    id := id
    ts := micros rec.ts
    requestId := rec.requestId
    traceId := rec.traceId
    installationId := rec.installationId
    surface := rec.surface
    requestedModel := rec.requestedModel
    decisionModel := rec.decisionModel
    decisionProvider := rec.decisionProvider
    upstreamStatus := rec.upstreamStatus
    isError := rec.isError
    requestBytes := rec.requestBytes
    responseBytes := rec.responseBytes
    responseTruncated := rec.responseTruncated ||
      (0 < cfg.maxBodyBytes && cfg.maxBodyBytes < rec.responseBody.length)
    requestBody := truncate rec.requestBody cfg.maxBodyBytes
    responseBody := truncate rec.responseBody cfg.maxBodyBytes
    apiKeyId := rec.apiKeyId
    userId := rec.userId
    tags := rec.tags
    redaction := some rec.redaction }

def rowsFrom (cfg : ReqlogConfig) : Nat → List (Nat × RequestLogRecord) → List Turn
  | _, [] => []
  | id, r :: rest => rowOf cfg id r :: rowsFrom cfg (id + 1) rest

inductive Msg where
  | record (call : Nat) (r : RequestLogRecord)
  | flush
  | rotate
  | count
  | exportFor (f : CaptureFilter)
  /-- `mark` is how many calls of `log` were made before. -/
  | forget (keys : List Id) (mark : Nat)
  | shutdown

/-- What the sender of a message gets back. -/
inductive Reply where
  | silent
  | ack (r : Except Str Unit)
  | counted (r : Except Str Nat)
  | connection (r : Except Str Unit)
  | forgotten (r : Except Str Nat)

namespace Worker

section

variable (cfg : ReqlogConfig) (w : Worker)

/-- The rows that a flush writes. -/
def rows : List Turn := rowsFrom cfg w.nextId w.buf

/-- A call whose error ends the work, with what is said before the error. -/
def call (context : String) (c : Call) : Work c.Result :=
  query (.call c) fun (a : Except Str c.Result) =>
    match a with
    | .ok v => done v
    | .error e => fail (context.toList ++ e, w)

def db (c : Call) : Work c.Result := w.call "reqlog/duckdb: " c

/-- The work goes on after an error. -/
def logged (p : Work Worker) : Work Worker :=
  p.attempt >>= fun
    | .ok w => done w
    | .error (_, w) => done w

/-! ### Flushing -/

/-- An id is used up also by a row that fails. -/
def insertAll : List (Nat × RequestLogRecord) → Worker → Work Worker
  | [], w => done w
  | r :: rest, w => do
      let after := { w with nextId := w.nextId + 1 }
      let () ← after.db (.insert (rowOf cfg w.nextId r))
      insertAll rest after

def endInsert : Except (Str × Worker) Worker → Work Worker
  | .ok w => do
      let () ← w.db .commit
      return w
  | .error e => query (.call .rollback) fun _ => fail e

def flush : Work Worker :=
  if w.buf.isEmpty then done w
  else do
    let taken := { w with buf := [] }
    let () ← taken.db .begin
    let inserted ← (do
      let () ← taken.db .prepareInsert
      insertAll cfg w.buf taken).attempt
    endInsert inserted

/-! ### Rotating -/

def removePartials : List (Option Path) → Work Unit
  | [] => done ()
  | some (.partialShard stamp) :: rest =>
      query (.call (.removePartial stamp)) fun _ => removePartials rest
  | _ :: rest => removePartials rest

def removePartialsOf : Except Str (List (Option Path)) → Work Unit
  | .ok entries => removePartials entries
  | .error _ => done ()

def removePartialShards : Work Unit := query (.call .readDir) removePartialsOf

/-- A call that leaves nothing half written when it fails. -/
def cleanedUp (p : Work Unit) : Work Unit :=
  p.attempt >>= fun
    | .ok () => done ()
    | .error e => do
        removePartialShards
        fail e

def sealShard (stamp : Int) : Work Unit :=
  cleanedUp do
    let () ← w.db (.copyTurns stamp)
    w.call "reqlog: seal shard: " (.rename stamp [])

def sealTurns (count : Nat) : Work Unit :=
  if 0 < count then query .now fun (now : Timestamp) => w.sealShard (micros now) else done ()

def pruneShard (cutoff : Timestamp) (stamp : Int) : Except Str Timestamp → Work Unit
  | .ok modified =>
      if modified < cutoff then query (.call (.removeShard stamp)) fun _ => done () else done ()
  | .error _ => done ()

def pruneShards (cutoff : Timestamp) : List (Option Path) → Work Unit
  | [] => done ()
  | some (.shard stamp) :: rest => do
      query (.call (.modified stamp)) (pruneShard cutoff stamp)
      pruneShards cutoff rest
  | _ :: rest => pruneShards cutoff rest

def pruneShardsOf (cutoff : Timestamp) : Except Str (List (Option Path)) → Work Unit
  | .ok entries => pruneShards cutoff entries
  | .error _ => done ()

def pruneBefore (retentionDays : Nat) : Work Unit :=
  if retentionDays = 0 then done ()
  else
    query .now fun (now : Timestamp) =>
      query (.call .readDir) (pruneShardsOf (now - retentionDays * (86400 * 10 ^ 9)))

def prune : Work Unit := do
  removePartialShards
  query .retentionDays pruneBefore

def rotate : Work Worker := do
  let w ← w.flush cfg
  let count : Nat ← w.db .count
  w.sealTurns count
  let () ← w.db .deleteTurns
  let () ← w.db .checkpoint
  prune
  query .instant fun (last : Nat) => query .now fun (now : Timestamp) =>
    done { w with lastRotate := last, lastDate := now / (86400 * 10 ^ 9) }

def maybeRotate : Work Worker :=
  query .now fun (now : Timestamp) => query .instant fun (instant : Nat) =>
  query .walSize fun (walSize : Nat) =>
  if cfg.rotateInterval ≤ instant - w.lastRotate ∨ now / (86400 * 10 ^ 9) ≠ w.lastDate ∨
      cfg.shardMaxBytes < walSize then
    logged (w.rotate cfg)
  else done w

/-! ### Forgetting -/

def keepTime (stamp : Int) : Except Str Timestamp → Work Unit
  | .ok time => w.call "reqlog: keep the shard's time: " (.setModified stamp time)
  | .error _ => done ()

def rewrite (keys : List Id) (stamp : Int) (sealedAt : Except Str Timestamp) : Work Unit :=
  cleanedUp do
    let () ← w.db (.copyWithout stamp keys)
    w.keepTime stamp sealedAt
    w.call "reqlog: replace shard: " (.rename stamp keys)

/-- A shard is rewritten if it holds turns of the keys. -/
def eraseHeld (keys : List Id) (stamp : Int) (held : Nat) : Work Nat :=
  if held = 0 then done 0
  else do
    query (.call (.modified stamp)) (w.rewrite keys stamp)
    return held

def eraseKeyed (keys : List Id) (stamp : Int) (keyed : Nat) : Work Nat :=
  if keyed = 0 then done 0
  else do
    let held : Nat ← w.db (.countKeyed stamp keys)
    w.eraseHeld keys stamp held

def eraseShards (keys : List Id) : List (Option Path) → Nat → Work Nat
  | [], forgotten => done forgotten
  | some (.shard stamp) :: rest, forgotten => do
      let keyed : Nat ← w.db (.keyColumns stamp)
      let held ← w.eraseKeyed keys stamp keyed
      eraseShards keys rest (forgotten + held)
  | _ :: rest, forgotten => eraseShards keys rest forgotten

/-- A directory that cannot be read is passed over. -/
def forgetIn (keys : List Id) (forgotten : Nat) : Except Str (List (Option Path)) → Work Nat
  | .ok entries => do
      let forgotten ← w.eraseShards keys entries forgotten
      let () ← w.db .checkpoint
      return forgotten
  | .error _ => done forgotten

def forget (keys : List Id) : Work Nat := do
  let forgotten : Nat ← w.db (.deleteKeyed keys)
  query (.call .readDir) (w.forgetIn keys forgotten)

/-! ### Messages -/

def settled {α : Type} (reply : Except Str α → Reply) :
    Except (Str × Worker) (α × Worker) → Work (Option Worker × Reply)
  | .ok (v, w) => done (some w, reply (.ok v))
  | .error (e, w) => done (some w, reply (.error e))

/-- After the flush that a message starts with. -/
def afterFlush {α : Type} (p : Worker → Work α) (reply : Except Str α → Reply) :
    Work (Option Worker × Reply) :=
  (do
    let w ← w.flush cfg
    let v ← p w
    return (v, w)).attempt >>= settled reply

def turnOver : Work (Option Worker × Reply) := do
  let w ← logged (w.flush cfg)
  let w ← w.maybeRotate cfg
  return (some w, .silent)

def stopped : Option Worker × Reply → Work (Option Worker × Reply)
  | (_, reply) => done (none, reply)

def serve : Msg → Work (Option Worker × Reply)
  | .record call r =>
      let w := { w with buf := w.buf ++ [(call, r)] }
      if batchFlush ≤ w.buf.length then w.turnOver cfg else done (some w, .silent)
  | .flush => w.afterFlush cfg (fun _ => done ()) .ack
  | .rotate =>
      (do
        let w ← w.rotate cfg
        return ((), w)).attempt >>= settled .ack
  | .count => w.afterFlush cfg (fun w => w.db .count) .counted
  | .exportFor _ => w.afterFlush cfg (fun w => w.db .tryClone) .connection
  | .forget keys _ => w.afterFlush cfg (fun w => w.forget keys) .forgotten
  | .shutdown => w.afterFlush cfg (fun _ => done ()) .ack >>= stopped

end

/-! ### Opening -/

def openedAt : Except Str Nat → Work (Option Worker × Reply)
  | .error _ => done (none, .silent)
  | .ok maxId =>
      query .instant fun (last : Nat) => query .now fun (now : Timestamp) =>
        done (some ⟨[], maxId + 1, last, now / (86400 * 10 ^ 9)⟩, .silent)

def openAfter : Except Str Unit → Work (Option Worker × Reply)
  | .error _ => done (none, .silent)
  | .ok () => query (.call .maxId) openedAt

/-- The ids go on from those of the table. -/
def openLog : Work (Option Worker × Reply) := query (.call .setUp) openAfter

end Worker

/-! ### Exports -/

abbrev Reading := Program Query Query.Answer Str

def hasShards : Except Str (List (Option Path)) → Bool
  | .ok entries => entries.any fun entry => entry.any Path.isShard
  | .error _ => false

def orFail {α : Type} : Except Str α → Reading α
  | .ok v => done v
  | .error e => fail ("reqlog/duckdb: ".toList ++ e)

/-- A directory that cannot be read counts as one without shards. -/
def exportTurns (f : CaptureFilter) : Reading (List CapturedTurn) :=
  query (.call .readDir) fun entries => do
    let files : List Int ← query (.call (.prepare (hasShards entries))) orFail
    query (.call (.read files f)) orFail

def secondTry (f : CaptureFilter) :
    Except Str (List CapturedTurn) → Reading (List CapturedTurn)
  | .ok turns => done turns
  | .error _ => exportTurns f

/-- The first attempt fails when a shard is pruned between listing and reading. -/
def exportTwice (f : CaptureFilter) : Reading (List CapturedTurn) :=
  (exportTurns f).attempt >>= secondTry f

end Gateway.Reqlog
