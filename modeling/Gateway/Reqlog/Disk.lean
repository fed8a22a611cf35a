import Gateway.Firsts
import Gateway.Json.Parse
import Gateway.Program
import Gateway.Store.Rows
import Gateway.Table
import Mathlib.Data.List.Sort

/-! The files of the request log: the table that turns are written to first and
the shards that they are sealed in, and the calls that read and change them. -/
namespace Gateway.Reqlog

open Json Store

structure ReqlogConfig where
  queueSize : Nat := 4096
  shardMaxBytes : Nat := 256 * 1024 * 1024
  /-- In nanoseconds. -/
  rotateInterval : Nat := 3600 * 10 ^ 9
  retentionDays : Nat := 30
  maxBodyBytes : Nat := 256 * 1024

structure RequestLogRecord where
  ts : Timestamp
  requestId : Str
  traceId : Option Str
  installationId : Str
  surface : Str
  requestedModel : Str
  decisionModel : Str
  decisionProvider : Str
  upstreamStatus : Int
  isError : Bool
  requestBytes : Int
  responseBytes : Int
  responseTruncated : Bool
  requestBody : List UInt8
  responseBody : List UInt8
  apiKeyId : Option Id
  userId : Option Id
  tags : Option Str
  redaction : Str
  deriving DecidableEq

/-- A row of `turns`, or of a shard. `call` says which call of `log` it comes
from; it is no column, and nothing reads it. -/
structure Turn where
  call : Nat
  id : Nat
  /-- In microseconds. -/
  ts : Int
  requestId : Str
  traceId : Option Str
  installationId : Str
  surface : Str
  requestedModel : Str
  decisionModel : Str
  decisionProvider : Str
  upstreamStatus : Int
  isError : Bool
  requestBytes : Int
  responseBytes : Int
  responseTruncated : Bool
  requestBody : List UInt8
  responseBody : List UInt8
  apiKeyId : Option Id
  userId : Option Id
  tags : Option Str
  redaction : Option Str
  deriving DecidableEq

/-- `api_key_id IN (keys)`, which is not so of a row without a key. -/
def Turn.keyIn (keys : List Id) (t : Turn) : Bool := t.apiKeyId.any (keys.contains ·)

/-- What a row is taken once by. -/
def Turn.key (t : Turn) : Nat × Int × Str := (t.id, t.ts, t.requestId)

/-! ### What an export takes -/

structure CaptureFilter where
  fromTs : Option Timestamp := none
  toTs : Option Timestamp := none
  models : List Str := []
  apiKeyIds : List Id := []
  tags : List (Str × Str) := []
  redaction : Option Str := none
  deriving DecidableEq

structure CapturedTurn where
  call : Nat
  ts : Int
  requestId : Str
  surface : Str
  requestedModel : Str
  apiKeyId : Option Id
  userId : Option Id
  tags : Option Str
  redaction : Str
  requestBody : List UInt8
  responseBody : List UInt8
  deriving DecidableEq

def Turn.captured (t : Turn) : CapturedTurn where
  call := t.call
  ts := t.ts
  requestId := t.requestId
  surface := t.surface
  requestedModel := t.requestedModel
  apiKeyId := t.apiKeyId
  userId := t.userId
  tags := t.tags
  redaction := t.redaction.getD "none".toList
  requestBody := t.requestBody
  responseBody := t.responseBody

def CapturedTurn.keyIn (keys : List Id) (t : CapturedTurn) : Bool :=
  t.apiKeyId.any (keys.contains ·)

/-- An instant as a row holds it. -/
def micros (t : Timestamp) : Int := t / 1000

/-- The conditions of the statement. -/
def CaptureFilter.takes (f : CaptureFilter) (t : Turn) : Bool :=
  !t.isError && f.fromTs.all (fun start => decide (micros start ≤ t.ts)) &&
    f.toTs.all (fun stop => decide (t.ts < micros stop)) &&
    (f.models.isEmpty || f.models.contains t.requestedModel) &&
    (f.apiKeyIds.isEmpty || t.keyIn f.apiKeyIds) &&
    f.redaction.all fun wanted => t.redaction == some wanted

def tagsMatch (tags : Option Str) (wanted : List (Str × Str)) : Bool :=
  wanted.isEmpty ||
    match tags.bind fromStr with
    | none => false
    | some tags => wanted.all fun (key, value) => (tags.get (.ofList key)).bind Value.asStr == some value

/-- The turns of an export, from the rows in the order that they are read in.
Rows that are alike are taken once. -/
def CaptureFilter.select (f : CaptureFilter) (scan : List Turn) : List CapturedTurn :=
  ((Firsts.fresh Turn.key [] (scan.filter f.takes)).insertionSort fun a b => a.ts ≤ b.ts)
    |>.map Turn.captured |>.filter fun t => tagsMatch t.tags f.tags

/-! ### Files -/

/-- A shard is named by the microsecond that it was sealed at. One that was
sealed before turns carried their key has no column for it. -/
structure Shard where
  stamp : Int
  modified : Timestamp
  keyed : Bool
  turns : List Turn
  unkeyed : keyed = false → ∀ t ∈ turns, t.apiKeyId = none

inductive Path where
  | shard (stamp : Int)
  | partialShard (stamp : Int)
  deriving DecidableEq

def Path.isShard : Path → Bool
  | shard _ => true
  | partialShard _ => false

structure Disk where
  turns : List Turn := []
  /-- Those of a transaction that is not committed. -/
  pending : List Turn := []
  shards : Table Shard.stamp := .empty
  partials : Table Shard.stamp := .empty

namespace Disk

variable (d : Disk)

def paths : List Path :=
  d.shards.rows.map (fun s => .shard s.stamp) ++ d.partials.rows.map fun s => .partialShard s.stamp

/-- The rows of a shard. -/
def sealed (stamp : Int) : List Turn := ((d.shards.get stamp).map Shard.turns).getD []

def maxId : Nat := (d.turns.map Turn.id).foldr max 0

/-- All rows that are committed. -/
def held : List Turn := d.turns ++ d.shards.rows.flatMap Shard.turns

end Disk

/-! ### Calls -/

/-- The statements and file operations of the log. A rename names the keys whose
turns it is there to lose. -/
inductive Call where
  | setUp
  | maxId
  | begin
  | prepareInsert
  | insert (t : Turn)
  | commit
  | rollback
  | count
  | copyTurns (stamp : Int)
  | rename (stamp : Int) (erased : List Id)
  | deleteTurns
  | checkpoint
  | deleteKeyed (keys : List Id)
  | readDir
  | keyColumns (stamp : Int)
  | countKeyed (stamp : Int) (keys : List Id)
  | modified (stamp : Int)
  | copyWithout (stamp : Int) (keys : List Id)
  | setModified (stamp : Int) (time : Timestamp)
  | removeShard (stamp : Int)
  | removePartial (stamp : Int)
  | tryClone
  /-- A statement is prepared, and the shards that it reads are listed. -/
  | prepare (hasShards : Bool)
  | read (files : List Int) (f : CaptureFilter)

def Call.Result : Call → Type
  | maxId | count | deleteKeyed _ | keyColumns _ | countKeyed _ _ => Nat
  | modified _ => Timestamp
  | readDir => List (Option Path)
  | prepare _ => List Int
  | read _ _ => List CapturedTurn
  | _ => Unit

inductive Query where
  | call (c : Call)
  | now
  /-- Of the clock that only goes forward, in nanoseconds. -/
  | instant
  | walSize
  | retentionDays

def Query.Answer : Query → Type
  | call c => Except Str c.Result
  | now => Timestamp
  | _ => Nat

/-- All that decides an answer besides the files. A listing may fail, leave out
files, or have entries that cannot be read. -/
structure Env where
  fault : Call → Option Str
  now : Timestamp
  instant : Nat
  walSize : Nat
  retentionDays : Nat
  /-- What a copy that fails has written. -/
  debris : Option (List Turn)
  listing : List Path → List (Option Path)
  listed : ∀ paths p, some p ∈ listing paths → p ∈ paths
  scan : List Turn → List Turn
  scan_perm : ∀ turns, (scan turns).Perm turns

/-- Every call works. -/
def Env.calm (now : Timestamp) : Env where
  fault _ := none
  now := now
  instant := 0
  walSize := 0
  retentionDays := 0
  debris := none
  listing paths := paths.map some
  listed _ _ h := by simpa using h
  scan turns := turns
  scan_perm _ := .refl _

namespace Disk

/-- A file that a copy is written to. -/
def copyTo (d : Disk) (stamp : Int) (now : Timestamp) (turns : List Turn) : Disk :=
  { d with partials := d.partials.put ⟨stamp, now, true, turns, nofun⟩ }

/-- A call that works. -/
def execute (env : Env) (c : Call) (d : Disk) : Except Str c.Result × Disk :=
  let missing : Str := "No such file or directory".toList
  match c with
  | .setUp | .prepareInsert | .checkpoint | .tryClone => (.ok (), d)
  | .maxId => (.ok (d.maxId : Nat), d)
  | .begin | .rollback => (.ok (), { d with pending := [] })
  | .insert t => (.ok (), { d with pending := d.pending ++ [t] })
  | .commit => (.ok (), { d with turns := d.turns ++ d.pending, pending := [] })
  | .count => (.ok d.turns.length, d)
  | .copyTurns stamp => (.ok (), d.copyTo stamp env.now d.turns)
  | .rename stamp _ =>
      match d.partials.get stamp with
      | none => (.error missing, d)
      | some p => (.ok (), { d with
          shards := d.shards.put p, partials := d.partials.keep fun q => decide (q.stamp ≠ stamp) })
  | .deleteTurns => (.ok (), { d with turns := [] })
  | .deleteKeyed keys =>
      (.ok (d.turns.countP (Turn.keyIn keys)),
        { d with turns := d.turns.filter fun t => !t.keyIn keys })
  | .readDir => (.ok (env.listing d.paths), d)
  | .keyColumns stamp =>
      match d.shards.get stamp with
      | none => (.error missing, d)
      | some s => (.ok (s.keyed.toNat : Nat), d)
  | .countKeyed stamp keys =>
      match d.shards.get stamp with
      | none => (.error missing, d)
      | some s => (.ok (s.turns.countP (Turn.keyIn keys)), d)
  | .modified stamp =>
      match d.shards.get stamp with
      | none => (.error missing, d)
      | some s => (.ok s.modified, d)
  | .copyWithout stamp keys =>
      match d.shards.get stamp with
      | none => (.error missing, d)
      | some s => (.ok (), d.copyTo stamp env.now (s.turns.filter fun t => !t.keyIn keys))
  | .setModified stamp time =>
      match d.partials.get stamp with
      | none => (.error missing, d)
      | some p => (.ok (), { d with partials := d.partials.put { p with modified := time } })
  | .removeShard stamp =>
      (.ok (), { d with shards := d.shards.keep fun s => decide (s.stamp ≠ stamp) })
  | .removePartial stamp =>
      (.ok (), { d with partials := d.partials.keep fun s => decide (s.stamp ≠ stamp) })
  | .prepare hasShards =>
      if hasShards then
        if d.shards.rows.isEmpty then (.error "No files found that match the pattern".toList, d)
        else (.ok (d.shards.rows.map Shard.stamp), d)
      else (.ok [], d)
  | .read files f =>
      if files.all fun stamp => (d.shards.get stamp).isSome then
        (.ok (f.select (env.scan (d.turns ++ files.flatMap d.sealed))), d)
      else (.error missing, d)

/-- What a call that fails leaves. -/
def failed (env : Env) (c : Call) (d : Disk) : Disk :=
  match c with
  | .commit | .rollback => { d with pending := [] }
  | .copyTurns stamp | .copyWithout stamp _ =>
      match env.debris with
      | none => d
      | some turns => d.copyTo stamp env.now turns
  | _ => d

end Disk

/-! ### The turns that are kept -/

/-- The files, the turns that were flushed and neither pruned nor forgotten since,
and what the worker was told when it last listed the shards. -/
structure Log where
  disk : Disk := {}
  kept : List Turn := []
  listing : List (Option Path) := []

namespace Log

/-- The turns that are kept after a call that works. A turn goes when the shard
that is pruned was the last place it stood in, and when it is to be forgotten and
stands nowhere any more. -/
def keptAfter (l : Log) (c : Call) (d : Disk) : List Turn :=
  match c with
  | .commit => l.kept ++ l.disk.pending
  | .rename _ keys | .deleteKeyed keys =>
      l.kept.filter fun t => !t.keyIn keys || d.held.contains t
  | .removeShard stamp =>
      l.kept.filter fun t => !(l.disk.sealed stamp).contains t || d.held.contains t
  | _ => l.kept

def listingAfter (l : Log) : (c : Call) → Except Str c.Result → List (Option Path)
  | .readDir, .ok entries => entries
  | .readDir, .error _ => []
  | _, _ => l.listing

/-- Whether the call works is part of its answer. -/
def call (env : Env) (c : Call) (l : Log) : Except Str c.Result × Log :=
  match env.fault c with
  | some e => (.error e, ⟨l.disk.failed env c, l.kept, l.listingAfter c (.error e)⟩)
  | none =>
      match l.disk.execute env c with
      | (.error e, d) => (.error e, ⟨d, l.kept, l.listingAfter c (.error e)⟩)
      | (.ok v, d) => (.ok v, ⟨d, l.keptAfter c d, l.listingAfter c (.ok v)⟩)

def answer (env : Env) (q : Query) (l : Log) : q.Answer × Log :=
  match q with
  | .call c => l.call env c
  | .now => (env.now, l)
  | .instant => (env.instant, l)
  | .walSize => (env.walSize, l)
  | .retentionDays => (env.retentionDays, l)

end Log

/-- An answer that a query may get, and the log after it. -/
def Answers (q : Query) (l : Log) (a : q.Answer) (l' : Log) : Prop :=
  ∃ env : Env, l.answer env q = (a, l')

end Gateway.Reqlog
