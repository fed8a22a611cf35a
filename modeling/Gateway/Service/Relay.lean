import Gateway.Service.Dialect
import Gateway.Text.Lines
import Gateway.Wire.Aggregate

/-! The relay of a streamed answer, and the fold of one into a buffered
response. -/
namespace Gateway.Service

open Json Wire

/-- What an upstream's stream yields; a stall is a failure. -/
inductive Item where
  | chunk (bytes : List UInt8)
  | failed
  | ended

/-- What a finished turn is recorded with. -/
structure Turn where
  usage : Usage
  status : Nat
  isError : Bool
  response : Option ChatResponse
  responseBytes : Nat

/-! ### Reading -/

/-- A line's text, without its end. -/
def lineText (line : List UInt8) : Str := Text.trimEndOf ['\r', '\n'] (Text.fromUtf8Lossy line)

def Decoder.decodeBytes (d : Decoder) (line : List UInt8) : List StreamEvent × Decoder :=
  d.decodeLine (lineText line)

/-- The events of some lines. -/
def Decoder.decodeLines (d : Decoder) (lines : List (List UInt8)) : List StreamEvent × Decoder :=
  Transducer.run Decoder.decodeBytes d lines

/-- The complete lines of a buffer, and the bytes after them. -/
def takeLines (buf : List UInt8) : List (List UInt8) × List UInt8 := Text.splitLines 0x0a buf

/-- The line that the end of a stream cuts off. -/
def cutLine (buf : List UInt8) : List (List UInt8) := if buf = [] then [] else [buf]

/-! ### Folding into one response -/

structure Fold where
  buf : List UInt8 := []
  decoder : Decoder
  agg : Aggregator := {}

def Fold.chunk (f : Fold) (bytes : List UInt8) : Fold :=
  let (lines, rest) := takeLines (f.buf ++ bytes)
  let (events, decoder) := f.decoder.decodeLines lines
  { buf := rest, decoder, agg := f.agg.pushAll events }

def Fold.flush (f : Fold) : Fold :=
  let (events, decoder) := f.decoder.decodeLines (cutLine f.buf)
  { buf := [], decoder, agg := f.agg.pushAll events }

/-- An echo from the upstream wins. -/
def applyCacheEcho (resp : ChatResponse) (echo : Option Str × Option Str) : ChatResponse :=
  { resp with
    promptCacheKey := resp.promptCacheKey.or echo.1
    promptCacheRetention := resp.promptCacheRetention.or echo.2 }

/-- The response of a body that arrives whole, in chunks. -/
def aggregateStream (upstream : WireFormat) (requestId : Str) (echo : Option Str × Option Str)
    (chunks : List (List UInt8)) : ChatResponse :=
  let fold := (chunks.foldl Fold.chunk { decoder := Decoder.new upstream }).flush
  applyCacheEcho (fold.agg.intoResponse requestId) echo

/-! ### Relaying -/

structure StreamState where
  buf : List UInt8 := []
  decoder : Decoder
  encoder : Encoder
  usage : Usage := {}
  agg : Aggregator := {}
  responseBytes : Nat := 0
  status : Nat
  requestId : Str
  /-- Set once the upstream ends, or fails, or the answer has ended. -/
  done : Bool := false
  /-- Set once the turn is recorded. -/
  recorded : Bool := false

/-- A report counts towards the running total. -/
def noteUsage (u : Usage) : StreamEvent → Usage
  | .usageDelta usage => u.merge usage
  | _ => u

namespace StreamState

/-- The turn as it stands. -/
def turn (st : StreamState) (status : Nat) (isError : Bool) : Turn where
  usage := st.usage
  status := status
  isError := isError
  response := some (st.agg.intoResponse st.requestId)
  responseBytes := st.responseBytes

/-- Decode lines, and note what they report. -/
def read (st : StreamState) (lines : List (List UInt8)) : List StreamEvent × StreamState :=
  let (events, decoder) := st.decoder.decodeLines lines
  (events, { st with
    decoder
    usage := events.foldl noteUsage st.usage
    agg := st.agg.pushAll events })

/-- Take a chunk in, and decode the lines it completes. -/
def readChunk (st : StreamState) (bytes : List UInt8) : List StreamEvent × StreamState :=
  let (lines, rest) := takeLines (st.buf ++ bytes)
  { st with buf := rest }.read lines

/-- The frames of a batch of events, for the client. -/
def write (st : StreamState) (events : List StreamEvent) : List Frame × StreamState :=
  let (frames, encoder) := st.encoder.encode events
  (frames, { st with encoder, responseBytes := st.responseBytes + (frameBytes frames).length })

end StreamState

/-- What the relay does with an item: ask for more, hand the bytes of some
frames to the client, or record the turn and only then hand over what it has. A
failure hands over an error. -/
inductive Outcome where
  | more (st : StreamState)
  | yield (frames : List Frame) (st : StreamState)
  | record (turn : Turn) (output : Option (List Frame)) (st : StreamState)

namespace StreamState

/-- The state while a turn is being recorded: what was aggregated is taken. -/
def taken (st : StreamState) : StreamState := { st with agg := {} }

def receive (st : StreamState) : Item → Outcome
  | .chunk bytes =>
      let (events, st) := st.readChunk bytes
      if events.isEmpty then .more st
      else
        let (frames, st) := st.write events
        let bytes := frameBytes frames
        if bytes.isEmpty then .more st
        else if !st.recorded && endsStream st.encoder.surface bytes events then
          .record (st.turn st.status false) (some frames) st.taken
        else .yield frames st
  | .failed =>
      .record (st.turn st.status true) none { st with done := true }.taken
  | .ended =>
      let (events, st) := { st with buf := [] }.read (cutLine st.buf)
      let (frames, st) := { st with done := true }.write events
      let (more, encoder) := st.encoder.finish
      let st := { st with
        encoder, responseBytes := st.responseBytes + (frameBytes more).length }
      .record (st.turn st.status false) (some (frames ++ more)) st.taken

/-- The state after a turn is recorded. -/
def afterRecord (st : StreamState) : StreamState := { st with done := true, recorded := true }

/-- The turns recorded and the frames handed over while a client reads to the
end. -/
def drive (st : StreamState) : List Item → List Turn × List Frame
  | [] => ([], [])
  | item :: rest =>
      if st.done then
        (if st.recorded then [] else [st.turn st.status false], [])
      else match st.receive item with
        | .more st => st.drive rest
        | .yield frames st => let (turns, out) := st.drive rest; (turns, frames ++ out)
        | .record turn output st =>
            let (turns, out) := st.afterRecord.drive rest
            (turn :: turns, output.getD [] ++ out)

end StreamState

/-- The relay's state before the first item. -/
def translateStream (upstream surface : WireFormat) (requestId : Str) (status : Nat)
    (echo : Option Str × Option Str) (includeUsage : Bool) : StreamState where
  decoder := Decoder.new upstream
  encoder := Encoder.forTurn surface includeUsage echo
  status := status
  requestId := requestId

/-- A body that is delivered whole, cut into chunks. -/
def delivered (chunks : List (List UInt8)) : List Item := chunks.map .chunk ++ [.ended]

end Gateway.Service
