import Gateway.Wire.Aggregate
import Gateway.Wire.Anthropic
import Gateway.Wire.OpenaiResponses
import Gateway.Wire.ParallelCalls

/-! What a client makes of the stream it is sent, one reader for each surface
that has calls in fragments. A reader knows the protocol only, and none of the
encoder's state. -/
namespace Gateway.Wire

open Json

/-- The parts of an answer that every surface can carry. -/
structure Reading where
  text : Str := []
  thinking : Str := []
  calls : List PartialTool := []
  deriving DecidableEq

namespace Anthropic

/-- A content block as the client holds it. -/
inductive Block where
  | text (text : Str)
  | thinking (text signature : Str)
  | redacted (data : Str)
  | toolUse (id name json : Str)
  | unknown
  deriving DecidableEq

def startBlock (block : Value) : Block :=
  let field (key : String) : Str := (optStr block key).getD []
  match optStr block "type" with
  | none => .unknown
  | some kind =>
      if kind = "text".toList then .text (field "text")
      else if kind = "thinking".toList then .thinking (field "thinking") (field "signature")
      else if kind = "redacted_thinking".toList then .redacted (field "data")
      else if kind = "tool_use".toList then .toolUse (field "id") (field "name") []
      else .unknown

/-- A delta changes a block of its own kind. -/
def Block.extend (delta : Value) (block : Block) : Block :=
  let field (key : String) : Str := (optStr delta key).getD []
  match block with
  | .text t => if optStr delta "type" = some "text_delta".toList then .text (t ++ field "text")
      else .text t
  | .thinking t s =>
      if optStr delta "type" = some "thinking_delta".toList then .thinking (t ++ field "thinking") s
      else if optStr delta "type" = some "signature_delta".toList then
        .thinking t (s ++ field "signature")
      else .thinking t s
  | .toolUse id name json =>
      if optStr delta "type" = some "input_json_delta".toList then
        .toolUse id name (json ++ field "partial_json")
      else .toolUse id name json
  | block => block

structure Reader where
  blocks : List Block := []
  stopped : Bool := false
  deriving DecidableEq

/-- Deltas go to the block at their index. -/
def Reader.read (r : Reader) (v : Value) : Reader :=
  match optStr v "type" with
  | none => r
  | some kind =>
      if kind = "content_block_start".toList then
        { r with blocks := r.blocks ++ [startBlock ((v.get "content_block").getD .null)] }
      else if kind = "content_block_delta".toList then
        match (v.get "index").bind Value.asU64 with
        | some i => { r with blocks := r.blocks.modify i (Block.extend ((v.get "delta").getD .null)) }
        | none => r
      else if kind = "message_stop".toList then { r with stopped := true }
      else r

def Reader.readFrame (r : Reader) (f : Frame) : Reader :=
  match f.payload with
  | .json v => r.read v
  | .done => r

def Block.textOf : Block → Str
  | .text t => t
  | _ => []

def Block.thinkingOf : Block → Str
  | .thinking t _ => t
  | _ => []

def Block.callOf : Block → List PartialTool
  | .toolUse id name json => [⟨id, name, json⟩]
  | _ => []

def reading (blocks : List Block) : Reading where
  text := blocks.flatMap Block.textOf
  thinking := blocks.flatMap Block.thinkingOf
  calls := blocks.flatMap Block.callOf

end Anthropic

namespace OpenaiChat

/-- Calls are kept under their index. -/
structure Reader where
  text : Str := []
  thinking : Str := []
  table : List (Option Value × PartialTool) := []

def Reader.readFrame (r : Reader) (f : Frame) : Reader :=
  match f.payload with
  | .json v =>
      let delta := ((firstChoice v).bind (·.get "delta")).getD .null
      { text := r.text ++ (optStr delta "content").getD []
        thinking := r.thinking ++ (optStr delta "reasoning_content").getD []
        table := (valueFragments v).foldl gather r.table }
  | .done => r

def Reader.reading (r : Reader) : Reading := ⟨r.text, r.thinking, r.table.map Prod.snd⟩

end OpenaiChat

namespace OpenaiResponses

/-- Calls are kept under their output index. -/
structure Reader where
  text : Str := []
  thinking : Str := []
  table : List (Nat × PartialTool) := []

def outputIndex (v : Value) : Nat := ((v.get "output_index").bind Value.asU64).getD 0

@[simp] theorem outputIndex_obj (fields : List (String × Value)) :
    outputIndex (obj fields) =
      (fields.foldl (fun found f => if f.1 = "output_index" then f.2.asU64 else found) none).getD 0 := by
  rw [outputIndex, bind_get_obj]

/-- The document of an event, by the event's name. -/
def Reader.read (r : Reader) (name : String) (v : Value) : Reader :=
  let delta := (optStr v "delta").getD []
  if name = "response.output_text.delta" then { r with text := r.text ++ delta }
  else if name = "response.reasoning_text.delta" then { r with thinking := r.thinking ++ delta }
  else if name = "response.output_item.added" then
    let item := (v.get "item").getD .null
    if optStr item "type" = some "function_call".toList then
      { r with table := r.table ++ [(outputIndex v, ⟨(optStr item "call_id").getD [],
        (optStr item "name").getD [], (optStr item "arguments").getD []⟩)] }
    else r
  else if name = "response.function_call_arguments.delta" then
    { r with table := r.table.map fun e =>
        if e.1 = outputIndex v then (e.1, { e.2 with json := e.2.json ++ delta }) else e }
  else r

def Reader.readFrame (r : Reader) (f : Frame) : Reader :=
  match f.event, f.payload with
  | some name, .json v => r.read name v
  | _, _ => r

def Reader.reading (r : Reader) : Reading := ⟨r.text, r.thinking, r.table.map Prod.snd⟩

end OpenaiResponses

end Gateway.Wire
