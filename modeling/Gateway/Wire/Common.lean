import Gateway.Json.Parse
import Gateway.Json.Render
import Gateway.Text.Lines
import Gateway.Wire.Ir

/-! Helpers the wire formats share: walking JSON, and the lines and frames of
an event stream. -/
namespace Gateway.Wire

open Json

theorem bind_eq_ok {ε α β : Type} {r : Except ε α} {f : α → Except ε β} {b : β} :
    (r >>= f) = .ok b ↔ ∃ a, r = .ok a ∧ f a = .ok b := by
  cases r <;> simp [bind, Except.bind]

def optStr (v : Value) (key : String) : Option Str := (v.get key).bind Value.asStr

def optArr (v : Value) (key : String) : Option (List Value) := (v.get key).bind Value.asArray

theorem optStr_eq_some {v : Value} {key : String} {s : Str} :
    optStr v key = some s ↔ v.get key = some (.string s) := by
  unfold optStr
  cases v.get key with
  | none => simp
  | some w => cases w <;> simp [Value.asStr]

@[simp] theorem optStr_obj (fields : List (String × Value)) (key : String) :
    optStr (obj fields) key =
      fields.foldl (fun found f => if f.1 = key then f.2.asStr else found) none :=
  bind_get_obj Value.asStr fields key

@[simp] theorem optArr_obj (fields : List (String × Value)) (key : String) :
    optArr (obj fields) key =
      fields.foldl (fun found f => if f.1 = key then f.2.asArray else found) none :=
  bind_get_obj Value.asArray fields key

@[simp] theorem optStr_null (key : String) : optStr .null key = none := rfl

@[simp] theorem optArr_null (key : String) : optArr .null key = none := rfl

def reqStr (v : Value) (key : String) : Except WireError Str :=
  match optStr v key with
  | some s => .ok s
  | none => .error (.missingField key.toList)

/-- A count; only its low 32 bits are kept. -/
def optU32 (v : Value) (key : String) : Option Nat :=
  ((v.get key).bind Value.asU64).map (· % 2 ^ 32)

/-- A number read as a float, so that an integer is one with no fraction. -/
def Number.toFloat : Number → Number
  | .posInt n => .float false n 0
  | .negInt n => .float true n 0
  | n => n

def optF32 (v : Value) (key : String) : Option Number :=
  match v.get key with
  | some (.number n) => some (Number.toFloat n)
  | _ => none

def optBool (v : Value) (key : String) : Bool := ((v.get key).bind Value.asBool).getD false

def strVec (v : Option Value) : List Str :=
  ((v.bind Value.asArray).map (·.filterMap Value.asStr)).getD []

def stripPrefix (lead s : Str) : Option Str :=
  if lead.isPrefixOf s then some (s.drop lead.length) else none

/-- The part before a separator, and the part after it. -/
def splitOnce (separator : Char) : Str → Option (Str × Str)
  | [] => none
  | c :: rest =>
      if c = separator then some ([], rest)
      else (splitOnce separator rest).map fun (before, after) => (c :: before, after)

def stripSuffix (tail s : Str) : Option Str :=
  (stripPrefix tail.reverse s.reverse).map List.reverse

/-- The media type and the data of a data URL. -/
def parseDataUrl (url : Str) : Option (Str × Str) := do
  let rest ← stripPrefix "data:".toList url
  let (kind, data) ← splitOnce ',' rest
  return ((stripSuffix ";base64".toList kind).getD kind, data)

def buildDataUrl (mediaType : Option Str) (data : Str) : Str :=
  "data:".toList ++ mediaType.getD "image/png".toList ++ ";base64,".toList ++ data

/-- Unicode white space. -/
def isWhitespace (c : Char) : Bool :=
  let n := c.toNat
  (9 ≤ n && n ≤ 13) || n == 0x20 || n == 0x85 || n == 0xA0 || n == 0x1680 ||
    (0x2000 ≤ n && n ≤ 0x200A) || n == 0x2028 || n == 0x2029 || n == 0x202F ||
    n == 0x205F || n == 0x3000

def trimEnd (s : Str) : Str := s.rdropWhile isWhitespace

def isBlank (s : Str) : Bool := s.all isWhitespace

/-- A document does not begin with white space of any kind. -/
theorem readValue_of_isBlank {s : Str} (hBlank : isBlank s = true) (fuel depth : Nat) :
    readValue (fuel + 1) depth s = none := by
  have hSpace : ∀ c ∈ skipSpace s, isWhitespace c = true := by
    intro c hc
    exact List.all_eq_true.mp hBlank c ((List.dropWhile_sublist _).subset hc)
  have hNumber : readNumber false (skipSpace s) = none := by
    cases hRest : skipSpace s with
    | nil => rfl
    | cons c rest =>
        have hc : isWhitespace c = true := hSpace c (by simp [hRest])
        have hDigit : c.isDigit = false := by
          rw [Bool.eq_false_iff]
          intro hDigit
          simp only [Char.isDigit, ge_iff_le, Bool.and_eq_true, decide_eq_true_eq,
            UInt32.le_iff_toNat_le] at hDigit
          have hLow : 48 ≤ c.toNat := hDigit.1
          have hHigh : c.toNat ≤ 57 := hDigit.2
          simp [isWhitespace] at hc
          omega
        simp [readNumber, takeDigits, List.span, List.span.loop, hDigit]
  rw [readValue]
  -- no literal of the grammar is white space
  split
  case h_8 => rw [hNumber, Option.map_none]
  all_goals
    rename_i hRest
    exact absurd (hSpace _ (hRest ▸ List.mem_cons_self)) (by decide)

theorem fromStr_of_isBlank {s : Str} (hBlank : isBlank s = true) : fromStr s = none := by
  rw [fromStr, readValue_of_isBlank hBlank]

/-- The payload of a `data:` line; other lines have none. -/
def sseData (line : Str) : Option Str :=
  (stripPrefix "data:".toList line).map fun rest =>
    trimEnd ((stripPrefix [' '] rest).getD rest)

/-- The document on a `data:` line, when there is one. -/
def sseValue (line : Str) : Option Value := (sseData line).bind fromStr

/-! ### Frames -/

/-- What a frame carries: a document, or the sentinel that ends a stream. -/
inductive Payload where
  | json (v : Value)
  | done
  deriving DecidableEq

/-- One event of a stream, as a client reads it. -/
structure Frame where
  event : Option String
  payload : Payload
  deriving DecidableEq

def Payload.text : Payload → Str
  | .json v => v.render
  | .done => "[DONE]".toList

def Frame.text (f : Frame) : Str :=
  (match f.event with
    | some name => "event: ".toList ++ name.toList ++ ['\n']
    | none => []) ++ "data: ".toList ++ f.payload.text ++ "\n\n".toList

@[simp] theorem Payload.text_json (v : Value) : (Payload.json v).text = v.render := rfl

/-- The text of a batch of frames, whose UTF-8 bytes are what is sent. -/
def framesText (frames : List Frame) : Str := frames.flatMap Frame.text

/-- A document without an event name. -/
def Frame.data (v : Value) : Frame := ⟨none, .json v⟩

def Frame.named (name : String) (v : Value) : Frame := ⟨some name, .json v⟩

def Frame.sentinel : Frame := ⟨none, .done⟩

end Gateway.Wire
