import Gateway.Json.Parse
import Gateway.Json.Render
import Gateway.Text.Find
import Gateway.Wire.Splitting

/-! Image, speech and transcription requests. The gateway reads the model to route,
and forwards the rest as it came: a JSON document, or a multipart form in which
the bytes of one field are exchanged. -/
namespace Gateway.Wire.Media

open Json Text

/-! ### The content type -/

def trim (s : Str) : Str := (trimEnd s).dropWhile isWhitespace

def toAsciiLowercase (s : Str) : Str := s.map Char.toLower

def trimMatches (c : Char) (s : Str) : Str := (s.rdropWhile (· = c)).dropWhile (· = c)

def isMultipart (contentType : Str) : Bool :=
  "multipart/form-data".toList.isPrefixOf
    (toAsciiLowercase (contentType.dropWhile isWhitespace))

def boundaryOf (parameter : Str) : Option Str := do
  let (name, value) ← splitOnce '=' (trim parameter)
  let boundary := trimMatches '\x22' (trim value)
  if toAsciiLowercase name = "boundary".toList ∧ boundary ≠ [] then some boundary else none

def multipartBoundary (contentType : Str) : Option Str :=
  ((contentType.splitOnP (· = ';')).drop 1).findSome? boundaryOf

/-! ### The search for a field -/

/-- Where a field's value sits in the body. -/
structure FieldSpan where
  start : Nat
  stop : Nat
  deriving DecidableEq

def delimiter (boundary : Str) : List UInt8 := toUtf8 ("--".toList ++ boundary)

/-- Two ends of lines, which end the headers of a part. -/
def blankLine : List UInt8 := [13, 10, 13, 10]

/-- The lines of a text without their ends. -/
def linesOfPieces : List Str → List Str
  | [] => []
  | [last] => if last = [] then [] else [last]
  | piece :: rest => (stripSuffix ['\r'] piece).getD piece :: linesOfPieces rest

def textLines (s : Str) : List Str := linesOfPieces (s.splitOnP (· = '\n'))

/-- The first line of the content disposition, or nothing. -/
def dispositionLine (headers : Str) : Str :=
  ((textLines headers).find? fun line =>
    "content-disposition".toList.isPrefixOf (toAsciiLowercase line)).getD []

def wantedQuoted (name : Str) : Str := "name=\"".toList ++ name ++ "\"".toList

def wantedBare (name : Str) : Str := "name=".toList ++ name

def namesField (headers name : Str) : Bool :=
  ((dispositionLine headers).splitOnP (· = ';')).any fun part =>
    trim part = wantedQuoted name || trim part = wantedBare name

theorem delimiter_length (boundary : Str) : 0 < (delimiter boundary).length := by
  show 0 < (charBytes '-' ++ _).length
  rw [List.length_append]
  exact Nat.add_pos_left (by decide) _

/-- The part whose delimiter stands at a place, and those behind it. -/
def spanFrom (body : List UInt8) (boundary name : Str) (place : Nat) : Option FieldSpan :=
  let headersStart := place + (delimiter boundary).length
  match hNext : find body (delimiter boundary) headersStart with
  | none => none
  | some next =>
      match (find body blankLine headersStart).filter (· < next) with
      | none => none
      | some headersEnd =>
          let headers := fromUtf8Lossy ((body.take headersEnd).drop headersStart)
          if namesField headers name then
            some ⟨headersEnd + 4, max (next - 2) (headersEnd + 4)⟩
          else spanFrom body boundary name next
termination_by body.length - place
decreasing_by
  obtain ⟨a, b, hBody, hLength, hStart⟩ := find_eq_some hNext
  have hPos := delimiter_length boundary
  rw [hBody, List.length_append, List.length_append]
  omega

def multipartSpan (body : List UInt8) (boundary name : Str) : Option FieldSpan :=
  (find body (delimiter boundary) 0).bind (spanFrom body boundary name)

def multipartField (body : List UInt8) (boundary name : Str) : Option Str := do
  let span ← multipartSpan body boundary name
  let value ← fromUtf8 ((body.take span.stop).drop span.start)
  if trim value ≠ [] then some (trim value) else none

def replaceMultipartField (body : List UInt8) (boundary name value : Str) : List UInt8 :=
  match multipartSpan body boundary name with
  | some span => body.take span.start ++ toUtf8 value ++ body.drop span.stop
  | none => body

/-! ### The request -/

/-- What routing needs from a media request. -/
structure MediaRequest where
  model : Str
  multipartBoundary : Option Str
  deriving DecidableEq

def routeMediaRequest (body : List UInt8) (contentType : Str) : Except WireError MediaRequest :=
  if isMultipart contentType then
    match multipartBoundary contentType with
    | none => .error (.invalidRequest "multipart body without a boundary".toList)
    | some boundary =>
        match multipartField body boundary "model".toList with
        | none => .error (.missingField "model".toList)
        | some model => .ok ⟨model, some boundary⟩
  else
    match fromSlice body with
    | none => .error .json
    | some value =>
        match optStr value "model" with
        | none => .error (.missingField "model".toList)
        | some model => .ok ⟨model, none⟩

/-- The body to forward, with the model as the upstream calls it. -/
def MediaRequest.upstreamBody (r : MediaRequest) (body : List UInt8) (upstreamModel : Str) :
    Except WireError (List UInt8) :=
  match r.multipartBoundary with
  | some boundary => .ok (replaceMultipartField body boundary "model".toList upstreamModel)
  | none =>
      match fromSlice body with
      | none => .error .json
      | some (.object fields) =>
          .ok (toUtf8 (Value.object (insertField "model".toList (.string upstreamModel) fields)).render)
      | some value => .ok (toUtf8 value.render)

end Gateway.Wire.Media
