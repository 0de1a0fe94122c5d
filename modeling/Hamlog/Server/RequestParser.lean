import Hamlog.Foundation.Decoder
import Hamlog.Wire.CharClass
import Mathlib.Data.List.ModifyLast

/-! # The server's request parser

`Request` and `RequestParser::handleChar`, one case per parser state. The
parser writes into the request while it reads, so its state and the request
under construction form the state of a decoder; `parse` is the loop of
`requestparser.h` with its byte count.
-/
namespace Hamlog.Server
open Foundation Wire

/-- `HamLog::Request`. The two versions are `unsigned int`. -/
structure Request where
  method : Bytes := []
  uri : Bytes := []
  majorVersion : UInt32 := 0
  minorVersion : UInt32 := 0
  finished : Bool := false
  headers : List Header := []
  content : Bytes := []
  deriving DecidableEq, Repr

namespace Request

def hasHeader (req : Request) (name : Bytes) : Bool := req.headers.any (·.name == name)

/-- The value of the first header of that name, or the empty string. -/
def getHeader (req : Request) (name : Bytes) : Bytes :=
  ((req.headers.find? (·.name == name)).map (·.value)).getD []

/-- `m_headers.back().name.push_back(input)` -/
def pushName (req : Request) (input : Byte) : Request :=
  { req with headers := req.headers.modifyLast fun h => { h with name := h.name ++ [input] } }

/-- `m_headers.back().value.push_back(input)` -/
def pushValue (req : Request) (input : Byte) : Request :=
  { req with headers := req.headers.modifyLast fun h => { h with value := h.value ++ [input] } }

end Request

namespace RequestParser

/-- `enum state`. `uriStart` is declared in the source but never entered. -/
inductive State where
  | methodStart | method | uriStart | uri
  | httpVersionH | httpVersionT1 | httpVersionT2 | httpVersionP | httpVersionSlash
  | httpVersionMajorStart | httpVersionMajor | httpVersionMinorStart | httpVersionMinor
  | expectingNewline1 | headerLineStart | headerLws | headerName
  | spaceBeforeHeaderValue | headerValue | expectingNewline2 | expectingNewline3
  | contentStart | content | expectingNewline4
  deriving DecidableEq, Repr

/-- `m_majorVersion * 10 + input - '0'` in unsigned arithmetic. -/
def pushDigit (version : UInt32) (input : Byte) : UInt32 :=
  version * 10 + input.toUInt32 - 48

/-- A state that waits for one fixed character. -/
def expect (c : Char) (next : State) (req : Request) (input : Byte) : Option (State × Request) :=
  if input = ch c then some (next, req) else none

/-- One character of `RequestParser::handleChar`; `none` is the result `false`, which leaves the
parser and the request as they were. -/
def handleChar (state : State) (req : Request) (input : Byte) : Option (State × Request) :=
  match state with
  | .methodStart =>
    if !isChar input || isControl input || isSpecial input then none
    else some (.method, { req with method := req.method ++ [input] })
  | .method =>
    if input = ch ' ' then some (.uri, req)
    else if !isChar input || isControl input || isSpecial input then none
    else some (.method, { req with method := req.method ++ [input] })
  | .uriStart => none
  | .uri =>
    if input = ch ' ' then some (.httpVersionH, req)
    else if isControl input then none
    else some (.uri, { req with uri := req.uri ++ [input] })
  | .httpVersionH => expect 'H' .httpVersionT1 req input
  | .httpVersionT1 => expect 'T' .httpVersionT2 req input
  | .httpVersionT2 => expect 'T' .httpVersionP req input
  | .httpVersionP => expect 'P' .httpVersionSlash req input
  | .httpVersionSlash =>
    if input = ch '/' then
      some (.httpVersionMajorStart, { req with majorVersion := 0, minorVersion := 0 })
    else none
  | .httpVersionMajorStart =>
    if isDigit input then
      some (.httpVersionMajor, { req with majorVersion := pushDigit req.majorVersion input })
    else none
  | .httpVersionMajor =>
    if input = ch '.' then some (.httpVersionMinorStart, req)
    else if isDigit input then
      some (.httpVersionMajor, { req with majorVersion := pushDigit req.majorVersion input })
    else none
  | .httpVersionMinorStart =>
    if isDigit input then
      some (.httpVersionMinor, { req with minorVersion := pushDigit req.minorVersion input })
    else none
  | .httpVersionMinor =>
    if input = ch '\r' then some (.expectingNewline1, req)
    else if isDigit input then
      some (.httpVersionMinor, { req with minorVersion := pushDigit req.minorVersion input })
    else none
  | .expectingNewline1 => expect '\n' .headerLineStart req input
  | .headerLineStart =>
    if input = ch '\r' then some (.expectingNewline3, req)
    -- a continuation line is only read behind a first header
    else if !req.headers.isEmpty && (input == ch ' ' || input == ch '\t') then
      some (.headerLws, req)
    else if !isChar input || isControl input || isSpecial input then none
    else some (.headerName, { req with headers := req.headers ++ [⟨[input], []⟩] })
  | .headerLws =>
    if input = ch '\r' then some (.expectingNewline2, req)
    else if input = ch ' ' ∨ input = ch '\t' then some (.headerLws, req)
    else if isControl input then none
    else some (.headerValue, req.pushValue input)
  | .headerName =>
    if input = ch ':' then some (.spaceBeforeHeaderValue, req)
    else if !isChar input || isControl input || isSpecial input then none
    else some (.headerName, req.pushName input)
  | .spaceBeforeHeaderValue => expect ' ' .headerValue req input
  | .headerValue =>
    if input = ch '\r' then some (.expectingNewline2, req)
    else if isControl input then none
    else some (.headerValue, req.pushValue input)
  | .expectingNewline2 => expect '\n' .headerLineStart req input
  | .expectingNewline3 =>
    if input = ch '\n' then
      -- only the presence of the header counts, not the length it declares
      if req.hasHeader contentLengthName then some (.contentStart, req)
      else some (.methodStart, { req with finished := true })
    else none
  | .contentStart =>
    if input = ch '\r' then some (.expectingNewline3, req)
    else some (.content, { req with content := req.content ++ [input] })
  | .content =>
    if input = ch '\r' then some (.expectingNewline4, req)
    else some (.content, { req with content := req.content ++ [input] })
  | .expectingNewline4 =>
    if input = ch '\n' then some (.methodStart, { req with finished := true }) else none

/-- `RequestParser::parse` behind `count` characters that were already read: the characters read up
to the end of the request or of the input, or zero when one is refused. -/
def parseFrom (count : ℕ) (state : State) (req : Request) : Bytes → ℕ × State × Request
  | [] => (count, state, req)
  | input :: data =>
    match handleChar state req input with
    | none => (0, state, req)
    | some (state', req') =>
      if req'.finished then (count + 1, state', req') else parseFrom (count + 1) state' req' data

def parse (state : State) (req : Request) (data : Bytes) : ℕ × State × Request :=
  parseFrom 0 state req data

/-! ## What one character can do -/

/-- A character is appended to the content, if it is no carriage return, or the content stays. -/
theorem handleChar_content {state state' : State} {req req' : Request} {input : Byte}
    (h : handleChar state req input = some (state', req')) :
    req'.content = req.content ∨
      (state = .contentStart ∨ state = .content) ∧ input ≠ cr ∧
        state' = .content ∧ req'.content = req.content ++ [input] := by
  cases state <;> simp only [handleChar, expect, Request.pushName, Request.pushValue] at h
  case uriStart => cases h
  all_goals
    split_ifs at h <;> cases h <;> simp_all [cr]

/-- Finishing a request resets the parser. -/
theorem handleChar_finished {state state' : State} {req req' : Request} {input : Byte}
    (h : handleChar state req input = some (state', req')) (hf : req.finished = false)
    (hf' : req'.finished = true) : state' = .methodStart := by
  cases state <;> simp only [handleChar, expect, Request.pushName, Request.pushValue] at h
  case uriStart => cases h
  all_goals
    split_ifs at h <;> cases h <;> simp_all

/-! ## The parser as a decoder -/

/-- The decoder of requests: after a finished request the session supplies a new one. -/
def decoder : Decoder (State × Request) Byte Unit where
  step s input := (handleChar s.1 s.2 input).elim (.error ()) .ok
  finished s := s.2.finished
  restart s := (s.1, {})

/-- The state of a new parser with a new request. -/
def initial : State × Request := (.methodStart, {})

theorem decoder_step {state : State} {req : Request} {input : Byte} {t : State × Request}
    (h : handleChar state req input = some t) : decoder.step (state, req) input = .ok t := by
  simp [decoder, h]

theorem decoder_step_none {state : State} {req : Request} {input : Byte}
    (h : handleChar state req input = none) : decoder.step (state, req) input = .error () := by
  simp [decoder, h]

theorem handleChar_of_step {s t : State × Request} {input : Byte}
    (h : decoder.step s input = .ok t) : handleChar s.1 s.2 input = some t := by
  cases hc : handleChar s.1 s.2 input with
  | none => simp [decoder, hc] at h
  | some u => simpa [decoder, hc] using h

theorem parseFrom_eq (count : ℕ) (state : State) (req : Request) (data : Bytes) :
    parseFrom count state req data =
      match decoder.parse (state, req) data with
      | .more t => (count + data.length, t.1, t.2)
      | .done t rest => (count + (data.length - rest.length), t.1, t.2)
      | .fail t _ _ => (0, t.1, t.2) := by
  induction data generalizing count state req with
  | nil => rfl
  | cons input data ih =>
    cases h : handleChar state req input with
    | none => simp [parseFrom, h, decoder.parse_cons_fail (decoder_step_none h)]
    | some t =>
      obtain ⟨state', req'⟩ := t
      cases hf : req'.finished with
      | true =>
        simp [parseFrom, h, hf, decoder.parse_cons_done (decoder_step h) hf]
      | false =>
        rw [decoder.parse_cons_more (decoder_step h) hf]
        simp only [parseFrom, h, hf, Bool.false_eq_true, if_false, ih]
        cases hp : decoder.parse (state', req') data with
        | more t => simp; omega
        | done t rest =>
          have := decoder.done_rest_length hp
          simp only [List.length_cons, Prod.mk.injEq, and_true]
          omega
        | fail t e rest => rfl

/-- The count, state and request that `parse` returns, in terms of the decoder. -/
theorem parse_eq (state : State) (req : Request) (data : Bytes) :
    parse state req data =
      match decoder.parse (state, req) data with
      | .more t => (data.length, t.1, t.2)
      | .done t rest => (data.length - rest.length, t.1, t.2)
      | .fail t _ _ => (0, t.1, t.2) := by
  simpa [parse] using parseFrom_eq 0 state req data

theorem parse_initial_eq (data : Bytes) :
    parse .methodStart {} data =
      match decoder.parse initial data with
      | .more t => (data.length, t.1, t.2)
      | .done t rest => (data.length - rest.length, t.1, t.2)
      | .fail t _ _ => (0, t.1, t.2) := parse_eq _ _ _

/-- The state that `parse` returns is the one in which the decoder ends. -/
theorem parse_state {data : Bytes} {n : ℕ} {s : State} {req : Request}
    (h : parse .methodStart {} data = (n, s, req)) :
    (decoder.parse initial data).state = (s, req) := by
  rw [parse_initial_eq] at h
  cases hp : decoder.parse initial data <;> rw [hp] at h <;> cases h <;> rfl

/-- The decoder leaves the parser new when it finishes a request. -/
theorem done_methodStart {data rest : Bytes} {t : State × Request}
    (h : decoder.parse initial data = .done t rest) : t.1 = .methodStart := by
  obtain ⟨hf, u, a, hu, hs⟩ := decoder.done_step rfl h
  exact handleChar_finished (handleChar_of_step hs) hu hf

end RequestParser
end Hamlog.Server
