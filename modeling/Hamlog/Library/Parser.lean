import Hamlog.Foundation.Decoder
import Hamlog.Wire.CharClass

/-! # The client's reply parser

`ham_parser_consume` reads a reply byte by byte and stores names, values and
content through one moving pointer. A buffer is modelled by the bytes written
to it before the pointer; the zero written at the pointer is what its readers
stop at. A store outside the buffer, or through the null pointer, is a fault.
-/
namespace Hamlog.Library
open Foundation Wire

structure HAMReply where
  status : ℕ := 0
  content : Bytes := []
  headers : List Header := []
  finished : Bool := false
  deriving DecidableEq, Repr

/-- The value of the first header with the name. -/
def hamReplyGetHeader (reply : HAMReply) (name : Bytes) : Option Bytes :=
  (reply.headers.find? (·.name == name)).map (·.value)

def hamReplyAddHeader (reply : HAMReply) (header : Header) : HAMReply :=
  { reply with headers := reply.headers ++ [header] }

/-- The content as its readers see it: a C string. -/
def hamReplyGetContent (reply : HAMReply) : Bytes := cstr reply.content

/-- The text that `ham_reply_get_dump` prints for the signal handlers. -/
def hamReplyGetDump (reply : HAMReply) : Bytes :=
  bytes "   status=" ++ decimal reply.status ++ bytes "\n   content=" ++
    hamReplyGetContent reply ++ bytes "\n   Headers:\n" ++
    reply.headers.flatMap fun header =>
      bytes "       " ++ header.name ++ bytes ": " ++ header.value ++ bytes "\n"

inductive HAMParserState where
  | httpVersionH | httpVersionT1 | httpVersionT2 | httpVersionP | httpVersionSlash
  | httpVersionMajorStart | httpVersionMajor | httpVersionMinorStart | httpVersionMinor
  | statusStart | status1 | status2 | statusText | contentStart | content
  | expectingNewline1 | headerLineStart | headerLws | headerName | spaceBeforeHeaderValue
  | headerValue | expectingNewline2 | expectingNewline3 | expectingNewline4
  deriving DecidableEq, Repr

/-- The three buffers the parser writes to. -/
inductive Region where
  | headerName | headerValue | content
  deriving DecidableEq, Repr

/-- The sizes of `header_name`, `header_value` and of the content of a reply. -/
def Region.size : Region → ℕ
  | .headerName => 512
  | .headerValue => 512
  | .content => 65535

/-- `ptr` points behind the written bytes of a buffer, or is null. -/
structure HAMParser where
  state : HAMParserState := .httpVersionH
  headerName : Bytes := []
  headerValue : Bytes := []
  ptr : Option Region := none
  deriving DecidableEq, Repr

/-- Why a byte is not consumed: the parser returns 0, or the program writes outside a buffer. -/
inductive Stop where
  | rejected | fault
  deriving DecidableEq, Repr

def hamParserReset (parser : HAMParser) : HAMParser :=
  { parser with state := .httpVersionH, ptr := none }

/-- A parser between two replies, as `ham_parser_new` and `ham_parser_reset` leave it. What its
buffers hold does not matter. -/
structure HAMParser.Idle (parser : HAMParser) : Prop where
  state_eq : parser.state = .httpVersionH
  ptr_eq : parser.ptr = none

theorem hamParserReset_idle (parser : HAMParser) : (hamParserReset parser).Idle := ⟨rfl, rfl⟩

theorem HAMParser.Idle.reset {parser : HAMParser} (h : parser.Idle) :
    hamParserReset parser = parser := by
  obtain ⟨state, headerName, headerValue, ptr⟩ := parser
  obtain ⟨rfl, rfl⟩ := h
  rfl

/-- The bytes written to a buffer. -/
def written (parser : HAMParser) (reply : HAMReply) : Region → Bytes
  | .headerName => parser.headerName
  | .headerValue => parser.headerValue
  | .content => reply.content

/-- Write access at the pointer. `fits` says which places of a buffer exist. -/
def access (fits : Region → ℕ → Bool) (parser : HAMParser) (reply : HAMReply) :
    Except Stop Region :=
  match parser.ptr with
  | none => .error .fault
  | some region =>
    if fits region (written parser reply region).length then .ok region else .error .fault

/-- `*parser->ptr++ = input`. -/
def store (fits : Region → ℕ → Bool) (parser : HAMParser) (reply : HAMReply) (input : Byte) :
    Except Stop (HAMParser × HAMReply) :=
  match access fits parser reply with
  | .error stop => .error stop
  | .ok .headerName => .ok ({ parser with headerName := parser.headerName ++ [input] }, reply)
  | .ok .headerValue => .ok ({ parser with headerValue := parser.headerValue ++ [input] }, reply)
  | .ok .content => .ok (parser, { reply with content := reply.content ++ [input] })

/-- `*parser->ptr = 0`, and what follows when the place exists. -/
def terminate (fits : Region → ℕ → Bool) (parser : HAMParser) (reply : HAMReply)
    (next : HAMParser × HAMReply) : Except Stop (HAMParser × HAMReply) :=
  match access fits parser reply with
  | .error stop => .error stop
  | .ok _ => .ok next

def consumeIf (accepted : Bool) (next : HAMParser × HAMReply) :
    Except Stop (HAMParser × HAMReply) :=
  if accepted then .ok next else .error .rejected

/-- The numeric value of a digit. -/
def digit (input : Byte) : ℕ := input.toNat - (ch '0').toNat

/-- The blank line starts a content when a content length is declared and is not the text `0`. -/
def declaresContent (reply : HAMReply) : Bool :=
  match hamReplyGetHeader reply contentLengthName with
  | none => false
  | some value => value ≠ bytes "0"

def hamParserConsume (fits : Region → ℕ → Bool) (parser : HAMParser) (reply : HAMReply)
    (input : Byte) : Except Stop (HAMParser × HAMReply) :=
  match parser.state with
  | .httpVersionH =>
    if input = ch 'H' then .ok ({ parser with state := .httpVersionT1 }, reply)
    else consumeIf (input = 10 ∨ input = 13) (parser, reply)
  | .httpVersionT1 =>
    consumeIf (input = ch 'T') ({ parser with state := .httpVersionT2 }, reply)
  | .httpVersionT2 =>
    consumeIf (input = ch 'T') ({ parser with state := .httpVersionP }, reply)
  | .httpVersionP =>
    consumeIf (input = ch 'P') ({ parser with state := .httpVersionSlash }, reply)
  | .httpVersionSlash =>
    consumeIf (input = ch '/') ({ parser with state := .httpVersionMajorStart }, reply)
  | .httpVersionMajorStart =>
    consumeIf (isDigit input) ({ parser with state := .httpVersionMajor }, reply)
  | .httpVersionMajor =>
    if input = ch '.' then .ok ({ parser with state := .httpVersionMinorStart }, reply)
    else consumeIf (isDigit input) (parser, reply)
  | .httpVersionMinorStart =>
    consumeIf (isDigit input) ({ parser with state := .httpVersionMinor }, reply)
  | .httpVersionMinor =>
    if input = ch ' ' then .ok ({ parser with state := .statusStart }, reply)
    else consumeIf (isDigit input) (parser, reply)
  | .statusStart =>
    consumeIf (isDigit input)
      ({ parser with state := .status1 }, { reply with status := 100 * digit input })
  | .status1 =>
    consumeIf (isDigit input)
      ({ parser with state := .status2 }, { reply with status := reply.status + 10 * digit input })
  | .status2 =>
    consumeIf (isDigit input)
      ({ parser with state := .statusText }, { reply with status := reply.status + digit input })
  | .statusText =>
    if isDigit input then .error .rejected
    else if input = ch '\r' then .ok ({ parser with state := .expectingNewline1 }, reply)
    else .ok (parser, reply)
  | .expectingNewline1 =>
    consumeIf (input = ch '\n') ({ parser with state := .headerLineStart }, reply)
  | .headerLineStart =>
    if input = ch '\r' then .ok ({ parser with state := .expectingNewline3 }, reply)
    else if reply.headers.length = 0 ∧ (input = ch ' ' ∨ input = ch '\t') then
      .ok ({ parser with state := .headerLws }, reply)
    else if !isChar input || isControl input || isSpecial input then .error .rejected
    else
      store fits { parser with state := .headerName, ptr := some .headerName, headerName := [] }
        reply input
  | .headerLws =>
    if input = ch '\r' then .ok ({ parser with state := .expectingNewline2 }, reply)
    else if input = ch ' ' ∨ input = ch '\t' then .ok (parser, reply)
    else if isControl input then .error .rejected
    else store fits { parser with state := .headerValue } reply input
  | .headerName =>
    if input = ch ':' then .ok ({ parser with state := .spaceBeforeHeaderValue }, reply)
    else if !isChar input || isControl input || isSpecial input then .error .rejected
    else store fits parser reply input
  | .spaceBeforeHeaderValue =>
    if input = ch ' ' then
      terminate fits parser reply
        ({ parser with state := .headerValue, ptr := some .headerValue, headerValue := [] }, reply)
    else .error .rejected
  | .headerValue =>
    if input = ch '\r' then
      terminate fits parser reply
        ({ parser with state := .expectingNewline2 },
          hamReplyAddHeader reply ⟨cstr parser.headerName, cstr parser.headerValue⟩)
    else if isControl input then .error .rejected
    else store fits parser reply input
  | .contentStart =>
    if input = ch '\r' then .ok ({ parser with state := .expectingNewline3 }, reply)
    else
      store fits { parser with state := .content, ptr := some .content }
        { reply with content := [] } input
  | .content =>
    if input = ch '\r' then
      terminate fits parser reply ({ parser with state := .expectingNewline4 }, reply)
    else store fits parser reply input
  | .expectingNewline2 =>
    consumeIf (input = ch '\n') ({ parser with state := .headerLineStart }, reply)
  | .expectingNewline3 =>
    if input = ch '\n' then
      if declaresContent reply then .ok ({ parser with state := .contentStart }, reply)
      else .ok (hamParserReset parser, { reply with content := [], finished := true })
    else .error .rejected
  | .expectingNewline4 =>
    consumeIf (input = ch '\n') (hamParserReset parser, { reply with finished := true })

/-- The buffers as the library declares them. -/
def declared (region : Region) (i : ℕ) : Bool := i < region.size

/-- The loop of `ham_parser_parse` behind `parsed` bytes. The finishing byte is not counted, and
`none` is a write outside a buffer. -/
def parseFrom (parsed : ℕ) (parser : HAMParser) (reply : HAMReply) :
    Bytes → Option (ℕ × HAMParser × HAMReply)
  | [] => some (parsed, parser, reply)
  | input :: data =>
    match hamParserConsume declared parser reply input with
    | .error .fault => none
    | .error .rejected => some (parsed, hamParserReset parser, reply)
    | .ok (parser, reply) =>
      if reply.finished then some (parsed, parser, reply)
      else parseFrom (parsed + 1) parser reply data

def hamParserParse (parser : HAMParser) (reply : HAMReply) (data : Bytes) :
    Option (ℕ × HAMParser × HAMReply) :=
  parseFrom 0 parser reply data

/-! ## Steps -/

theorem store_ok {fits : Region → ℕ → Bool} {p q : HAMParser} {r s : HAMReply} {c : Byte}
    (h : store fits p r c = .ok (q, s)) :
    q.state = p.state ∧ s.headers = r.headers ∧ s.finished = r.finished := by
  unfold store at h
  cases ha : access fits p r with
  | error stop => simp [ha] at h
  | ok region =>
    cases region <;> simp only [ha, Except.ok.injEq, Prod.mk.injEq] at h <;>
      obtain ⟨rfl, rfl⟩ := h <;> exact ⟨rfl, rfl, rfl⟩

theorem terminate_ok {fits : Region → ℕ → Bool} {p q : HAMParser} {r s : HAMReply}
    {next : HAMParser × HAMReply} (h : terminate fits p r next = .ok (q, s)) :
    next = (q, s) := by
  unfold terminate at h
  cases ha : access fits p r <;> simp_all

/-- Only a line feed finishes a reply, and it resets the parser. -/
theorem consume_finished {fits : Region → ℕ → Bool} {p q : HAMParser} {r s : HAMReply} {c : Byte}
    (hr : r.finished = false) (h : hamParserConsume fits p r c = .ok (q, s))
    (hs : s.finished = true) : c = ch '\n' ∧ q.Idle ∧ p.state ≠ .httpVersionH := by
  have hsame : s ≠ r := fun heq => by simp [heq, hr] at hs
  unfold hamParserConsume at h
  cases hp : p.state <;> simp only [hp, consumeIf] at h <;> split_ifs at h
  all_goals first
    | cases h
      simp_all [hamParserReset_idle]
    | cases terminate_ok h
      simp_all [hamReplyAddHeader]
    | obtain ⟨-, -, hf⟩ := store_ok h
      simp_all

/-! ## The decoder -/

/-- The parser as a decoder. The connection starts the next reply with a new `HAMReply`. -/
def decoder (fits : Region → ℕ → Bool) : Decoder (HAMParser × HAMReply) Byte Stop where
  step s input := hamParserConsume fits s.1 s.2 input
  finished s := s.2.finished
  restart s := (s.1, {})

theorem parseFrom_eq (parsed : ℕ) (parser : HAMParser) (reply : HAMReply) (data : Bytes) :
    parseFrom parsed parser reply data =
      match (decoder declared).parse (parser, reply) data with
      | .more s => some (parsed + data.length, s)
      | .done s rest => some (parsed + data.length - rest.length - 1, s)
      | .fail _ .fault _ => none
      | .fail s .rejected rest =>
        some (parsed + data.length - rest.length, hamParserReset s.1, s.2) := by
  induction data generalizing parsed parser reply with
  | nil => rfl
  | cons input data ih =>
    have hstep : (decoder declared).step (parser, reply) input =
        hamParserConsume declared parser reply input := rfl
    rw [parseFrom]
    cases h : hamParserConsume declared parser reply input with
    | error stop => cases stop <;> simp [Decoder.parse, hstep, h]
    | ok s =>
      obtain ⟨p, r⟩ := s
      cases hf : r.finished with
      | true =>
        rw [(decoder declared).parse_cons_done (hstep.trans h) hf]
        simp only [hf, if_true, List.length_cons, Option.some.injEq, Prod.mk.injEq, and_true]
        omega
      | false =>
        rw [(decoder declared).parse_cons_more (hstep.trans h) hf]
        simp only [hf, Bool.false_eq_true, if_false, ih]
        cases (decoder declared).parse (p, r) data with
        | more s => simp [Nat.add_comm, Nat.add_left_comm]
        | done s rest => simp [Nat.add_comm, Nat.add_left_comm]
        | fail s stop rest => cases stop <;> simp [Nat.add_comm, Nat.add_left_comm]

/-- What `ham_parser_parse` returns, by what the decoder comes to. -/
theorem hamParserParse_eq (parser : HAMParser) (reply : HAMReply) (data : Bytes) :
    hamParserParse parser reply data =
      match (decoder declared).parse (parser, reply) data with
      | .more s => some (data.length, s)
      | .done s rest => some (data.length - rest.length - 1, s)
      | .fail _ .fault _ => none
      | .fail s .rejected rest => some (data.length - rest.length, hamParserReset s.1, s.2) := by
  rw [hamParserParse, parseFrom_eq]
  simp only [zero_add]

/-- A parse that reports a finished reply is a finished parse of the decoder. -/
theorem parse_of_finished {p q : HAMParser} {r s : HAMReply} {data : Bytes} {n : ℕ}
    (hr : r.finished = false) (h : hamParserParse p r data = some (n, q, s))
    (hs : s.finished = true) : ∃ rest, (decoder declared).parse (p, r) data = .done (q, s) rest := by
  rw [hamParserParse_eq] at h
  have hstart : (decoder declared).finished (p, r) = false := hr
  cases hp : (decoder declared).parse (p, r) data with
  | more t =>
    have hf := (decoder declared).more_unfinished hstart hp
    simp only [hp, Option.some.injEq, Prod.mk.injEq] at h
    obtain ⟨-, rfl⟩ := h
    simp [decoder, hs] at hf
  | done t rest =>
    simp only [hp, Option.some.injEq, Prod.mk.injEq] at h
    exact ⟨rest, by rw [h.2]⟩
  | fail t stop rest =>
    have hf := (decoder declared).fail_unfinished hstart hp
    cases stop with
    | fault => simp [hp] at h
    | rejected =>
      simp only [hp, Option.some.injEq, Prod.mk.injEq] at h
      simp [decoder, h.2.2, hs] at hf

/-- A smaller buffer only turns steps into faults. -/
theorem hamParserConsume_guarded (fits : Region → ℕ → Bool) (parser : HAMParser)
    (reply : HAMReply) (input : Byte) :
    hamParserConsume fits parser reply input =
        hamParserConsume (fun _ _ => true) parser reply input ∨
      hamParserConsume fits parser reply input = .error .fault := by
  have haccess (p : HAMParser) (r : HAMReply) :
      access fits p r = access (fun _ _ => true) p r ∨ access fits p r = .error .fault := by
    unfold access
    cases p.ptr with
    | none => exact .inl rfl
    | some region => by_cases h : fits region (written p r region).length <;> simp [h]
  have hstore (p : HAMParser) (r : HAMReply) (c : Byte) :
      store fits p r c = store (fun _ _ => true) p r c ∨ store fits p r c = .error .fault := by
    unfold store
    rcases haccess p r with h | h <;> simp [h]
  have hterminate (p : HAMParser) (r : HAMReply) (next : HAMParser × HAMReply) :
      terminate fits p r next = terminate (fun _ _ => true) p r next ∨
        terminate fits p r next = .error .fault := by
    unfold terminate
    rcases haccess p r with h | h <;> simp [h]
  unfold hamParserConsume
  cases parser.state <;> dsimp only <;> (try exact .inl rfl) <;> split_ifs <;>
    first | exact .inl rfl | apply hstore | apply hterminate

theorem decoder_guards (fits : Region → ℕ → Bool) :
    (decoder fits).Guards (decoder fun _ _ => true) .fault :=
  ⟨rfl, fun s input => hamParserConsume_guarded fits s.1 s.2 input⟩

end Hamlog.Library
